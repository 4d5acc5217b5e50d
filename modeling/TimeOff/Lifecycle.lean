import TimeOff.System

/-!
# The lifecycle of requests

What the service is for, as far as requests and balances go: a request is
submitted with its days reserved, moves along `ALLOWED_TRANSITIONS`, and its
days are released or used as it gets there (`settle`); a sync may come between
(`Move`). Neither calls nor ticks nor races are left here.

Every step of the system is such a move of its books (`move_of_run`). The
invariant behind it is that the version of a request determines its status: a
call whose copy of its request has the version of the row acts on the status
of the row.
-/

namespace TimeOff

open Transaction Transition

/-- The requests and the balances. -/
structure Books where
  requests : Table TimeOffRequest
  balances : Balances

/-- The books of a database. -/
def Database.books (db : Database) : Books := ⟨db.requests, db.balances⟩

/-- What happens to the balance of a request that gets the status `target`. -/
def Balances.settle (t : Balances) (target : RequestStatus) (key : BalanceKey) (days : ℚ) :
    Balances :=
  match target with
  | .pending | .approvedPendingHcm | .failed => t
  | .rejected | .cancelled => t.updateKey key (·.release days) (LeaveBalance.key_release days)
  | .approved => t.updateKey key (·.confirm days) (LeaveBalance.key_confirm days)

namespace Books

/-- A request is submitted for `days` days. -/
def submit (B : Books) (dto : SubmitRequestDto) (days : ℤ) : Books where
  requests := B.requests.insert (dto.request days)
  balances := B.balances.updateKey dto.toBalanceKey (·.reserve days) (LeaveBalance.key_reserve days)

/-- The request `r`, of that id, gets the status `target`. -/
def transition (B : Books) (id : ℕ) (r : TimeOffRequest) (target : RequestStatus)
    (x : ExtraFields) : Books where
  requests := B.requests.update id (·.move target x)
  balances := B.balances.settle target r.toBalanceKey r.daysRequested

/-- A cancelled request gets the id of its deduction. -/
def stamp (B : Books) (id : ℕ) (hcmRequestId : String) : Books where
  requests := B.requests.update id (·.stamp hcmRequestId)
  balances := B.balances

end Books

/-- A move of the books, among them a sync if `synced`. -/
inductive Move (synced : Prop) (B B' : Books) : Prop
  | stay : B' = B → Move synced B B'
  | submit {dto : SubmitRequestDto} {days : ℤ} {i : ℕ} {b : LeaveBalance} : 0 < days →
      B.balances.get i = some b → b.toBalanceKey = dto.toBalanceKey →
      days ≤ b.totalDays - b.usedDays - b.reservedDays →
      B' = B.submit dto days → Move synced B B'
  | transition {id : ℕ} {r : TimeOffRequest} (target : RequestStatus) {x : ExtraFields} :
      B.requests.get id = some r → canTransition r.status target →
      B' = B.transition id r target x → Move synced B B'
  /-- The HCM has deducted the days of a request that has been cancelled. -/
  | stamp {id : ℕ} {r : TimeOffRequest} {hcmRequestId : String} :
      B.requests.get id = some r → r.status = .cancelled →
      B' = B.stamp id hcmRequestId → Move synced B B'
  | sync : synced → B'.requests = B.requests → B.balances.Synced B'.balances →
      Move synced B B'

/-- Without a sync. -/
theorem Move.unsynced {synced : Prop} {B B' : Books} (hmove : Move synced B B') (hno : ¬synced) :
    Move False B B' := by
  cases hmove with
  | stay hB => exact .stay hB
  | submit hdays hb hk havail hB => exact .submit hdays hb hk havail hB
  | transition target hr hcan hB => exact .transition target hr hcan hB
  | stamp hr hstatus hB => exact .stamp hr hstatus hB
  | sync hsynced _ _ => exact absurd hsynced hno

/-- `r` is what may have become of `r₀`: its days and their balance are the
    same, and its status is too if its version is. -/
structure TimeOffRequest.Before (r₀ r : TimeOffRequest) : Prop where
  key : r.toBalanceKey = r₀.toBalanceKey
  days : r.daysRequested = r₀.daysRequested
  version : r₀.version ≤ r.version
  status : r₀.version = r.version → r₀.status = r.status

namespace TimeOffRequest.Before

variable {r₀ r₁ r₂ : TimeOffRequest}

theorem refl (r : TimeOffRequest) : r.Before r := ⟨rfl, rfl, le_rfl, fun _ => rfl⟩

/-- What a request was before, and before that. -/
theorem trans (h : r₀.Before r₁) (h' : r₁.Before r₂) : r₀.Before r₂ where
  key := h'.key.trans h.key
  days := h'.days.trans h.days
  version := h.version.trans h'.version
  status hv := by
    have hle := h.version
    have hle' := h'.version
    exact (h.status (by omega)).trans (h'.status (by omega))

theorem move (r : TimeOffRequest) (target : RequestStatus) (x : ExtraFields) :
    r.Before (r.move target x) :=
  ⟨rfl, rfl, Nat.le_succ _, fun hv => absurd hv (Nat.lt_succ_self _).ne⟩

theorem stamp (r : TimeOffRequest) (hcmRequestId : String) : r.Before (r.stamp hcmRequestId) :=
  ⟨rfl, rfl, le_rfl, fun _ => rfl⟩

/-- A row that is updated along `Before` stays behind what it was. -/
theorem update {f : TimeOffRequest → TimeOffRequest} (hf : ∀ r : TimeOffRequest, r.Before (f r))
    {t : Table TimeOffRequest} {id : ℕ} {r : TimeOffRequest} (i : ℕ) (hr : t.get id = some r) :
    ∃ r', (t.update i f).get id = some r' ∧ r.Before r' := by
  rw [Table.get_update, hr]
  split
  · exact ⟨f r, rfl, hf r⟩
  · exact ⟨r, rfl, .refl r⟩

end TimeOffRequest.Before

variable {cfg : Config} {db db' : Database} {B B' : Books} {s s' s₀ : State} {a : Action} {id : ℕ}
  {r : TimeOffRequest} {c : Call} {t t' : Session} {synced : Prop}

/-- No move removes a request, or turns it back. -/
theorem Move.before (hmove : Move synced B B') (hr : B.requests.get id = some r) :
    ∃ r', B'.requests.get id = some r' ∧ r.Before r' := by
  cases hmove with
  | stay hB => exact ⟨r, by rw [hB, hr], .refl r⟩
  | submit _ _ _ _ hB => exact ⟨r, by rw [hB]; exact Table.get_insert_of_some hr, .refl r⟩
  | transition target _ _ hB =>
    rw [hB]
    exact TimeOffRequest.Before.update (fun r => .move r _ _) _ hr
  | stamp _ _ hB => rw [hB]; exact TimeOffRequest.Before.update (fun r => .stamp r _) _ hr
  | sync _ hreq _ => exact ⟨r, by rw [hreq, hr], .refl r⟩

/-- A move leaves the status and the version of a request, or takes the status
    along an edge and the version to the next. -/
theorem Move.status (hmove : Move synced B B') (hr : B.requests.get id = some r) :
    ∃ r', B'.requests.get id = some r' ∧
      ((r'.status = r.status ∧ r'.version = r.version) ∨
        (canTransition r.status r'.status ∧ r'.version = r.version + 1)) := by
  cases hmove with
  | stay hB => exact ⟨r, by rw [hB, hr], .inl ⟨rfl, rfl⟩⟩
  | submit _ _ _ _ hB =>
    exact ⟨r, by rw [hB]; exact Table.get_insert_of_some hr, .inl ⟨rfl, rfl⟩⟩
  | @transition i q target x hq hcan hB =>
    rw [hB, Books.transition, Table.get_update]
    by_cases hi : id = i
    · obtain rfl : q = r := Option.some.inj (hq.symm.trans (hi ▸ hr))
      rw [if_pos hi, hr]
      exact ⟨_, rfl, .inr ⟨hcan, rfl⟩⟩
    · rw [if_neg hi]
      exact ⟨r, hr, .inl ⟨rfl, rfl⟩⟩
  | @stamp i q hcmRequestId _ _ hB =>
    rw [hB, Books.stamp, Table.get_update, hr]
    split
    · exact ⟨_, rfl, .inl ⟨rfl, rfl⟩⟩
    · exact ⟨r, rfl, .inl ⟨rfl, rfl⟩⟩
  | sync _ hreq _ => exact ⟨r, by rw [hreq, hr], .inl ⟨rfl, rfl⟩⟩

/-! ## Calls -/

/-- The request of a call has been read from the row of that id, and a
    cancellation has not found it settled. -/
structure Call.Ok (B : Books) (c : Call) : Prop where
  row : ∃ r, B.requests.get c.id = some r ∧ c.request.Before r
  cancel : c.kind = .cancel →
    c.request.status = .pending ∨ c.request.status = .approvedPendingHcm

/-- Every call in flight is in order. -/
def CallsOk (s : State) : Prop := ∀ n c, s.calls.get n = some c → c.Ok s.db.books

theorem Call.Ok.before (hok : c.Ok B) (hr : B.requests.get c.id = some r) : c.request.Before r := by
  obtain ⟨r', hr', hbefore⟩ := hok.row
  rwa [Option.some.inj (hr.symm.trans hr')]

/-- A call that has read its request can go on, whatever has happened to the
    books. -/
theorem Call.Ok.move (hok : c.Ok B) (hmove : Move synced B B') : c.Ok B' where
  row := by
    obtain ⟨r, hr, hbefore⟩ := hok.row
    obtain ⟨r', hr', hbefore'⟩ := hmove.before hr
    exact ⟨r', hr', hbefore.trans hbefore'⟩
  cancel := hok.cancel

/-! ## Steps are moves -/

/-- The completion of a deduction is a move. -/
theorem move_complete {hcmRequestId : String}
    (hrun : (completeDeductionFromOutbox id hcmRequestId).run t = .ok r t') :
    Move synced t.db.books t'.db.books := by
  obtain ⟨r₀, hr₀, ⟨-, rfl⟩ | ⟨hstatus, hdb, -⟩ | ⟨hcan, hdb, -⟩⟩ :=
    completeDeductionFromOutbox_ok hrun
  · exact .stay rfl
  · exact .stamp hr₀ hstatus (by rw [hdb]; rfl)
  · exact .transition .approved hr₀ hcan (by rw [hdb]; rfl)

theorem move_fail (hrun : (failRequestFromOutbox id).run t = .ok r t') :
    Move synced t.db.books t'.db.books := by
  obtain ⟨r₀, hr₀, ⟨-, rfl⟩ | ⟨hstatus, hdb, -⟩⟩ := failRequestFromOutbox_ok hrun
  · exact .stay rfl
  · exact .transition .failed hr₀ (by rw [hstatus]; rfl) (by rw [hdb]; rfl)

/-- So is what a handler does to the books: a completion, a failure, or nothing.
    -/
theorem move_handled {now : Instant} {hcm hcm' : HcmState} {h : Handler} {p : Progress}
    (hh : Handled cfg now db hcm h db' hcm' p) : Move synced db.books db'.books := by
  cases hh with
  | completed _ hrun =>
    obtain ⟨r, t, hcomplete, hdb, _⟩ := deductTransaction_ok hrun
    rw [hdb]
    exact move_complete hcomplete
  | recorded _ hrun =>
    rcases handleEventFailure_ok hrun with ⟨_, hdb⟩ | ⟨_, _, hdb⟩ | ⟨_, _, r, t, hfail, hdb⟩
    · exact .stay (by rw [hdb]; rfl)
    · exact .stay (by rw [hdb]; rfl)
    · have hmove : Move synced t.db.books _ := move_fail hfail
      rwa [hdb] at hmove
  | _ => exact .stay rfl

/-- A step of the system moves its books. -/
theorem Stepped.move (hok : CallsOk s) (hstep : Stepped cfg s a s') :
    Move a.isSync s.db.books s'.db.books := by
  cases hstep with
  | submit hdays hb hk havail => exact .submit hdays hb hk havail rfl
  | approve _ _ hr hstatus _ _ =>
    exact .transition .approvedPendingHcm hr (by rw [hstatus]; rfl) rfl
  | reject hc _ hr hstatus _ _ =>
    -- The copy of the call differs from the row, but not in its days.
    have hbefore := (hok _ _ hc).before hr
    rw [← hbefore.key, ← hbefore.days]
    exact .transition .rejected hr (by rw [hstatus]; rfl) rfl
  | cancel hc _ hr hcan _ =>
    have hbefore := (hok _ _ hc).before hr
    refine .transition .cancelled (x := {}) hr hcan ?_
    rw [← hbefore.key, ← hbefore.days]
    simp [Database.books, Database.release, Books.transition, Balances.settle]
  | complete hrun => exact move_complete hrun
  | fail hrun => exact move_fail hrun
  | sync ha hsync => exact .sync ha hsync.requests hsync.balances
  | handle _ _ hh => exact move_handled (Handler.step_handled hh)
  | _ => exact .stay rfl

/-- The calls stay in order: a new one holds the row as it is. -/
theorem CallsOk.step (hok : CallsOk s) (hstep : Stepped cfg s a s') : CallsOk s' := by
  have hmove := hstep.move hok
  have hkept : ∀ n c, s.calls.get n = some c → c.Ok s'.db.books :=
    fun n c hc => (hok n c hc).move hmove
  have herase : ∀ m n c, (s.calls.erase m).get n = some c → c.Ok s'.db.books := by
    intro m n c hc
    rw [Table.get_erase] at hc
    split at hc
    · cases hc
    · exact hkept n c hc
  cases hstep with
  | preRead hkind hid hr hcancel =>
    intro n c' hc'
    rcases Table.get_insert_eq_some.1 hc' with ⟨_, rfl⟩ | hc'
    · exact ⟨⟨_, by rw [hid]; exact hr, .refl _⟩, fun hk => hcancel (hkind ▸ hk)⟩
    · exact hkept n c' hc'
  | refuseCall _ _ => exact herase _
  | approve _ _ _ _ _ _ => exact herase _
  | reject _ _ _ _ _ _ => exact herase _
  | cancel _ _ _ _ _ => exact herase _
  | crash => exact fun n c hc => by cases hc
  | _ => exact hkept

variable {ok : State → Action → Prop} {h : List (State × Action)}

theorem callsOk_of_run (hcalls : s₀.calls = .empty) (hrun : Run (step cfg) ok s₀ h s) :
    CallsOk s :=
  hrun.invariant (fun n c hc => by rw [hcalls] at hc; cases hc)
    fun _ _ _ hok _ hnext => hok.step (step_stepped hnext)

/-- In a run that starts without calls in flight, every step moves the books. -/
theorem move_of_run (hcalls : s₀.calls = .empty) (hrun : Run (step cfg) ok s₀ h s)
    (hnext : step cfg s a = some s') : Move a.isSync s.db.books s'.db.books :=
  (step_stepped hnext).move (callsOk_of_run hcalls hrun)

end TimeOff
