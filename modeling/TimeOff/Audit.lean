import TimeOff.Races

/-!
# The audit trail of a request

A row of `time_off_requests` says who has asked for which days, who has decided
on them, and why they were refused. It says the truth: the service has no other
way to such a row than that the employee has submitted it, and that someone who
may decide on it has made the call that the row tells of (`audit_trail`).

A call is checked when it reads its request, and acts later, on a row that may
have changed since. The checks are about the employee and the location of the
request only, which never change; what does change is its version, and then the
call is refused.
-/

namespace TimeOff

open Transaction Transition

/-! ## Permissions -/

/-- The caller may approve or reject requests of the location. -/
def RequestUser.Decides (caller : RequestUser) (key : BalanceKey) : Prop :=
  caller.role = .admin ∨ caller.role = .manager ∧ caller.hasLocation key.locationId

/-- What the caller is concerned with: a decision, or a request of their own. -/
def RequestUser.Covers (caller : RequestUser) (key : BalanceKey) : Prop :=
  caller.Decides key ∨ caller.role = .employee ∧ caller.employeeId = key.employeeId

/-- The caller may make that call. -/
def CallKind.Permits (kind : CallKind) (caller : RequestUser) (key : BalanceKey) : Prop :=
  match kind with
  | .approve => caller.Decides key
  | .reject reason => caller.Decides key ∧ ¬reason.toList.all isTrimmed
  | .cancel => caller.Covers key

/-- The status that the call takes its request to. -/
def CallKind.target : CallKind → RequestStatus
  | .approve => .approvedPendingHcm
  | .reject _ => .rejected
  | .cancel => .cancelled

/-- What the call leaves in the row besides. -/
def Call.extraFields (c : Call) : ExtraFields :=
  match c.kind with
  | .approve => { managerId := some c.caller.employeeId }
  | .reject reason =>
    { managerId := some c.caller.employeeId, rejectionReason := some reason }
  | .cancel => {}

variable {cfg : Config} {s s' s₀ : State} {a : Action} {id n : ℕ} {r r' : TimeOffRequest}
  {c : Call} {t t' : Session} {caller : RequestUser} {kind : CallKind} {u : Unit}
  {h h' : List (State × Action)} {e : State × Action} {ok : State → Action → Prop}

/-- Whoever passes the check of the scope covers the balance of the request, and
    the check changes nothing. -/
theorem ensureRequestScope_ok (hrun : (ensureRequestScope r caller).run t = .ok u t') :
    caller.Covers r.toBalanceKey ∧ t' = t := by
  rw [ensureRequestScope] at hrun
  cases hrole : caller.role with
  | admin =>
    rw [hrole] at hrun
    exact ⟨.inl (.inl hrole), (pure_eq_ok.1 hrun).2.symm⟩
  | manager =>
    rw [hrole] at hrun
    obtain ⟨hlocation, ht⟩ := check_eq_ok.1 hrun
    exact ⟨.inl (.inr ⟨hrole, hlocation⟩), ht⟩
  | employee =>
    rw [hrole] at hrun
    obtain ⟨hown, ht⟩ := check_eq_ok.1 hrun
    exact ⟨.inr ⟨hrole, hown⟩, ht⟩

/-- A manager or administrator with a request in their scope may decide on it. -/
theorem RequestUser.Covers.decides {key : BalanceKey} (hcovers : caller.Covers key)
    (hrole : caller.role = .manager ∨ caller.role = .admin) : caller.Decides key := by
  rcases hcovers with hdecides | ⟨hemployee, _⟩
  · exact hdecides
  · rcases hrole with hrole | hrole <;> rw [hemployee] at hrole <;> cases hrole

theorem assertManagerOrAdmin_role {message : String}
    (hrun : (assertManagerOrAdmin caller message).run t = .ok u t') :
    caller.role = .manager ∨ caller.role = .admin :=
  (check_eq_ok.1 hrun).1

/-- What follows the checks of an approval or a rejection. -/
theorem decides_of_run {message : String}
    (hrun : (do assertManagerOrAdmin caller message
                let request ← findOrFail id
                ensureRequestScope request caller
                pure ⟨kind, id, caller, request⟩ : Tx Call).run t = .ok c t') :
    c.caller = caller ∧ caller.Decides c.request.toBalanceKey := by
  rw [bind_eq_ok] at hrun
  obtain ⟨_, _, hassert, hrun⟩ := hrun
  rw [bind_eq_ok] at hrun
  obtain ⟨request, _, _, hrun⟩ := hrun
  rw [bind_eq_ok] at hrun
  obtain ⟨_, _, hscope, hrun⟩ := hrun
  obtain ⟨rfl, _⟩ := pure_eq_ok.1 hrun
  exact ⟨rfl, (ensureRequestScope_ok hscope).1.decides (assertManagerOrAdmin_role hassert)⟩

/-- A call that passes its pre-read is permitted. -/
theorem preRead_permits (hrun : (preRead kind id caller).run t = .ok c t') :
    c.caller = caller ∧ kind.Permits caller c.request.toBalanceKey := by
  -- An approval and a rejection check the role and the scope, and a rejection its reason;
  -- a cancellation checks the scope only.
  cases kind with
  | approve => exact decides_of_run hrun
  | reject reason =>
    rw [preRead] at hrun
    split at hrun
    · rw [bind_eq_ok] at hrun
      obtain ⟨_, _, hthrow, _⟩ := hrun
      exact absurd hthrow throw_ne_ok
    · next hreason =>
      obtain ⟨hcaller, hdecides⟩ := decides_of_run hrun
      exact ⟨hcaller, hdecides, hreason⟩
  | cancel =>
    rw [preRead, bind_eq_ok] at hrun
    obtain ⟨request, _, _, hrun⟩ := hrun
    rw [bind_eq_ok] at hrun
    obtain ⟨_, _, hscope, hrun⟩ := hrun
    split at hrun
    · rw [bind_eq_ok] at hrun
      obtain ⟨_, _, hthrow, _⟩ := hrun
      exact absurd hthrow throw_ne_ok
    · obtain ⟨rfl, _⟩ := pure_eq_ok.1 hrun
      exact ⟨rfl, (ensureRequestScope_ok hscope).1⟩

/-- What a call that commits has written into its row. -/
theorem Call.transaction_moves {now : Instant} (hrun : (c.transaction now).run t = .ok u t') :
    ∃ r, t.db.requests.get c.id = some r ∧ canTransition r.status c.kind.target ∧
      t'.db.requests = t.db.requests.update c.id (·.move c.kind.target c.extraFields) := by
  -- Each of the three moves one request first. What they do to the outbox and to the
  -- balances afterwards leaves the requests as they are.
  rw [transaction] at hrun
  cases hkind : c.kind with
  | approve =>
    rw [hkind] at hrun
    replace hrun : (approveTransaction now c).run t = .ok u t' := hrun
    rw [approveTransaction, bind_eq_ok] at hrun
    obtain ⟨_, t₁, hmove, hinsert⟩ := hrun
    obtain ⟨r, hr, hcan, _, _, hdb, _⟩ := transitionRequest_ok hmove
    refine ⟨r, hr, hcan, ?_⟩
    rw [(execute_ok hinsert).1, hdb, extraFields, hkind]
    rfl
  | reject reason =>
    rw [hkind] at hrun
    replace hrun : (rejectTransaction reason c).run t = .ok u t' := hrun
    rw [rejectTransaction, bind_eq_ok] at hrun
    obtain ⟨_, t₁, hmove, hrelease⟩ := hrun
    obtain ⟨r, hr, hcan, _, _, hdb, _⟩ := transitionRequest_ok hmove
    refine ⟨r, hr, hcan, ?_⟩
    rw [(releaseReserved_ok hrelease).1, Database.requests_release, hdb, extraFields, hkind]
    rfl
  | cancel =>
    rw [hkind] at hrun
    obtain ⟨r, hr, hcan, _, hdb, _⟩ := cancelTransaction_ok hrun
    refine ⟨r, hr, hcan, ?_⟩
    rw [hdb, Database.requests_updateRequest, Database.requests_release, requests_cancelEvent,
      extraFields, hkind]
    rfl

/-! ## Rows -/

/-- Where the row `r'` of the request is from, after a step. -/
inductive Edited (cfg : Config) (s : State) (a : Action) (id : ℕ) (r' : TimeOffRequest) : Prop
  | kept : s.db.requests.get id = some r' → Edited cfg s a id r'
  | stamped {r : TimeOffRequest} {hcmRequestId : String} : s.db.requests.get id = some r →
      r.status = .cancelled → r' = r.stamp hcmRequestId → Edited cfg s a id r'
  | submitted {dto : SubmitRequestDto} {caller : RequestUser} {q : TimeOffRequest} {t : Session} :
      a = .submitRequest dto caller → s.db.requests.nextId = id →
      (submitRequest (localMidnight cfg.utcOffset s.now) dto caller).run (.start s.db) = .ok q t →
      r' = dto.request (calculateDaysRequested dto.startDate dto.endDate) → Edited cfg s a id r'
  | called {n : ℕ} {c : Call} {r : TimeOffRequest} : a = .transact n → s.calls.get n = some c →
      c.commits s → c.id = id → s.db.requests.get id = some r →
      canTransition r.status c.kind.target →
      r' = r.move c.kind.target c.extraFields → Edited cfg s a id r'
  | completed {r : TimeOffRequest} {hcmRequestId : String} : s.db.requests.get id = some r →
      canTransition r.status .approved →
      r' = r.move .approved { hcmRequestId := some hcmRequestId } → Edited cfg s a id r'
  | failed {r : TimeOffRequest} : s.db.requests.get id = some r → r.status = .approvedPendingHcm →
      r' = r.move .failed {} → Edited cfg s a id r'

/-- Completing a deduction edits a request: it is approved, or stamped if it has
    been cancelled. -/
theorem edited_complete {i : ℕ} {q : TimeOffRequest} {hcmRequestId : String}
    (hrun : (completeDeductionFromOutbox i hcmRequestId).run t = .ok q t')
    (ht : t.db.requests = s.db.requests) (hr' : t'.db.requests.get id = some r') :
    Edited cfg s a id r' := by
  obtain ⟨r, hr, ⟨_, rfl⟩ | ⟨hcancelled, hdb, _⟩ | ⟨hcan, hdb, _⟩⟩ :=
    completeDeductionFromOutbox_ok hrun
  · exact .kept (ht ▸ hr')
  · rw [hdb, Database.requests_updateRequest, ht] at hr'
    rcases Table.get_update_eq_some.1 hr' with ⟨rfl, q, hq, rfl⟩ | ⟨_, hr'⟩
    · rw [ht, hq] at hr
      obtain rfl := Option.some.inj hr
      exact .stamped hq hcancelled rfl
    · exact .kept hr'
  · rw [hdb, Database.requests_confirm, Database.requests_updateRequest, ht] at hr'
    rcases Table.get_update_eq_some.1 hr' with ⟨rfl, q, hq, rfl⟩ | ⟨_, hr'⟩
    · rw [ht, hq] at hr
      obtain rfl := Option.some.inj hr
      exact .completed hq hcan rfl
    · exact .kept hr'

/-- A deduction that has failed for good edits its request at most to `FAILED`. -/
theorem edited_fail {i : ℕ} {q : TimeOffRequest}
    (hrun : (failRequestFromOutbox i).run t = .ok q t')
    (ht : t.db.requests = s.db.requests) (hr' : t'.db.requests.get id = some r') :
    Edited cfg s a id r' := by
  obtain ⟨r, hr, ⟨_, rfl⟩ | ⟨hawaiting, hdb, _⟩⟩ := failRequestFromOutbox_ok hrun
  · exact .kept (ht ▸ hr')
  · rw [hdb, Database.requests_updateRequest, ht] at hr'
    rcases Table.get_update_eq_some.1 hr' with ⟨rfl, q, hq, rfl⟩ | ⟨_, hr'⟩
    · rw [ht, hq] at hr
      obtain rfl := Option.some.inj hr
      exact .failed hq hawaiting rfl
    · exact .kept hr'

/-- What a handler does to the requests is done by one of the two callbacks. -/
theorem edited_handled {hd : Handler} {db : Database} {hcm : HcmState} {p : Progress}
    (hh : Handled cfg s.now s.db s.hcm hd db hcm p) (hr' : db.requests.get id = some r') :
    Edited cfg s a id r' := by
  cases hh with
  | completed _ hrun =>
    obtain ⟨q, t, hcomplete, hdb, _⟩ := deductTransaction_ok hrun
    rw [hdb] at hr'
    exact edited_complete hcomplete rfl hr'
  | recorded _ hrun =>
    rcases handleEventFailure_ok hrun with ⟨_, hdb⟩ | ⟨_, _, hdb⟩ | ⟨_, _, q, t, hfail, hdb⟩
    · rw [hdb] at hr'
      exact .kept hr'
    · rw [hdb] at hr'
      exact .kept hr'
    · exact edited_fail hfail (by rw [hdb]; rfl) hr'
  | _ => exact .kept hr'

/-- A submission writes the row of its request. -/
theorem edited_submit {dto : SubmitRequestDto}
    (hr' : (transaction (submitRequest (localMidnight cfg.utcOffset s.now) dto caller)
      s.db).requests.get id = some r') :
    Edited cfg s (.submitRequest dto caller) id r' := by
  rcases transaction_cases (submitRequest (localMidnight cfg.utcOffset s.now) dto caller) s.db
    with ⟨q, t, hrun, ht⟩ | ⟨_, _, _, ht⟩ <;> rw [ht] at hr'
  · obtain ⟨hrole, _, _, _, _, htx⟩ := submitRequest_checked hrun
    obtain ⟨i, b, _, _, _, hdb, _⟩ := submitTransaction_ok hrole htx
    rw [hdb] at hr'
    rcases Table.get_insert_eq_some.1 hr' with ⟨hid, rfl⟩ | hr'
    · exact .submitted rfl hid.symm hrun rfl
    · exact .kept hr'
  · exact .kept hr'

/-- A call writes the row of its request, if it commits. -/
theorem edited_transact (hc : s.calls.get n = some c)
    (hr' : (transaction (c.transaction s.now) s.db).requests.get id = some r') :
    Edited cfg s (.transact n) id r' := by
  rcases transaction_cases (c.transaction s.now) s.db with ⟨_, t, hrun, ht⟩ | ⟨_, _, _, ht⟩ <;>
    rw [ht] at hr'
  · obtain ⟨q, hq, hcan, hreq⟩ := Call.transaction_moves hrun
    rw [hreq] at hr'
    rcases Table.get_update_eq_some.1 hr' with ⟨rfl, r, hr, rfl⟩ | ⟨_, hr'⟩
    · obtain rfl := Option.some.inj (hr.symm.trans hq)
      exact .called rfl hc (Call.commits_eq_true.2 ⟨t, hrun⟩) rfl hr hcan rfl
    · exact .kept hr'
  · exact .kept hr'

/-- The steps that are neither submissions nor transactions of calls edit the
    requests by a callback, or not at all. -/
theorem edited_stepped (hstep : Stepped cfg s a s') (hr' : s'.db.requests.get id = some r')
    (hsubmit : ∀ dto caller, a ≠ .submitRequest dto caller) (htransact : ∀ n, a ≠ .transact n) :
    Edited cfg s a id r' := by
  cases hstep with
  | submit _ _ _ _ => exact absurd rfl (hsubmit _ _)
  | approve _ _ _ _ _ _ => exact absurd rfl (htransact _)
  | reject _ _ _ _ _ _ => exact absurd rfl (htransact _)
  | cancel _ _ _ _ _ => exact absurd rfl (htransact _)
  | complete hrun => exact edited_complete hrun rfl hr'
  | fail hrun => exact edited_fail hrun rfl hr'
  | sync _ hsync => exact .kept (hsync.requests ▸ hr')
  | handle _ _ hh => exact edited_handled (Handler.step_handled hh) hr'
  | _ => exact .kept hr'

/-- Every row is from the list. -/
theorem edited_of_step (hnext : step cfg s a = some s') (hr' : s'.db.requests.get id = some r') :
    Edited cfg s a id r' := by
  cases a with
  | submitRequest dto caller =>
    obtain rfl := Option.some.inj hnext
    exact edited_submit hr'
  | transact n =>
    obtain ⟨c, hc, rfl⟩ := Option.map_eq_some_iff.1 hnext
    exact edited_transact hc hr'
  | _ => exact edited_stepped (step_stepped hnext) hr' (by simp) (by simp)

/-! ## The trail -/

/-- `caller` has made a call of that kind for the request, and it has
    committed. -/
def Called (h : List (State × Action)) (kind : CallKind) (id : ℕ) (caller : RequestUser) : Prop :=
  (∃ s, (s, .preRead kind id caller) ∈ h) ∧ ∃ s n c, (s, .transact n) ∈ h ∧
    s.calls.get n = some c ∧ c.kind = kind ∧ c.id = id ∧ c.caller = caller ∧ c.commits s

/-- The employee of the request has submitted it, and it is for all days from
    the first to the last. -/
def SubmittedBy (cfg : Config) (h : List (State × Action)) (id : ℕ) (r : TimeOffRequest) : Prop :=
  ∃ s dto caller, (s, .submitRequest dto caller) ∈ h ∧ s.db.requests.nextId = id ∧
    caller.role = .employee ∧ caller.employeeId = r.employeeId ∧
    dto.toBalanceKey = r.toBalanceKey ∧ dto.startDate = r.startDate ∧ dto.endDate = r.endDate ∧
    r.daysRequested = calculateDaysRequested r.startDate r.endDate ∧
    localMidnight cfg.utcOffset s.now ≤ r.startDate.getTime ∧
    r.startDate.getTime ≤ r.endDate.getTime

/-- The manager of the request has approved it, and could. -/
def ApprovedBy (h : List (State × Action)) (id : ℕ) (r : TimeOffRequest) : Prop :=
  ∃ caller, caller.Decides r.toBalanceKey ∧ r.managerId = some caller.employeeId ∧
    Called h .approve id caller

/-- What has brought the request to its status. -/
def DecidedBy (h : List (State × Action)) (id : ℕ) (r : TimeOffRequest) : Prop :=
  match r.status with
  | .pending => r.managerId = none ∧ r.rejectionReason = none ∧ r.hcmRequestId = none
  | .approvedPendingHcm | .failed =>
    ApprovedBy h id r ∧ r.rejectionReason = none ∧ r.hcmRequestId = none
  | .approved => ApprovedBy h id r ∧ r.rejectionReason = none ∧ r.hcmRequestId.isSome
  | .rejected => ∃ caller reason, caller.Decides r.toBalanceKey ∧
      r.managerId = some caller.employeeId ∧ r.rejectionReason = some reason ∧
      ¬reason.toList.all isTrimmed ∧ Called h (.reject reason) id caller
  | .cancelled => (r.managerId = none ∨ ApprovedBy h id r) ∧ r.rejectionReason = none ∧
      ∃ caller, caller.Covers r.toBalanceKey ∧ Called h .cancel id caller

theorem Called.mono (hcalled : Called h kind id caller) (hsub : h ⊆ h') :
    Called h' kind id caller := by
  obtain ⟨⟨s, hread⟩, s', n, c, htransact, hc⟩ := hcalled
  exact ⟨⟨s, hsub hread⟩, s', n, c, hsub htransact, hc⟩

theorem ApprovedBy.mono (happroved : ApprovedBy h id r) (hsub : h ⊆ h')
    (hkey : r'.toBalanceKey = r.toBalanceKey) (hmanager : r'.managerId = r.managerId) :
    ApprovedBy h' id r' := by
  obtain ⟨caller, hdecides, hm, hcalled⟩ := happroved
  exact ⟨caller, hkey ▸ hdecides, hmanager.trans hm, hcalled.mono hsub⟩

/-- A longer history still shows the decision. -/
theorem DecidedBy.mono (hdecided : DecidedBy h id r) (hsub : h ⊆ h') : DecidedBy h' id r := by
  rw [DecidedBy] at hdecided ⊢
  cases hstatus : r.status with
  | pending => rwa [hstatus] at hdecided
  | approvedPendingHcm =>
    rw [hstatus] at hdecided
    exact ⟨hdecided.1.mono hsub rfl rfl, hdecided.2⟩
  | failed =>
    rw [hstatus] at hdecided
    exact ⟨hdecided.1.mono hsub rfl rfl, hdecided.2⟩
  | approved =>
    rw [hstatus] at hdecided
    exact ⟨hdecided.1.mono hsub rfl rfl, hdecided.2⟩
  | rejected =>
    rw [hstatus] at hdecided
    obtain ⟨caller, reason, hcaller, hm, hr, htrimmed, hcalled⟩ := hdecided
    exact ⟨caller, reason, hcaller, hm, hr, htrimmed, hcalled.mono hsub⟩
  | cancelled =>
    rw [hstatus] at hdecided
    obtain ⟨happroved, hreason, caller, hcaller, hcalled⟩ := hdecided
    exact ⟨happroved.imp_right fun ha => ha.mono hsub rfl rfl, hreason, caller, hcaller,
      hcalled.mono hsub⟩

/-- A longer history still shows the submission, if the request keeps what was
    submitted. -/
theorem SubmittedBy.mono (hsubmitted : SubmittedBy cfg h id r) (hsub : h ⊆ h')
    (hkey : r'.toBalanceKey = r.toBalanceKey) (hstart : r'.startDate = r.startDate)
    (hend : r'.endDate = r.endDate) (hdays : r'.daysRequested = r.daysRequested) :
    SubmittedBy cfg h' id r' := by
  obtain ⟨s, dto, caller, hmem, hid, hrole, hown, hk, hs, he, hd, hpast, horder⟩ := hsubmitted
  refine ⟨s, dto, caller, hsub hmem, hid, hrole, ?_, hk.trans hkey.symm, hs.trans hstart.symm,
    he.trans hend.symm, ?_, hstart ▸ hpast, hstart ▸ hend ▸ horder⟩
  · rw [hkey]
    exact hown
  · rw [hdays, hd, hstart, hend]

/-- What a call that commits has left in the row tells of it. -/
theorem decidedBy_move (hdecided : DecidedBy h id r) (hsub : h ⊆ h')
    (hcan : canTransition r.status c.kind.target)
    (hpermits : c.kind.Permits c.caller r.toBalanceKey) (hcalled : Called h' c.kind id c.caller) :
    DecidedBy h' id (r.move c.kind.target c.extraFields) := by
  rw [DecidedBy] at hdecided
  rw [Call.extraFields]
  cases hkind : c.kind with
  | approve =>
    rw [hkind] at hcan hpermits hcalled
    have hpending : r.status = .pending := by
      cases hs : r.status <;> rw [hs] at hcan <;> first | rfl | cases hcan
    rw [hpending] at hdecided
    obtain ⟨_, hreason, hhcm⟩ := hdecided
    exact ⟨⟨c.caller, hpermits, rfl, hcalled⟩, hreason, hhcm⟩
  | reject reason =>
    rw [hkind] at hcan hpermits hcalled
    exact ⟨c.caller, reason, hpermits.1, rfl, rfl, hpermits.2, hcalled⟩
  | cancel =>
    rw [hkind] at hcan hpermits hcalled
    -- It has been pending, or approved and not deducted yet.
    cases hs : r.status <;> rw [hs] at hcan hdecided <;> try cases hcan
    · exact ⟨.inl hdecided.1, hdecided.2.1, c.caller, hpermits, hcalled⟩
    · exact ⟨.inr (hdecided.1.mono hsub rfl rfl), hdecided.2.1, c.caller, hpermits, hcalled⟩

/-! ## Runs -/

/-- The calls in flight have been made and permitted, and the rows tell the
    truth. -/
structure Trailed (cfg : Config) (h : List (State × Action)) (s : State) : Prop where
  calls : ∀ n c, s.calls.get n = some c → (∃ s₁, (s₁, .preRead c.kind c.id c.caller) ∈ h) ∧
    c.kind.Permits c.caller c.request.toBalanceKey
  rows : ∀ id r, s.db.requests.get id = some r → SubmittedBy cfg h id r ∧ DecidedBy h id r

/-- Only a pre-read adds a call. -/
theorem calls_stepped (hstep : Stepped cfg s a s') (hc : s'.calls.get n = some c)
    (hpreRead : ∀ kind id caller, a ≠ .preRead kind id caller) : s.calls.get n = some c := by
  have herase : ∀ m, (s.calls.erase m).get n = some c → s.calls.get n = some c := by
    intro m hm
    rw [Table.get_erase] at hm
    split at hm
    · cases hm
    · exact hm
  cases hstep with
  | preRead _ _ _ _ => exact absurd rfl (hpreRead _ _ _)
  | refuseCall _ _ => exact herase _ hc
  | approve _ _ _ _ _ _ => exact herase _ hc
  | reject _ _ _ _ _ _ => exact herase _ hc
  | cancel _ _ _ _ _ => exact herase _ hc
  | crash => cases hc
  | _ => exact hc

/-- A call in flight has just passed its pre-read, or has been there. -/
theorem calls_of_step (hnext : step cfg s a = some s') (hc : s'.calls.get n = some c) :
    s.calls.get n = some c ∨ ∃ kind id caller t, a = .preRead kind id caller ∧
      (preRead kind id caller).run (.start s.db) = .ok c t := by
  cases a with
  | preRead kind id caller =>
    rw [step] at hnext
    split at hnext <;> obtain rfl := Option.some.inj hnext
    · next c₀ t hrun =>
      rcases Table.get_insert_eq_some.1 hc with ⟨_, rfl⟩ | hc
      · exact .inr ⟨kind, id, caller, t, rfl, hrun⟩
      · exact .inl hc
    · exact .inl hc
  | _ => exact .inl (calls_stepped (step_stepped hnext) hc (by simp))

/-- Every step leaves its trail: the history shows the pre-reads of the calls, the
    submission of each request, and the call that has decided it. -/
theorem Trailed.step (htrailed : Trailed cfg h s) (hcalls : CallsOk s)
    (hnext : step cfg s a = some s') : Trailed cfg (h ++ [(s, a)]) s' := by
  have hsub : h ⊆ h ++ [(s, a)] := List.subset_append_left _ _
  have hlast : (s, a) ∈ h ++ [(s, a)] := List.mem_append_right _ (List.mem_singleton_self _)
  refine ⟨fun n c hc => ?_, fun id r' hr' => ?_⟩
  · rcases calls_of_step hnext hc with hc | ⟨kind, id, caller, t, rfl, hrun⟩
    · obtain ⟨⟨s₁, hread⟩, hpermits⟩ := htrailed.calls n c hc
      exact ⟨⟨s₁, hsub hread⟩, hpermits⟩
    · obtain ⟨rfl, rfl, _, _⟩ := preRead_ok hrun
      obtain ⟨rfl, hpermits⟩ := preRead_permits hrun
      exact ⟨⟨s, hlast⟩, hpermits⟩
  · -- Only a submission and the transaction of a call add to what the history has to show;
    -- the callbacks move a request that has been decided already.
    cases edited_of_step hnext hr' with
    | kept hr =>
      obtain ⟨hsubmitted, hdecided⟩ := htrailed.rows id r' hr
      exact ⟨hsubmitted.mono hsub rfl rfl rfl rfl, hdecided.mono hsub⟩
    | @stamped r hcmRequestId hr hcancelled hr' =>
      obtain ⟨hsubmitted, hdecided⟩ := htrailed.rows id r hr
      rw [hr']
      refine ⟨hsubmitted.mono hsub rfl rfl rfl rfl, ?_⟩
      have hdecided' := hdecided.mono hsub
      rw [DecidedBy, hcancelled] at hdecided'
      rw [DecidedBy, show (r.stamp hcmRequestId).status = .cancelled from hcancelled]
      exact hdecided'
    | @submitted dto caller q t ha hid hrun hr' =>
      obtain ⟨hrole, hown, hpast, horder, _, _⟩ := submitRequest_checked hrun
      rw [hr']
      refine ⟨⟨s, dto, caller, ha ▸ hlast, hid, hrole, hown, rfl, rfl, rfl, rfl, hpast, horder⟩, ?_⟩
      exact ⟨rfl, rfl, rfl⟩
    | @called n c r ha hc hcommits hid hr hcan hr' =>
      obtain ⟨hsubmitted, hdecided⟩ := htrailed.rows id r hr
      obtain ⟨⟨s₁, hread⟩, hpermits⟩ := htrailed.calls n c hc
      -- The key that the caller was checked for at the pre-read is that of the row now.
      have hbefore := (hcalls n c hc).before (hid ▸ hr)
      rw [← hbefore.key] at hpermits
      rw [hr']
      refine ⟨hsubmitted.mono hsub rfl rfl rfl rfl, ?_⟩
      exact decidedBy_move hdecided hsub hcan hpermits
        ⟨⟨s₁, hid ▸ hsub hread⟩, s, n, c, ha ▸ hlast, hc, rfl, hid, rfl, hcommits⟩
    | @completed r hcmRequestId hr hcan hr' =>
      obtain ⟨hsubmitted, hdecided⟩ := htrailed.rows id r hr
      rw [hr']
      refine ⟨hsubmitted.mono hsub rfl rfl rfl rfl, ?_⟩
      rw [DecidedBy] at hdecided
      cases hs : r.status <;> rw [hs] at hcan hdecided <;> try cases hcan
      · exact ⟨hdecided.1.mono hsub rfl rfl, hdecided.2.1, rfl⟩
      · exact ⟨hdecided.1.mono hsub rfl rfl, hdecided.2.1, rfl⟩
    | @failed r hr hawaiting hr' =>
      obtain ⟨hsubmitted, hdecided⟩ := htrailed.rows id r hr
      rw [DecidedBy, hawaiting] at hdecided
      rw [hr']
      exact ⟨hsubmitted.mono hsub rfl rfl rfl rfl, hdecided.1.mono hsub rfl rfl, hdecided.2⟩

end TimeOff
