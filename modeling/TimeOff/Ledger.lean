import TimeOff.Covered

/-!
# The reservation ledger

`reserved_days` of a balance is the sum of the days of its open requests, and
`used_days` that of its approved ones, above what had been used at the start
(`Ledger`). Hence a release or a confirmation finds its days in
`reserved_days`, and `MAX(0, reserved_days - days)` never cuts anything off in
a transaction that commits.

A transaction that is rolled back may be cut off: a cancellation releases the
days before it checks that its copy of the request is up to date.

* `Ledger.move`, `Ledger.of_run`: every move of the books keeps the ledger, so
  that it holds after every run;
* `reservation_ledger`: the sums, spelled out for each balance, and what follows
  from them for the clamp;
* `cancel_clamps_in_vain`: the cut-off of a transaction that does not commit.
-/

namespace TimeOff

open Transaction Transition

/-- The balances agree with the requests, where `u₀` days had been used at the
    start. -/
structure Ledger (u₀ : BalanceKey → ℚ) (B : Books) : Prop where
  reserved : ∀ i b, B.balances.get i = some b →
    b.reservedDays = daysIn B.requests RequestStatus.isOpen b.toBalanceKey
  used : ∀ i b, B.balances.get i = some b →
    b.usedDays = u₀ b.toBalanceKey + daysIn B.requests (· = .approved) b.toBalanceKey
  positive : ∀ id r, B.requests.get id = some r → 0 < r.daysRequested
  covered : ∀ id r, B.requests.get id = some r → B.balances.Has r.toBalanceKey
  fresh : ∀ key, ¬B.balances.Has key → u₀ key = 0

variable {u₀ : BalanceKey → ℚ} {B B' : Books} {id i : ℕ} {r : TimeOffRequest} {b b' : LeaveBalance}
  {key : BalanceKey} {target : RequestStatus} {synced : Prop}

/-! ## The invariant -/

namespace Ledger

/-- No days are held: what is reserved is for requests. -/
theorem daysCovered (h : Ledger u₀ B) : Covered (fun _ => 0) B where
  reserved i b hb := (h.reserved i b hb).trans (add_zero _).symm
  free key hkey := by
    rw [add_zero, daysIn_eq_zero]
    intro id r hr hk
    exact hkey (hk ▸ h.covered id r hr)
  days id r hr _ := (h.positive id r hr).le
  held_nonneg _ := le_rfl

/-- The days of an open request are in `reserved_days`. -/
theorem le_reservedDays (h : Ledger u₀ B) (hr : B.requests.get id = some r)
    (hopen : r.status.isOpen) (hb : B.balances.get i = some b)
    (hk : b.toBalanceKey = r.toBalanceKey) : r.daysRequested ≤ b.reservedDays :=
  h.daysCovered.le_reservedDays hr hopen hb hk

/-- What is reserved after a move. -/
theorem reserved_move (h : Ledger u₀ B) (hmove : Move synced B B')
    (hb : B'.balances.get i = some b) :
    b.reservedDays = daysIn B'.requests RequestStatus.isOpen b.toBalanceKey :=
  ((h.daysCovered.move hmove).1.reserved i b hb).trans (add_zero _)

/-- A submission puts the days of its request on both sides. -/
theorem submit (h : Ledger u₀ B) {dto : SubmitRequestDto} {days : ℤ} (hdays : 0 < days)
    (hb : B.balances.get i = some b) (hk : b.toBalanceKey = dto.toBalanceKey)
    (hmove : Move False B (B.submit dto days)) : Ledger u₀ (B.submit dto days) where
  reserved j c hc := h.reserved_move hmove hc
  used j c hc := by
    rw [Books.submit, KeyedTable.get_updateKey, Option.map_eq_some_iff] at hc
    obtain ⟨c, hc, rfl⟩ := hc
    have hused := h.used j c hc
    -- The new request is not approved.
    have hsum : daysIn (B.requests.insert (dto.request days)) (· = .approved) c.toBalanceKey =
        daysIn B.requests (· = .approved) c.toBalanceKey := by
      rw [daysIn_insert, if_neg (by simp), add_zero]
    split <;> exact hused.trans (congrArg _ hsum.symm)
  positive := Table.forall_insert (Int.cast_pos.2 hdays) h.positive
  covered := Table.forall_insert (hmove.has ⟨i, b, hb, hk⟩) fun j r hr =>
    hmove.has (h.covered j r hr)
  fresh key hkey := h.fresh key fun hhas => hkey (hmove.has hhas)

/-- A transition takes the days of an open request from `reserved_days`, and puts
    them to `used_days` if it is approved. -/
theorem transition (h : Ledger u₀ B) (hr : B.requests.get id = some r)
    (hcan : canTransition r.status target) {x : ExtraFields}
    (hmove : Move False B (B.transition id r target x)) :
    Ledger u₀ (B.transition id r target x) where
  reserved j c hc := h.reserved_move hmove hc
  used j c hc := by
    rw [Books.transition, get_settle, Option.map_eq_some_iff] at hc
    obtain ⟨c, hc, rfl⟩ := hc
    have hused := h.used j c hc
    -- No transition leaves `APPROVED`, so that no used days are given back.
    have hne : r.status ≠ .approved := by
      intro happroved
      rw [happroved] at hcan
      cases target <;> cases hcan
    rw [Books.transition, daysIn_move hr]
    by_cases hck : c.toBalanceKey = r.toBalanceKey
    · rw [if_pos hck, LeaveBalance.key_settle, LeaveBalance.usedDays_settle, hused]
      simp [hck, hne, add_assoc]
    · rw [if_neg hck, hused]
      simp [Ne.symm hck]
  positive := Table.forall_update (h.positive id) h.positive
  covered := Table.forall_update (fun q hq => hmove.has (h.covered id q hq)) fun j q hq =>
    hmove.has (h.covered j q hq)
  fresh key hkey := h.fresh key fun hhas => hkey (hmove.has hhas)

/-- The id of the HCM is on neither side. -/
theorem stamp (h : Ledger u₀ B) (hr : B.requests.get id = some r) (hcmRequestId : String) :
    Ledger u₀ (B.stamp id hcmRequestId) where
  reserved j c hc := (h.reserved j c hc).trans (daysIn_stamp hr hcmRequestId).symm
  used j c hc := (h.used j c hc).trans (congrArg _ (daysIn_stamp hr hcmRequestId).symm)
  positive := Table.forall_update (h.positive id) h.positive
  covered := Table.forall_update (h.covered id) h.covered
  fresh := h.fresh

/-- A sync keeps the counters, and a balance that it creates has no requests. -/
theorem sync (h : Ledger u₀ B) (hreq : B'.requests = B.requests)
    (hsync : B.balances.Synced B'.balances) : Ledger u₀ B' where
  reserved j c hc := h.reserved_move (.sync trivial hreq hsync) hc
  used j c hc := by
    rw [hreq]
    cases hb : B.balances.get j with
    | some b =>
      obtain ⟨c', hc', hsame⟩ := hsync.kept j b hb
      obtain rfl := Option.some.inj (hc.symm.trans hc')
      rw [hsame.usedDays, hsame.key, h.used j b hb]
    | none =>
      obtain ⟨hused, _, hfree⟩ := hsync.new j c hc hb
      have hnone : ∀ l b, B.balances.get l = some b → b.toBalanceKey ≠ c.toBalanceKey :=
        fun l b hl => KeyedTable.lookup_eq_none.1 hfree l b hl
      rw [hused, h.fresh _ fun ⟨l, b, hl, hbk⟩ => hnone l b hl hbk, daysIn_eq_zero, add_zero]
      intro id r hr hk
      obtain ⟨l, b, hl, hbk⟩ := h.covered id r hr
      exact hnone l b hl (hbk.trans hk)
  positive j q hq := h.positive j q (hreq ▸ hq)
  covered j q hq := (Move.sync trivial hreq hsync).has (h.covered j q (hreq ▸ hq))
  fresh key hkey := h.fresh key fun hhas => hkey ((Move.sync trivial hreq hsync).has hhas)

/-- Every move keeps the ledger. -/
theorem move (h : Ledger u₀ B) (hmove : Move synced B B') : Ledger u₀ B' := by
  cases hmove with
  | stay hB => rwa [hB]
  | submit hdays hb hk havail hB =>
    subst hB
    exact h.submit hdays hb hk (.submit hdays hb hk havail rfl)
  | transition target hr hcan hB =>
    subst hB
    exact h.transition hr hcan (.transition target hr hcan rfl)
  | stamp hr _ hB =>
    subst hB
    exact h.stamp hr _
  | sync _ hreq hsync => exact h.sync hreq hsync

end Ledger

/-! ## Runs -/

variable {cfg : Config} {s s' s₀ : State} {a : Action} {c : Call} {n : ℕ}
  {ok : State → Action → Prop} {h : List (State × Action)} {x x' : Session}

theorem Ledger.of_run (hcalls : s₀.calls = .empty) (hinit : Ledger u₀ s₀.db.books)
    (hrun : Run (step cfg) ok s₀ h s) : Ledger u₀ s.db.books :=
  hrun.history (I := fun _ s => Ledger u₀ s.db.books) hinit
    fun _ _ _ _ hrun hledger _ hnext => hledger.move (move_of_run hcalls hrun hnext)

/-- The days used of a balance, or none if there is no such balance. -/
def usedDaysOf (db : Database) (key : BalanceKey) : ℚ :=
  (db.balances.lookup key).elim 0 fun b => b.2.usedDays

/-- Without requests and reservations the ledger is in balance. -/
theorem Ledger.start {db : Database} (hrequests : ∀ id, db.requests.get id = none)
    (hreserved : ∀ i b, db.balances.get i = some b → b.reservedDays = 0) :
    Ledger (usedDaysOf db) db.books := by
  have hzero : ∀ p key, daysIn db.books.requests p key = 0 :=
    fun p key => daysIn_eq_zero fun id r hr => by
      rw [Database.books, hrequests] at hr
      cases hr
  have hno : ∀ id r, db.requests.get id ≠ some r := fun id r hr => by
    rw [hrequests] at hr
    cases hr
  refine ⟨fun i b hb => ?_, fun i b hb => ?_, fun id r hr => absurd hr (hno id r),
    fun id r hr => absurd hr (hno id r), fun key hkey => ?_⟩
  · rw [hzero, hreserved i b hb]
  · have hlookup : db.balances.lookup b.toBalanceKey = some (i, b) :=
      KeyedTable.lookup_eq_some.2 ⟨hb, rfl⟩
    rw [hzero, usedDaysOf, hlookup, Option.elim_some, add_zero]
  · have hnone : db.balances.lookup key = none :=
      KeyedTable.lookup_eq_none.2 fun i b hb hk => hkey ⟨i, b, hb, hk⟩
    rw [usedDaysOf, hnone, Option.elim_none]

/-! ## Clamps -/

/-- `x` is the session of a transaction that takes days out of `reserved_days`
    and commits at `s`. -/
inductive Committed (s : State) (x : Session) : Prop
  | call {n : ℕ} {c : Call} : s.calls.get n = some c →
      (c.transaction s.now).run (.start s.db) = .ok () x → Committed s x
  | complete {id : ℕ} {hcmRequestId : String} {r : TimeOffRequest} :
      (completeDeductionFromOutbox id hcmRequestId).run (.start s.db) = .ok r x → Committed s x
  | deduct {id : ℕ} {event : OutboxEvent} {hcmRequestId : String} :
      (deductTransaction id event hcmRequestId).run (.start s.db) = .ok () x → Committed s x

/-- The days of an open request can be taken out of its balance. -/
theorem Ledger.not_clamps {db : Database} (hledger : Ledger u₀ db.books)
    (hr : db.requests.get id = some r) (hopen : r.status.isOpen) :
    clamps db r.toBalanceKey r.daysRequested = false := by
  refine eq_false_of_ne_true fun hclamps => ?_
  obtain ⟨i, b, hb, hk, hlt⟩ := clamps_eq_true.1 hclamps
  exact absurd (hledger.le_reservedDays hr hopen hb hk) (not_le.2 hlt)

/-- Where the ledger holds, no release of a completion reaches the clamp in vain.
    -/
theorem Ledger.not_clamped_complete {hcmRequestId : String} (hledger : Ledger u₀ x.db.books)
    (hrun : (completeDeductionFromOutbox id hcmRequestId).run x = .ok r x') :
    x'.clamped = x.clamped := by
  obtain ⟨r₀, hr₀, ⟨-, rfl⟩ | ⟨_, _, hcl⟩ | ⟨hcan, _, hcl⟩⟩ := completeDeductionFromOutbox_ok hrun
  · rfl
  · exact hcl
  · rw [hcl, hledger.not_clamps hr₀ (isOpen_of_canTransition hcan), Bool.or_false]

/-- What commits has not been cut off: its days were there. -/
theorem Ledger.not_clamped (hcalls : CallsOk s) (hledger : Ledger u₀ s.db.books)
    (hx : Committed s x) : x.clamped = false := by
  cases hx with
  | call hc hrun =>
    rw [Call.transaction] at hrun
    split at hrun
    · obtain ⟨_, _, _, _, _, _, _, hcl⟩ := approveTransaction_ok hrun
      exact hcl
    · obtain ⟨r, _, hr, hstatus, _, _, _, hcl⟩ := rejectTransaction_ok hrun
      have hbefore := (hcalls _ _ hc).before hr
      rw [hcl, ← hbefore.key, ← hbefore.days]
      exact hledger.not_clamps hr (by rw [hstatus]; rfl)
    · obtain ⟨r, hr, hcan, _, _, hcl⟩ := cancelTransaction_ok hrun
      have hbefore := (hcalls _ _ hc).before hr
      rw [hcl, ← hbefore.key, ← hbefore.days]
      exact hledger.not_clamps hr (isOpen_of_canTransition hcan)
  | complete hrun => exact not_clamped_complete hledger hrun
  | deduct hrun =>
    obtain ⟨r, t, hcomplete, _, hcl⟩ := deductTransaction_ok hrun
    rw [hcl]
    exact not_clamped_complete hledger hcomplete

/-- **The reservation ledger.** In every run from a database without requests
    and reservations, `reserved_days` is the sum of the days of the open
    requests for the balance, `used_days` that of its approved ones above what
    had been used, and no transaction that commits has clamped. -/
theorem reservation_ledger (hrequests : ∀ id, s₀.db.requests.get id = none)
    (hreserved : ∀ i b, s₀.db.balances.get i = some b → b.reservedDays = 0)
    (hcalls : s₀.calls = .empty) (hrun : Run (step cfg) (fun _ _ => True) s₀ h s) :
    (∀ i b, s.db.balances.get i = some b →
      b.reservedDays = daysIn s.db.requests RequestStatus.isOpen b.toBalanceKey ∧
      b.usedDays = usedDaysOf s₀.db b.toBalanceKey +
        daysIn s.db.requests (· = .approved) b.toBalanceKey) ∧
    ∀ x, Committed s x → x.clamped = false := by
  have hledger := Ledger.of_run hcalls (Ledger.start hrequests hreserved) hrun
  exact ⟨fun i b hb => ⟨hledger.reserved i b hb, hledger.used i b hb⟩,
    fun x hx => hledger.not_clamped (callsOk_of_run hcalls hrun) hx⟩

/-- One of two requests is rejected. -/
theorem reservation_ledger_sample : ∃ h s, Run (step sampleConfig) (fun _ _ => True)
    (sampleStart 10) h s ∧ (s.db.balances.get 0).map (·.reservedDays) = some 3 ∧
    (∀ i b, s.db.balances.get i = some b →
      b.reservedDays = daysIn s.db.requests RequestStatus.isOpen b.toBalanceKey ∧
      b.usedDays = usedDaysOf (sampleStart 10).db b.toBalanceKey +
        daysIn s.db.requests (· = .approved) b.toBalanceKey) ∧
    ∀ x, Committed s x → x.clamped = false := by
  have hexec : ∃ s ∈ exec (step sampleConfig) (sampleStart 10) [sampleSubmit 2, sampleSubmit 3,
      .preRead (.reject "no") 0 sampleManager, .transact 0],
      (s.db.balances.get 0).map (·.reservedDays) = some 3 := by decide +kernel
  obtain ⟨s, hrun, hs⟩ := exists_run_of_exec (p := fun _ => True) (fun _ _ => trivial) hexec
  exact ⟨_, s, hrun, hs, reservation_ledger (fun _ => rfl)
    (fun _ _ hb => by rw [(get_sampleDb hb).2]; rfl) rfl hrun⟩

/-- The transaction of the call throws, and has clamped before. -/
def Call.clampsInVain (s : State) (c : Call) : Bool :=
  match (c.transaction s.now).run (.start s.db) with
  | .ok _ _ => false
  | .error _ x => x.clamped

/-- A cancellation whose request is rejected before its transaction releases
    the days a second time. That is cut off, and rolled back. -/
theorem cancel_clamps_in_vain : ∃ h s n c, Run (step sampleConfig) (fun _ _ => True)
    (sampleStart 10) h s ∧ s.calls.get n = some c ∧ c.kind = .cancel ∧
    ∃ e x, (c.transaction s.now).run (.start s.db) = .error e x ∧ x.clamped = true := by
  have hexec : ∃ s ∈ exec (step sampleConfig) (sampleStart 10) [sampleSubmit 2,
      .preRead .cancel 0 sampleEmployee, .preRead (.reject "no") 0 sampleManager, .transact 1],
      (s.calls.get 0).any fun c => c.clampsInVain s && c.kind matches .cancel := by
    decide +kernel
  obtain ⟨s, hrun, hs⟩ := exists_run_of_exec (p := fun _ => True) (fun _ _ => trivial) hexec
  obtain ⟨c, hc, hvain⟩ := (Option.any_eq_true _ _).1 hs
  obtain ⟨hclamps, hkind⟩ := Bool.and_eq_true_iff.1 hvain
  refine ⟨_, s, 0, c, hrun, hc, ?_, ?_⟩
  · split at hkind
    · assumption
    · cases hkind
  · rw [Call.clampsInVain] at hclamps
    split at hclamps
    · cases hclamps
    · next e x hx => exact ⟨e, x, hx, hclamps⟩

end TimeOff
