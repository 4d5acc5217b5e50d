import TimeOff.Request.Service

/-!
# What the operations on requests do

For every transaction of `RequestService`, what it has found and written when
it succeeds. A transaction that throws is rolled back, so this is all that it
can do to the database.
-/

namespace TimeOff

open Transaction

variable {s s' : Session} {id v : ℕ} {r : TimeOffRequest} {c : Call} {now : Instant} {u : Unit}

/-- A request that is found. -/
theorem findOrFail_ok (h : (findOrFail id).run s = .ok r s') :
    s.db.requests.get id = some r ∧ s' = s := by
  rw [findOrFail, run_get_bind] at h
  split at h
  · next hget =>
    obtain ⟨rfl, rfl⟩ := pure_eq_ok.1 h
    exact ⟨hget, rfl⟩
  · exact absurd h throw_ne_ok

/-- An employee that is found. -/
theorem findEmployeeOrFail_ok {e : Employee} (h : (findEmployeeOrFail id).run s = .ok e s') :
    s.db.employees.get id = some e ∧ s' = s := by
  rw [findEmployeeOrFail, run_get_bind] at h
  split at h
  · next hget =>
    obtain ⟨rfl, rfl⟩ := pure_eq_ok.1 h
    exact ⟨hget, rfl⟩
  · exact absurd h throw_ne_ok

/-- A transition that is given no id of a deduction keeps that of the row. -/
theorem hcmRequestId_move {target : RequestStatus} {x : ExtraFields} (hx : x.hcmRequestId = none) :
    (r.move target x).hcmRequestId = r.hcmRequestId := by
  rw [TimeOffRequest.move, ExtraFields.set, hx]
  rfl

/-- A transition that succeeds is an allowed one of the row as it is, and the
    row has the version that the caller has read. -/
theorem transitionRequest_ok {target : RequestStatus} {x : ExtraFields}
    (h : (transitionRequest id target v x).run s = .ok r s') :
    ∃ r₀, s.db.requests.get id = some r₀ ∧ canTransition r₀.status target ∧ r₀.version = v ∧
      r = r₀.move target x ∧ s'.db = s.db.updateRequest id (·.move target x) ∧
      s'.clamped = s.clamped := by
  rw [transitionRequest, bind_eq_ok] at h
  obtain ⟨current, s₁, hfind, h⟩ := h
  obtain ⟨hget, rfl⟩ := findOrFail_ok hfind
  rw [bind_eq_ok] at h
  obtain ⟨_, s₂, hassert, h⟩ := h
  obtain ⟨hcan, rfl⟩ := assertTransition_ok hassert
  rw [run_get_bind] at h
  split at h
  · next requests hu =>
    obtain ⟨r₀, hr₀, hv, rfl⟩ := Table.updateIf_eq_some.1 hu
    rw [bind_eq_ok] at h
    obtain ⟨_, s₃, hexec, h⟩ := h
    obtain ⟨hdb, hcl⟩ := execute_ok hexec
    obtain ⟨hr, rfl⟩ := findOrFail_ok h
    obtain rfl := Option.some.inj (hget.symm.trans hr₀)
    refine ⟨current, hget, hcan, of_decide_eq_true hv, ?_, hdb, hcl⟩
    rw [hdb] at hr
    exact Option.some.inj (hr.symm.trans (Table.get_update_self hget))
  · exact absurd h throw_ne_ok

theorem assertManagerOrAdmin_ok {caller : RequestUser} {message : String}
    (h : (assertManagerOrAdmin caller message).run s = .ok u s') : s' = s :=
  (check_eq_ok.1 h).2

/-- An employee is in scope only if there is such an employee. -/
theorem ensureEmployeeScope_ok {caller : RequestUser} (hrole : caller.role = .employee)
    (h : (ensureEmployeeScope id caller).run s = .ok u s') :
    (∃ e, s.db.employees.get id = some e) ∧ s' = s := by
  rw [ensureEmployeeScope, hrole] at h
  simp only [bind_eq_ok] at h
  obtain ⟨e, s₁, hfind, h⟩ := h
  obtain ⟨he, rfl⟩ := findEmployeeOrFail_ok hfind
  exact ⟨⟨e, he⟩, (check_eq_ok.1 h).2⟩

/-- A submission that commits has reserved its days, of those that were available,
    and inserted its request. -/
theorem submitTransaction_ok {dto : SubmitRequestDto} {days : ℤ} {caller : RequestUser}
    (hrole : caller.role = .employee)
    (h : (submitTransaction dto days caller).run s = .ok r s') :
    ∃ i b, s.db.balances.get i = some b ∧ b.toBalanceKey = dto.toBalanceKey ∧
      days ≤ b.totalDays - b.usedDays - b.reservedDays ∧
      s'.db = (s.db.reserve dto.toBalanceKey days).insertRequest (dto.request days) ∧
      s'.clamped = s.clamped := by
  -- The three parts in turn: the scope, the reservation, the insert.
  rw [submitTransaction, bind_eq_ok] at h
  obtain ⟨_, s₁, hscope, h⟩ := h
  obtain ⟨_, rfl⟩ := ensureEmployeeScope_ok hrole hscope
  rw [bind_eq_ok] at h
  obtain ⟨_, s₂, hres, h⟩ := h
  obtain ⟨i, b, hb, hk, hd, hdb, hcl⟩ := reserveBalanceWithRetry_ok hres
  rw [bind_eq_ok] at h
  obtain ⟨_, s₃, hexec, h⟩ := h
  obtain ⟨hdb', hcl'⟩ := execute_ok hexec
  obtain ⟨_, rfl⟩ := pure_eq_ok.1 h
  exact ⟨i, b, hb, hk, hd, by rw [hdb', hdb], by rw [hcl', hcl]⟩

/-- What a submission that succeeds has checked before its transaction. -/
theorem submitRequest_checked {today : Instant} {dto : SubmitRequestDto} {caller : RequestUser}
    (h : (submitRequest today dto caller).run s = .ok r s') :
    caller.role = .employee ∧ caller.employeeId = dto.employeeId ∧
      today ≤ dto.startDate.getTime ∧ dto.startDate.getTime ≤ dto.endDate.getTime ∧
      0 < calculateDaysRequested dto.startDate dto.endDate ∧
      (submitTransaction dto (calculateDaysRequested dto.startDate dto.endDate) caller).run s =
        .ok r s' := by
  rw [submitRequest] at h
  split at h
  · exact absurd h throw_ne_ok
  next hcaller =>
  split at h
  · exact absurd h throw_ne_ok
  next hpast =>
  split at h
  · exact absurd h throw_ne_ok
  next horder =>
  split at h
  · exact absurd h throw_ne_ok
  next hdays =>
  obtain ⟨hrole, hown⟩ := not_or.1 hcaller
  exact ⟨not_not.1 hrole, not_not.1 hown, not_lt.1 hpast, not_lt.1 horder, not_le.1 hdays, h⟩

/-- A submission that succeeds has reserved a positive number of days that
    were available, and has written a pending request for them. -/
theorem submitRequest_ok {today : Instant} {dto : SubmitRequestDto} {caller : RequestUser}
    (h : (submitRequest today dto caller).run s = .ok r s') :
    ∃ (days : ℤ) (i : ℕ) (b : LeaveBalance), 0 < days ∧ s.db.balances.get i = some b ∧
      b.toBalanceKey = dto.toBalanceKey ∧ days ≤ b.totalDays - b.usedDays - b.reservedDays ∧
      s'.db = (s.db.reserve dto.toBalanceKey days).insertRequest (dto.request days) ∧
      s'.clamped = s.clamped := by
  obtain ⟨hrole, _, _, _, hdays, h⟩ := submitRequest_checked h
  obtain ⟨i, b, hb, hk, hd, hdb, hcl⟩ := submitTransaction_ok hrole h
  exact ⟨_, i, b, hdays, hb, hk, hd, hdb, hcl⟩

/-- What goes on with a request in the scope of the caller has found its row. -/
theorem readInScope_ok {α : Type} {a : α} {caller : RequestUser} {f : TimeOffRequest → Tx α}
    (h : (do let request ← findOrFail id
             ensureRequestScope request caller
             f request : Tx α).run s = .ok a s') :
    ∃ r t, s.db.requests.get id = some r ∧ (f r).run t = .ok a s' := by
  rw [bind_eq_ok] at h
  obtain ⟨r, s₁, hfind, h⟩ := h
  obtain ⟨hr, rfl⟩ := findOrFail_ok hfind
  rw [bind_eq_ok] at h
  obtain ⟨_, t, _, h⟩ := h
  exact ⟨r, t, hr, h⟩

/-- A call that passes its pre-read holds the row as it is; a cancellation,
    only one that can be cancelled. -/
theorem preRead_ok {kind : CallKind} {caller : RequestUser}
    (h : (preRead kind id caller).run s = .ok c s') :
    c.kind = kind ∧ c.id = id ∧ s.db.requests.get id = some c.request ∧
      (kind = .cancel → c.request.status = .pending ∨ c.request.status = .approvedPendingHcm) := by
  -- A reason that is missing, or a request that cannot be cancelled, is refused before the
  -- transaction.
  cases kind with
  | approve =>
    rw [preRead, bind_eq_ok] at h
    obtain ⟨_, s₁, hassert, h⟩ := h
    obtain rfl := assertManagerOrAdmin_ok hassert
    obtain ⟨r, t, hr, h⟩ := readInScope_ok h
    obtain ⟨rfl, _⟩ := pure_eq_ok.1 h
    exact ⟨rfl, rfl, hr, nofun⟩
  | reject reason =>
    rw [preRead] at h
    split at h
    · rw [bind_eq_ok] at h
      obtain ⟨_, _, hthrow, _⟩ := h
      exact absurd hthrow throw_ne_ok
    · rw [bind_eq_ok] at h
      obtain ⟨_, s₁, hassert, h⟩ := h
      obtain rfl := assertManagerOrAdmin_ok hassert
      obtain ⟨r, t, hr, h⟩ := readInScope_ok h
      obtain ⟨rfl, _⟩ := pure_eq_ok.1 h
      exact ⟨rfl, rfl, hr, nofun⟩
  | cancel =>
    rw [preRead] at h
    obtain ⟨r, t, hr, h⟩ := readInScope_ok h
    split at h
    · rw [bind_eq_ok] at h
      obtain ⟨_, _, hthrow, _⟩ := h
      exact absurd hthrow throw_ne_ok
    · next hstatus =>
      obtain ⟨rfl, _⟩ := pure_eq_ok.1 h
      refine ⟨rfl, rfl, hr, fun _ => ?_⟩
      simp only [not_or] at hstatus
      cases hs : r.status <;> simp_all

/-- An approval that commits has moved a pending request of that version, and
    inserted its event. -/
theorem approveTransaction_ok (h : (approveTransaction now c).run s = .ok u s') :
    ∃ r x, s.db.requests.get c.id = some r ∧ r.status = .pending ∧
      r.version = c.request.version ∧ x.hcmRequestId = none ∧
      s'.db = (s.db.updateRequest c.id (·.move .approvedPendingHcm x)).insertEvent
        (deductEvent now c.id r) ∧
      s'.clamped = s.clamped := by
  rw [approveTransaction, bind_eq_ok] at h
  obtain ⟨moved, s₁, hmove, h⟩ := h
  obtain ⟨r, hr, hcan, hv, rfl, hdb, hcl⟩ := transitionRequest_ok hmove
  obtain ⟨hdb', hcl'⟩ := execute_ok h
  refine ⟨r, _, hr, ?_, hv, rfl, by rw [hdb', hdb]; rfl, by rw [hcl', hcl]⟩
  cases hs : r.status <;> rw [hs] at hcan <;> first | rfl | cases hcan

/-- A rejection that commits has moved a pending request of that version, and
    released its days. -/
theorem rejectTransaction_ok {reason : String}
    (h : (rejectTransaction reason c).run s = .ok u s') :
    ∃ r x, s.db.requests.get c.id = some r ∧ r.status = .pending ∧
      r.version = c.request.version ∧ x.hcmRequestId = none ∧
      s'.db = (s.db.updateRequest c.id (·.move .rejected x)).release c.request.toBalanceKey
        c.request.daysRequested ∧
      s'.clamped = (s.clamped || clamps s.db c.request.toBalanceKey c.request.daysRequested) := by
  rw [rejectTransaction, bind_eq_ok] at h
  obtain ⟨moved, s₁, hmove, h⟩ := h
  obtain ⟨r, hr, hcan, hv, rfl, hdb, hcl⟩ := transitionRequest_ok hmove
  obtain ⟨hdb', hcl'⟩ := releaseReserved_ok h
  refine ⟨r, _, hr, ?_, hv, rfl, by rw [hdb', hdb], by rw [hcl', hcl, hdb]; rfl⟩
  cases hs : r.status <;> rw [hs] at hcan <;> first | rfl | cases hcan

/-- The event that a cancellation writes, if the copy it acts on is awaiting
    the HCM. -/
def cancelEvent (now : Instant) (c : Call) (db : Database) : Database :=
  if c.request.status = .approvedPendingHcm then db.insertEvent (reverseEvent now c.id) else db

@[simp] theorem requests_cancelEvent (db : Database) :
    (cancelEvent now c db).requests = db.requests := by
  rw [cancelEvent]
  split <;> rfl

@[simp] theorem balances_cancelEvent (db : Database) :
    (cancelEvent now c db).balances = db.balances := by
  rw [cancelEvent]
  split <;> rfl

/-- A cancellation that commits has released the days of a request of that version
    and moved it; and if it was approved, an event of it is inserted or cancelled.
    -/
theorem cancelTransaction_ok (h : (cancelTransaction now c).run s = .ok u s') :
    ∃ r, s.db.requests.get c.id = some r ∧ canTransition r.status .cancelled ∧
      r.version = c.request.version ∧
      s'.db = ((cancelEvent now c s.db).release c.request.toBalanceKey
        c.request.daysRequested).updateRequest c.id (·.move .cancelled {}) ∧
      s'.clamped = (s.clamped || clamps s.db c.request.toBalanceKey c.request.daysRequested) := by
  -- The outbox is written first, and only if the request was approved; the rest is the same
  -- in both cases.
  have hevent : ∃ s₁ : Session, s₁.db = cancelEvent now c s.db ∧ s₁.clamped = s.clamped ∧
      (do releaseReserved c.request.toBalanceKey c.request.daysRequested
          let _ ← transitionRequest c.id .cancelled c.request.version {} : Tx Unit).run s₁ =
        .ok u s' := by
    rw [cancelTransaction] at h
    by_cases hstatus : c.request.status = .approvedPendingHcm
    · rw [if_pos hstatus, bind_eq_ok] at h
      obtain ⟨_, s₁, hexec, h⟩ := h
      obtain ⟨hdb, hcl⟩ := execute_ok hexec
      exact ⟨s₁, by rw [hdb, cancelEvent, if_pos hstatus], hcl, h⟩
    · rw [if_neg hstatus] at h
      exact ⟨s, by rw [cancelEvent, if_neg hstatus], rfl, h⟩
  obtain ⟨s₁, hdb₁, hcl₁, h⟩ := hevent
  rw [bind_eq_ok] at h
  obtain ⟨_, s₂, hrel, h⟩ := h
  obtain ⟨hdb₂, hcl₂⟩ := releaseReserved_ok hrel
  rw [bind_eq_ok] at h
  obtain ⟨moved, s₃, hmove, h⟩ := h
  obtain ⟨r, hr, hcan, hv, -, hdb₃, hcl₃⟩ := transitionRequest_ok hmove
  obtain ⟨_, rfl⟩ := pure_eq_ok.1 h
  refine ⟨r, ?_, hcan, hv, by rw [hdb₃, hdb₂, hdb₁], ?_⟩
  · rw [hdb₂, hdb₁, Database.requests_release, requests_cancelEvent] at hr
    exact hr
  · rw [hcl₃, hcl₂, hcl₁, hdb₁, clamps, clamps, balances_cancelEvent]

/-- A call that commits takes its request, unchanged since it was read, along
    an allowed transition. -/
theorem Call.transaction_ok (h : (c.transaction now).run s = .ok u s') :
    ∃ r target x, s.db.requests.get c.id = some r ∧ canTransition r.status target ∧
      r.version = c.request.version ∧
      s'.db.requests = s.db.requests.update c.id (·.move target x) := by
  rw [transaction] at h
  split at h
  · obtain ⟨r, x, hr, hstatus, hv, _, hdb, _⟩ := approveTransaction_ok h
    exact ⟨r, .approvedPendingHcm, x, hr, by rw [hstatus]; rfl, hv, by rw [hdb]; rfl⟩
  · obtain ⟨r, x, hr, hstatus, hv, _, hdb, _⟩ := rejectTransaction_ok h
    exact ⟨r, .rejected, x, hr, by rw [hstatus]; rfl, hv, by rw [hdb]; rfl⟩
  · obtain ⟨r, hr, hcan, hv, hdb, _⟩ := cancelTransaction_ok h
    exact ⟨r, .cancelled, {}, hr, hcan, hv, by rw [hdb]; simp⟩

/-- A completed deduction finds its request approved already, or cancelled, in
    which case the id is recorded for the reversal, or approves it. -/
theorem completeDeductionFromOutbox_ok {hcmRequestId : String}
    (h : (completeDeductionFromOutbox id hcmRequestId).run s = .ok r s') :
    ∃ r₀, s.db.requests.get id = some r₀ ∧
      ((r₀.status = .approved ∧ s' = s) ∨
      (r₀.status = .cancelled ∧ s'.db = s.db.updateRequest id (·.stamp hcmRequestId) ∧
        s'.clamped = s.clamped) ∨
      (canTransition r₀.status .approved ∧
        s'.db = (s.db.updateRequest id (·.move .approved
          { hcmRequestId := some hcmRequestId })).confirm r₀.toBalanceKey r₀.daysRequested ∧
        s'.clamped = (s.clamped || clamps s.db r₀.toBalanceKey r₀.daysRequested))) := by
  -- The three branches of the source: nothing is left to do, only the id is stamped, or the
  -- request is completed.
  rw [completeDeductionFromOutbox, bind_eq_ok] at h
  obtain ⟨r₀, s₁, hfind, h⟩ := h
  obtain ⟨hr₀, rfl⟩ := findOrFail_ok hfind
  refine ⟨r₀, hr₀, ?_⟩
  split at h
  · next happroved => exact .inl ⟨happroved, (pure_eq_ok.1 h).2.symm⟩
  split at h
  · next hcancelled =>
    rw [bind_eq_ok] at h
    obtain ⟨_, s₂, hexec, h⟩ := h
    obtain ⟨hdb, hcl⟩ := execute_ok hexec
    obtain ⟨_, rfl⟩ := findOrFail_ok h
    exact .inr (.inl ⟨hcancelled, hdb, hcl⟩)
  · rw [bind_eq_ok] at h
    obtain ⟨moved, s₂, hmove, h⟩ := h
    obtain ⟨r₁, hr₁, hcan, _, rfl, hdb, hcl⟩ := transitionRequest_ok hmove
    obtain rfl := Option.some.inj (hr₀.symm.trans hr₁)
    rw [bind_eq_ok] at h
    obtain ⟨_, s₃, hconf, h⟩ := h
    obtain ⟨hdb', hcl'⟩ := confirmDeduction_ok hconf
    obtain ⟨_, rfl⟩ := pure_eq_ok.1 h
    exact .inr (.inr ⟨hcan, by rw [hdb', hdb]; rfl, by rw [hcl', hcl, hdb]; rfl⟩)

/-- A failed deduction finds its request settled already, or fails it. -/
theorem failRequestFromOutbox_ok (h : (failRequestFromOutbox id).run s = .ok r s') :
    ∃ r₀, s.db.requests.get id = some r₀ ∧
      (((r₀.status = .failed ∨ r₀.status = .cancelled ∨ r₀.status = .approved) ∧ s' = s) ∨
      (r₀.status = .approvedPendingHcm ∧ s'.db = s.db.updateRequest id (·.move .failed {}) ∧
        s'.clamped = s.clamped)) := by
  rw [failRequestFromOutbox, bind_eq_ok] at h
  obtain ⟨r₀, s₁, hfind, h⟩ := h
  obtain ⟨hr₀, rfl⟩ := findOrFail_ok hfind
  refine ⟨r₀, hr₀, ?_⟩
  split at h
  · next hsettled => exact .inl ⟨hsettled, (pure_eq_ok.1 h).2.symm⟩
  · obtain ⟨r₁, hr₁, hcan, _, _, hdb, hcl⟩ := transitionRequest_ok h
    obtain rfl := Option.some.inj (hr₀.symm.trans hr₁)
    refine .inr ⟨?_, hdb, hcl⟩
    cases hs : r₀.status <;> rw [hs] at hcan <;> first | rfl | cases hcan

/-! ## When they succeed -/

theorem findOrFail_run (hr : s.db.requests.get id = some r) :
    (findOrFail id).run s = .ok r s := by
  rw [findOrFail, run_get_bind, hr]
  rfl

/-- A transition that is allowed succeeds at the version of the row. -/
theorem transitionRequest_run {target : RequestStatus} {x : ExtraFields}
    (hr : s.db.requests.get id = some r) (hcan : canTransition r.status target) :
    ∃ r' s', (transitionRequest id target r.version x).run s = .ok r' s' := by
  have hupdate : s.db.requests.updateIf id (·.version = r.version) (·.move target x) =
      some (s.db.requests.update id (·.move target x)) :=
    Table.updateIf_eq_some.2 ⟨r, hr, by simp, rfl⟩
  have hmoved : (s.db.updateRequest id (·.move target x)).requests.get id =
      some (r.move target x) := Table.get_update_self hr
  have hassert : (assertTransition r.status target).run s = .ok () s := by
    rw [assertTransition, if_pos hcan]
    rfl
  refine ⟨r.move target x, ⟨s.db.updateRequest id (·.move target x), s.clamped⟩,
    bind_eq_ok.2 ⟨r, s, findOrFail_run hr, bind_eq_ok.2 ⟨(), s, hassert, ?_⟩⟩⟩
  rw [run_get_bind, hupdate]
  exact bind_eq_ok.2 ⟨(), _, rfl, findOrFail_run hmoved⟩

/-- The request of an approved deduction can be failed, or is settled. -/
theorem failRequestFromOutbox_run (hr : s.db.requests.get id = some r)
    (hpending : r.status ≠ .pending) (hrejected : r.status ≠ .rejected) :
    ∃ r' s', (failRequestFromOutbox id).run s = .ok r' s' := by
  by_cases hsettled : r.status = .failed ∨ r.status = .cancelled ∨ r.status = .approved
  · refine ⟨r, s, bind_eq_ok.2 ⟨r, s, findOrFail_run hr, ?_⟩⟩
    rw [if_pos hsettled]
    rfl
  · have hcan : canTransition r.status .failed := by
      cases hs : r.status <;> simp_all [canTransition, allowedTransitions]
    obtain ⟨r', s', hrun⟩ := transitionRequest_run (x := {}) hr hcan
    refine ⟨r', s', bind_eq_ok.2 ⟨r, s, findOrFail_run hr, ?_⟩⟩
    rw [if_neg hsettled]
    exact hrun

end TimeOff
