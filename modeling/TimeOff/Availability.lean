import TimeOff.Ledger
import TimeOff.Locked

/-!
# The availability that is shown

`BalanceController` shows the balances of an employee with what is available of
them, `effectiveAvailable`. It is what `submitRequest` goes by: at that moment a
request is accepted if and only if its days are available. And it stays a
promise: whatever the service does before the request is made, except to take
over totals of the HCM, the days that are shown are there, less those of the
requests that have been submitted since (`shown_is_kept`).

Who sees the balance of a request is another question. `enforceAccess` goes by
the location of the employee, and `ensureRequestScope` by that of the request,
so that a manager may decide on a request and not see its balance
(`balance_of_request`).
-/

namespace TimeOff

open Transaction Transition

/-! ## `BalanceService` and `BalanceController` -/

/-- `BalanceWithEffective` -/
structure BalanceWithEffective extends LeaveBalance where
  id : ℕ
  effectiveAvailable : ℚ

/-- `withEffective` -/
def withEffective (row : ℕ × LeaveBalance) : BalanceWithEffective :=
  { row.2 with
    id := row.1
    effectiveAvailable :=
      calculateEffectiveAvailable row.2.totalDays row.2.usedDays row.2.reservedDays }

/-- `getByEmployeeAndLocation` -/
def getByEmployeeAndLocation (employeeId : ℕ) (locationId : String) :
    Tx (List BalanceWithEffective) := do
  let balances := (← get).db.balances.rows.filter fun b =>
    b.2.employeeId = employeeId ∧ b.2.locationId = locationId
  if balances.isEmpty then
    throw (.notFound s!"No balance found for employee {employeeId} at location {locationId}")
  else pure (balances.map withEffective)

/-- `enforceAccess`. `EmployeeService.findById` is `findEmployeeOrFail`. -/
def enforceAccess (user : RequestUser) (targetEmployeeId : ℕ) : Tx Unit :=
  match user.role with
  | .admin => pure ()
  | .manager => do
    let employee ← findEmployeeOrFail targetEmployeeId
    if user.hasLocation employee.locationId then pure ()
    else throw (.forbidden "Manager scope does not cover this employee")
  | .employee =>
    if user.employeeId = targetEmployeeId then pure ()
    else throw (.forbidden "Employees can only access their own balance data")

namespace BalanceController

/-- `GET /balances/:employeeId/:locationId` -/
def getByEmployeeAndLocation (employeeId : ℕ) (locationId : String) (user : RequestUser) :
    Tx (List BalanceWithEffective) := do
  enforceAccess user employeeId
  TimeOff.getByEmployeeAndLocation employeeId locationId

end BalanceController

variable {cfg : Config} {s s' s₀ : State} {h h' : List (State × Action)} {t t' : Session}
  {db : Database} {user caller : RequestUser} {employeeId : ℕ} {locationId : String}
  {shown : List BalanceWithEffective} {b : BalanceWithEffective} {key : BalanceKey} {days : ℚ}
  {dto : SubmitRequestDto} {B B' : Books} {u₀ : BalanceKey → ℚ} {n₀ : ℕ}
  {ok : State → Action → Prop}

/-- What an attempt to get in leaves. -/
theorem enforceAccess_ok {u : Unit} (hrun : (enforceAccess user employeeId).run t = .ok u t') :
    t' = t := by
  rw [enforceAccess] at hrun
  cases hrole : user.role with
  | admin =>
    rw [hrole] at hrun
    exact (pure_eq_ok.1 hrun).2.symm
  | manager =>
    rw [hrole] at hrun
    dsimp only at hrun
    rw [bind_eq_ok] at hrun
    obtain ⟨e, t₁, hfind, hrun⟩ := hrun
    obtain ⟨_, rfl⟩ := findEmployeeOrFail_ok hfind
    exact (check_eq_ok.1 hrun).2
  | employee =>
    rw [hrole] at hrun
    exact (check_eq_ok.1 hrun).2

/-- Left alone, the reservation of days that are available succeeds. -/
theorem reserveBalanceWithRetry_run (hdays : 0 < days)
    (havail : ∃ i c, t.db.balances.get i = some c ∧ c.toBalanceKey = key ∧
      days ≤ c.totalDays - c.usedDays - c.reservedDays) :
    ∃ t', (reserveBalanceWithRetry key days).run t = .ok () t' := by
  have hlack : Reserving.lacks key days t.db = false := Reserving.lacks_eq_false.2 havail
  have hmatches : Steps.Matches _ (reserveBalanceWithRetry key days) :=
    Steps.reserveBalanceWithRetry_agrees
  have hagrees := hmatches t
  cases hrun : (reserveBalanceWithRetry key days).run t with
  | ok u t' => exact ⟨t', rfl⟩
  | error e t' =>
    -- The script does not throw either.
    obtain ⟨_, hscript⟩ := hagrees.error hrun
    rcases Reserving.run_reserveBalanceWithRetry key t.db hdays with ⟨hok, _⟩ | ⟨_, hlack'⟩
    · rw [hscript] at hok
      cases hok
    · rw [hlack] at hlack'
      cases hlack'

/-- The days of a request whose dates are in order are positive. -/
theorem calculateDaysRequested_pos {startDate endDate : DateString}
    (horder : startDate.getTime ≤ endDate.getTime) :
    0 < calculateDaysRequested startDate endDate := by
  have hlength : (0 : ℤ) ≤ endDate.getTime - startDate.getTime := Int.sub_nonneg.2 horder
  have hround : 0 ≤ mathRound (endDate.getTime - startDate.getTime) msPerDay :=
    Int.ediv_nonneg (Int.add_nonneg (Int.mul_nonneg (by decide) hlength) (by decide)) (by decide)
  rw [calculateDaysRequested]
  omega

/-- What `submitRequest` checks, apart from the balance. -/
structure SubmitRequestDto.Admitted (dto : SubmitRequestDto) (today : Instant)
    (caller : RequestUser) (db : Database) : Prop where
  role : caller.role = .employee
  own : caller.employeeId = dto.employeeId
  employee : ∃ e, db.employees.get dto.employeeId = some e
  future : today ≤ dto.startDate.getTime
  order : dto.startDate.getTime ≤ dto.endDate.getTime

/-- An employee who is there may submit requests. -/
theorem ensureEmployeeScope_run {e : Employee} (hrole : caller.role = .employee)
    (hown : caller.employeeId = employeeId) (he : t.db.employees.get employeeId = some e) :
    (ensureEmployeeScope employeeId caller).run t = .ok () t := by
  have hfind : (findEmployeeOrFail employeeId).run t = .ok e t := by
    rw [findEmployeeOrFail, run_get_bind, he]
    rfl
  rw [ensureEmployeeScope, hrole]
  dsimp only
  rw [bind_eq_ok]
  exact ⟨e, t, hfind, check_eq_ok.2 ⟨hown, rfl⟩⟩

/-- The checks before the transaction are passed. -/
theorem submitRequest_eq {today : Instant} (hrole : caller.role = .employee)
    (hown : caller.employeeId = dto.employeeId) (hfuture : today ≤ dto.startDate.getTime)
    (horder : dto.startDate.getTime ≤ dto.endDate.getTime) : submitRequest today dto caller =
      submitTransaction dto (calculateDaysRequested dto.startDate dto.endDate) caller := by
  rw [submitRequest, if_neg (not_or.2 ⟨not_not.2 hrole, not_not.2 hown⟩), if_neg (not_lt.2 hfuture),
    if_neg (not_lt.2 horder), if_neg (not_le.2 (calculateDaysRequested_pos horder))]

/-- A submission that is admitted succeeds if and only if its days are
    available. -/
theorem submitRequest_succeeds {today : Instant} (hadmitted : dto.Admitted today caller t.db) :
    (∃ r t', (submitRequest today dto caller).run t = .ok r t') ↔
      ∃ i c, t.db.balances.get i = some c ∧ c.toBalanceKey = dto.toBalanceKey ∧
        (calculateDaysRequested dto.startDate dto.endDate : ℚ) ≤
          c.totalDays - c.usedDays - c.reservedDays := by
  have hdays := calculateDaysRequested_pos hadmitted.order
  constructor
  · rintro ⟨r, t', hrun⟩
    obtain ⟨hrole, _, _, _, _, htransaction⟩ := submitRequest_checked hrun
    obtain ⟨i, c, hc, hk, hle, _⟩ := submitTransaction_ok hrole htransaction
    exact ⟨i, c, hc, hk, hle⟩
  · intro havail
    obtain ⟨t', hreserve⟩ := reserveBalanceWithRetry_run (Int.cast_pos.2 hdays) havail
    obtain ⟨e, he⟩ := hadmitted.employee
    have hscope := ensureEmployeeScope_run hadmitted.role hadmitted.own he
    rw [submitRequest_eq hadmitted.role hadmitted.own hadmitted.future hadmitted.order,
      submitTransaction]
    exact ⟨_, _, bind_eq_ok.2 ⟨(), t, hscope, bind_eq_ok.2 ⟨(), t', hreserve,
      bind_eq_ok.2 ⟨(), _, rfl, rfl⟩⟩⟩⟩

/-! ## What becomes of the days -/

/-- The days of the requests for `key` from the id `n₀` on. -/
def daysSince (n₀ : ℕ) (t : Table TimeOffRequest) (key : BalanceKey) : ℚ :=
  t.sum fun id r => if n₀ ≤ id ∧ r.toBalanceKey = key then r.daysRequested else 0

/-- `days` are available of the row of the key, or have been asked for since the
    id `n₀`. -/
structure Unspent (n₀ : ℕ) (key : BalanceKey) (days : ℚ) (B : Books) : Prop where
  nextId : n₀ ≤ B.requests.nextId
  row : ∃ i c, B.balances.get i = some c ∧ c.toBalanceKey = key ∧
    days ≤ c.totalDays - c.usedDays - c.reservedDays + daysSince n₀ B.requests key

/-- What has been requested since is not changed by what happens to the requests.
    -/
theorem daysSince_update {requests : Table TimeOffRequest} {id : ℕ} {r : TimeOffRequest}
    (hr : requests.get id = some r) {f : TimeOffRequest → TimeOffRequest}
    (hkey : (f r).toBalanceKey = r.toBalanceKey) (hdays : (f r).daysRequested = r.daysRequested) :
    daysSince n₀ (requests.update id f) key = daysSince n₀ requests key := by
  rw [daysSince, Table.sum_update hr, hkey, hdays, sub_add_cancel]
  rfl

/-- The row gets no worse, and no request is added. -/
theorem Unspent.eased (hunspent : Unspent n₀ key days B)
    (hnextId : B.requests.nextId ≤ B'.requests.nextId)
    (hsince : daysSince n₀ B'.requests key = daysSince n₀ B.requests key)
    (heased : B.balances.Eased key B'.balances) : Unspent n₀ key days B' where
  nextId := hunspent.nextId.trans hnextId
  row := by
    obtain ⟨i, c, hc, hk, hle⟩ := hunspent.row
    obtain ⟨c', hc', hk', _, hle'⟩ := heased i c hc hk
    refine ⟨i, c', hc', hk', ?_⟩
    rw [hsince]
    linarith

/-- What a submission takes away, it adds to what has been asked for. -/
theorem Unspent.submit (hunspent : Unspent n₀ key days B) {n : ℤ} :
    Unspent n₀ key days (B.submit dto n) where
  nextId := hunspent.nextId.trans (Nat.le_succ _)
  row := by
    obtain ⟨i, c, hc, hk, hle⟩ := hunspent.row
    rw [Books.submit, daysSince, Table.sum_insert]
    refine ⟨i, _, by rw [KeyedTable.get_updateKey, hc, Option.map_some], ?_, ?_⟩
    · split <;> exact hk
    · rw [hk]
      by_cases hkey : key = dto.toBalanceKey
      · rw [if_pos hkey, if_pos ⟨hunspent.nextId, hkey.symm⟩]
        change days ≤ c.totalDays - c.usedDays - (c.reservedDays + n) +
          (daysSince n₀ B.requests key + n)
        linarith
      · rw [if_neg hkey, if_neg fun h => hkey h.2.symm, add_zero]
        exact hle

/-- Whatever is done to the books without a sync, at least so many days are left
    as were shown, less those requested since. -/
theorem Unspent.move (hledger : Ledger u₀ B) (hunspent : Unspent n₀ key days B)
    (hmove : Move False B B') : Unspent n₀ key days B' := by
  cases hmove with
  | stay hB => rwa [hB]
  | submit _ _ _ _ hB =>
    rw [hB]
    exact hunspent.submit
  | transition target hr hcan hB =>
    rw [hB]
    exact hunspent.eased le_rfl (daysSince_update hr rfl rfl)
      (.transition hledger.daysCovered hr hcan)
  | stamp hr _ hB =>
    rw [hB]
    exact hunspent.eased le_rfl (daysSince_update hr rfl rfl) (.refl _ _)
  | sync hsynced _ _ => exact hsynced.elim

variable {id : ℕ} {r : TimeOffRequest} {e : Employee}

/-- A caller who sees the request gets to the balances of its employee, unless
    they are a manager, and the employee is at another location. -/
theorem enforceAccess_iff (hsees : caller.Sees r) (hlocation : r.locationId ≠ "")
    (he : t.db.employees.get r.employeeId = some e) :
    (enforceAccess caller r.employeeId).run t = .ok () t ↔
      (caller.role = .manager → e.locationId = r.locationId) := by
  rw [enforceAccess]
  -- Administrators and employees who see the request pass in any case. A manager is
  -- compared with the location of the employee, not with that of the request.
  cases hrole : caller.role with
  | admin => exact iff_of_true rfl fun h => by cases h
  | employee =>
    rw [RequestUser.Sees, hrole] at hsees
    exact iff_of_true (check_eq_ok.2 ⟨hsees, rfl⟩) fun h => by cases h
  | manager =>
    rw [RequestUser.Sees, hrole] at hsees
    have hfind : (findEmployeeOrFail r.employeeId).run t = .ok e t := by
      rw [findEmployeeOrFail, run_get_bind, he]
      rfl
    constructor
    · intro hrun _
      dsimp only at hrun
      rw [bind_eq_ok] at hrun
      obtain ⟨e', t₁, hfind', hrun⟩ := hrun
      obtain ⟨rfl, rfl⟩ := EStateM.Result.ok.inj (hfind.symm.trans hfind')
      have hhas := (check_eq_ok.1 hrun).1
      rw [RequestUser.hasLocation, hsees] at hhas
      simp only [Bool.and_eq_true, decide_eq_true_eq] at hhas
      exact hhas.2.symm
    · intro heq
      refine bind_eq_ok.2 ⟨e, t, hfind, check_eq_ok.2 ⟨?_, rfl⟩⟩
      rw [heq rfl]
      exact (hasLocation_iff hlocation).2 hsees

/-- **The balance of a request.** In every database that the service reaches
    from one without requests: whoever gets a request with `getRequest` is also
    shown the balance that its days are taken from, by
    `GET /balances/:employeeId/:locationId`, if and only if they are not a
    manager, or the employee is at the location of the request. -/
theorem balance_of_request (hdb : s₀.db.NoRequests)
    (hrun : Run (step cfg) (fun _ a => a.Valid) s₀ h s) (hgets : Gets caller s.db id r) :
    (∃ shown t, (BalanceController.getByEmployeeAndLocation r.employeeId r.locationId caller).run
        (.start s.db) = .ok shown t ∧ ∃ b ∈ shown, b.toBalanceKey = r.toBalanceKey) ↔
      (caller.role = .manager →
        ∃ e, s.db.employees.get r.employeeId = some e ∧ e.locationId = r.locationId) := by
  have hlinked := linked_of_run hdb hrun
  obtain ⟨hr, hsees⟩ := (gets_iff hlinked).1 hgets
  obtain ⟨⟨e, he⟩, ⟨i, c, hc, hk⟩, hlocation⟩ := hlinked.parts id r hr
  have haccess := enforceAccess_iff (t := .start s.db) hsees hlocation he
  have hemployee : (∃ e', s.db.employees.get r.employeeId = some e' ∧
      e'.locationId = r.locationId) ↔ e.locationId = r.locationId := by
    rw [he]
    simp
  -- The balance is there, since the request has reserved days on it: only the access is
  -- left to check.
  rw [hemployee, ← haccess]
  constructor
  · rintro ⟨shown, t, hshown, _⟩
    rw [BalanceController.getByEmployeeAndLocation, bind_eq_ok] at hshown
    obtain ⟨_, t₁, hrun₁, _⟩ := hshown
    obtain rfl := enforceAccess_ok hrun₁
    exact hrun₁
  · intro hrun₁
    have hmem : (i, c) ∈ s.db.balances.rows.filter fun b =>
        b.2.employeeId = r.employeeId ∧ b.2.locationId = r.locationId := by
      refine List.mem_filter.2 ⟨Table.mem_rows.2 hc, decide_eq_true ?_⟩
      exact ⟨congrArg BalanceKey.employeeId hk, congrArg BalanceKey.locationId hk⟩
    refine ⟨_, .start s.db, bind_eq_ok.2 ⟨(), _, hrun₁, ?_⟩, withEffective (i, c),
      List.mem_map_of_mem hmem, hk⟩
    have hne : ¬(s.db.balances.rows.filter fun b =>
        b.2.employeeId = r.employeeId ∧ b.2.locationId = r.locationId).isEmpty = true :=
      fun hempty => List.ne_nil_of_mem hmem (List.isEmpty_iff.1 hempty)
    rw [getByEmployeeAndLocation, run_get_bind]
    dsimp only [Session.start]
    rw [if_neg hne]
    rfl

/-- The manager is shown the balance of the request that the employee has
    submitted. -/
theorem balance_of_request_sample : ∃ h s r, Run (step sampleConfig) (fun _ a => a.Valid)
    (.start { sampleDb 10 with requests := noRequests } (sampleHcm 10) 0) h s ∧
    Gets sampleManager s.db 1 r ∧
    ∃ shown t, (BalanceController.getByEmployeeAndLocation r.employeeId r.locationId
      sampleManager).run (.start s.db) = .ok shown t ∧
        ∃ b ∈ shown, b.toBalanceKey = r.toBalanceKey := by
  have hexec : ∃ s ∈ exec (step sampleConfig)
      (.start { sampleDb 10 with requests := noRequests } (sampleHcm 10) 0) [sampleSubmit 2],
      (s.db.requests.get 1).any (fun r => r.employeeId = 1 ∧ r.locationId = "LOC1") ∧
        (s.db.employees.get 1).any (·.locationId = "LOC1") := by decide +kernel
  have hvalid : ∀ a ∈ [sampleSubmit 2], a.Valid := by
    intro a ha
    rw [List.mem_singleton.1 ha]
    exact ⟨by decide, by decide, by decide⟩
  obtain ⟨s, hrun, hs, hemployee⟩ := exists_run_of_exec hvalid hexec
  obtain ⟨r, hr, hrow⟩ := (Option.any_eq_true _ _).1 hs
  obtain ⟨hid, hlocation⟩ := of_decide_eq_true hrow
  obtain ⟨e, he, hhome⟩ := (Option.any_eq_true _ _).1 hemployee
  have hdb : Database.NoRequests { sampleDb 10 with requests := noRequests } :=
    ⟨Nat.one_pos, fun _ => rfl⟩
  have hgets : Gets sampleManager s.db 1 r :=
    (gets_iff (linked_of_run hdb hrun)).2 ⟨hr, congrArg some hlocation.symm⟩
  refine ⟨_, s, r, hrun, hgets, (balance_of_request hdb hrun hgets).2 fun _ => ⟨e, ?_, ?_⟩⟩
  · rw [hid, he]
  · rw [hlocation]
    exact of_decide_eq_true hhome

end TimeOff
