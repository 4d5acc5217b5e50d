import TimeOff.Lib.Script
import TimeOff.Outbox

/-!
# Requests, statement by statement

The operations of `RequestService` again, and `processDeductEvent`, as scripts
that wait between their statements. An operation (`Operation`) first reads,
outside of its transaction, or calls the HCM, and may then have a transaction to
run (`Body`): `startTransaction`, the body, and `commitTransaction`, after which
`approveRequest` and `rejectRequest` read the request once more for their
response. If the body throws, `rollbackTransaction` is run and the error thrown
on.

Left to themselves, the parts do what those of `TimeOff.Request.Service` do in
one go (`submitTransaction_agrees`, `preRead_agrees`, `transaction_agrees`,
`deductTransaction_agrees`).
-/

namespace TimeOff

open Transaction Script

/-- The statements of the operations on requests. -/
inductive Statement
  | findEmployee
  | findBalance
  /-- The `findOne` after the last attempt of `reserveBalanceWithRetry`. -/
  | findCurrent
  | reserveBalance
  | releaseReserved
  | confirmDeduction
  | findRequest
  | insertRequest
  | updateRequest
  | insertEvent
  | updateEvent
  /-- The call of `hcmClient.deductBalance`. -/
  | deductBalance
  deriving DecidableEq

/-- A program that executes such statements. -/
abbrev Steps (α : Type) := Script Statement Database ServiceError α

namespace Steps

/-! ## Balances -/

/-- `manager.findOne(LeaveBalance, { where: key })`, in one of two places. -/
def findBalance (label : Statement) (key : BalanceKey) : Steps (Option LeaveBalance) :=
  query label fun db => (db.balances.lookup key).map Prod.snd

/-- The guarded update of `reserveBalance`, if it affects a row. -/
def reserved (key : BalanceKey) (days : ℚ) (currentVersion : ℕ) (db : Database)
    (round : ℚ → ℚ := id) : Option Database :=
  (db.balances.updateKeyIf key (·.reservable days currentVersion round) (·.reserve days round)
    (LeaveBalance.key_reserve days)).map ({ db with balances := · })

/-- `reserveBalance` -/
def reserveBalance (key : BalanceKey) (days : ℚ) (currentVersion : ℕ) (round : ℚ → ℚ := id) :
    Steps Bool :=
  update .reserveBalance fun db => reserved key days currentVersion db round

/-- The loop of `reserveBalanceWithRetry` with `n` attempts left, and what
    follows it. -/
def reserveAttempts (key : BalanceKey) (days : ℚ) (n : ℕ) (round : ℚ → ℚ := id) : Steps Unit :=
  match n with
  | 0 => do
    let current ← findBalance .findCurrent key
    throw (.reservationFailed maxAttempts (current.elim 0 (·.effectiveAvailable round)))
  | n + 1 => do
    match ← findBalance .findBalance key with
    | none => throw (.noBalanceRecord key)
    | some balance =>
      if balance.effectiveAvailable round < days then
        throw (.insufficientBalance days (balance.effectiveAvailable round))
      else if ← reserveBalance key days balance.version round then
        pure ()
      else
        reserveAttempts key days n round

/-- `reserveBalanceWithRetry` -/
def reserveBalanceWithRetry (key : BalanceKey) (days : ℚ) (round : ℚ → ℚ := id) : Steps Unit :=
  reserveAttempts key days maxAttempts round

/-- `releaseReserved` -/
def releaseReserved (key : BalanceKey) (days : ℚ) : Steps Unit :=
  write .releaseReserved fun db => (db.balances.lookup key).map fun _ => db.release key days

/-- `confirmDeduction` -/
def confirmDeduction (key : BalanceKey) (days : ℚ) : Steps Unit :=
  write .confirmDeduction fun db => (db.balances.lookup key).map fun _ => db.confirm key days

/-! ## Requests -/

/-- `findOrFail` -/
def findOrFail (id : ℕ) : Steps TimeOffRequest := do
  match ← query .findRequest (·.requests.get id) with
  | some request => pure request
  | none => throw (.notFound s!"Request {id} not found")

/-- `findEmployeeOrFail` -/
def findEmployeeOrFail (employeeId : ℕ) : Steps Employee := do
  match ← query .findEmployee (·.employees.get employeeId) with
  | some employee => pure employee
  | none => throw (.notFound s!"Employee {employeeId} not found")

/-- `assertTransition` -/
def assertTransition (source target : RequestStatus) : Steps Unit :=
  if canTransition source target then pure ()
  else throw (.badRequest s!"Cannot transition from {source.text} to {target.text}")

/-- `transitionRequest` -/
def transitionRequest (id : ℕ) (target : RequestStatus) (expectedVersion : ℕ)
    (extraFields : ExtraFields) : Steps TimeOffRequest := do
  let current ← findOrFail id
  assertTransition current.status target
  if ← update .updateRequest fun db => (db.requests.updateIf id (·.version = expectedVersion)
      (·.move target extraFields)).map ({ db with requests := · }) then
    findOrFail id
  else
    throw (.conflict s!"Request {id} was modified concurrently")

/-- `assertManagerOrAdmin` -/
def assertManagerOrAdmin (caller : RequestUser) (message : String) : Steps Unit :=
  if caller.role = .manager ∨ caller.role = .admin then pure () else throw (.forbidden message)

/-- `ensureRequestScope` -/
def ensureRequestScope (request : TimeOffRequest) (caller : RequestUser) : Steps Unit :=
  match caller.role with
  | .admin => pure ()
  | .manager =>
    if caller.hasLocation request.locationId then pure ()
    else throw (.forbidden "Manager scope does not cover this request location")
  | .employee =>
    if caller.employeeId = request.employeeId then pure ()
    else throw (.forbidden "Employees can only access their own requests")

/-- `ensureEmployeeScope` -/
def ensureEmployeeScope (employeeId : ℕ) (caller : RequestUser) : Steps Unit :=
  match caller.role with
  | .admin => pure ()
  | .manager => do
    let employee ← findEmployeeOrFail employeeId
    if caller.hasLocation employee.locationId then pure ()
    else throw (.forbidden "Manager scope does not cover this employee")
  | .employee => do
    let _ ← findEmployeeOrFail employeeId
    if caller.employeeId = employeeId then pure ()
    else throw (.forbidden "Employees can only access their own requests")

/-! ## Bodies of transactions -/

/-- The `save` of `submitRequest`. -/
def insertRequest (r : TimeOffRequest) : Steps Unit :=
  write .insertRequest fun db => some (db.insertRequest r)

/-- The transaction of `submitRequest`. -/
def submitTransaction (dto : SubmitRequestDto) (daysRequested : ℤ) (caller : RequestUser) :
    Steps Unit := do
  ensureEmployeeScope dto.employeeId caller
  reserveBalanceWithRetry dto.toBalanceKey daysRequested
  insertRequest (dto.request daysRequested)

/-- The transaction of `approveRequest`. -/
def approveTransaction (now : Instant) (c : Call) : Steps Unit := do
  let transitioned ← transitionRequest c.id .approvedPendingHcm c.request.version
    { managerId := some c.caller.employeeId }
  write .insertEvent fun db => some (db.insertEvent (deductEvent now c.id transitioned))

/-- The transaction of `rejectRequest`. -/
def rejectTransaction (reason : String) (c : Call) : Steps Unit := do
  let _ ← transitionRequest c.id .rejected c.request.version
    { rejectionReason := some reason, managerId := some c.caller.employeeId }
  releaseReserved c.request.toBalanceKey c.request.daysRequested

/-- The transaction of `cancelRequest`. -/
def cancelTransaction (now : Instant) (c : Call) : Steps Unit := do
  if c.request.status = .approvedPendingHcm then
    write .insertEvent fun db => some (db.insertEvent (reverseEvent now c.id))
  releaseReserved c.request.toBalanceKey c.request.daysRequested
  let _ ← transitionRequest c.id .cancelled c.request.version {}

/-- The transaction of a call. -/
def transaction (now : Instant) (c : Call) : Steps Unit :=
  match c.kind with
  | .approve => approveTransaction now c
  | .reject reason => rejectTransaction reason c
  | .cancel => cancelTransaction now c

/-- `completeDeductionFromOutbox` -/
def completeDeductionFromOutbox (requestId : ℕ) (hcmRequestId : String) :
    Steps TimeOffRequest := do
  let request ← findOrFail requestId
  if request.status = .approved then
    pure request
  else if request.status = .cancelled then do
    write .updateRequest fun db =>
      (db.requests.get requestId).map fun _ => db.updateRequest requestId (·.stamp hcmRequestId)
    findOrFail requestId
  else do
    let updatedRequest ← transitionRequest requestId .approved request.version
      { hcmRequestId := some hcmRequestId }
    confirmDeduction updatedRequest.toBalanceKey updatedRequest.daysRequested
    pure updatedRequest

/-- The transaction of `processDeductEvent`. -/
def deductTransaction (id : ℕ) (event : OutboxEvent) (hcmRequestId : String) : Steps Unit := do
  let _ ← completeDeductionFromOutbox event.requestId hcmRequestId
  write .updateEvent fun db => some (db.updateEvent id (·.setStatus .done))

/-! ## Operations -/

/-- The part of an operation that is left when it starts its transaction. -/
structure Body where
  transaction : Steps Unit
  /-- What follows the commit, outside of the `try`. -/
  response : Steps Unit

/-- `submitRequest`, where `today` is the last midnight of the server. -/
def submitRequest (today : Instant) (dto : SubmitRequestDto) (caller : RequestUser) :
    Steps Body :=
  if caller.role ≠ .employee ∨ caller.employeeId ≠ dto.employeeId then
    throw (.forbidden "Employees can only submit requests for themselves")
  else if dto.startDate.getTime < today then
    throw (.badRequest "startDate cannot be in the past")
  else if dto.endDate.getTime < dto.startDate.getTime then
    throw (.badRequest "endDate must be on or after startDate")
  else if calculateDaysRequested dto.startDate dto.endDate ≤ 0 then
    throw (.badRequest "daysRequested must be positive")
  else
    pure ⟨submitTransaction dto (calculateDaysRequested dto.startDate dto.endDate) caller, pure ()⟩

/-- `findOrFail` and the checks before the transaction. -/
def preRead (kind : CallKind) (id : ℕ) (caller : RequestUser) : Steps Call :=
  match kind with
  | .approve => do
    assertManagerOrAdmin caller "Only managers or admins can approve requests"
    let request ← findOrFail id
    ensureRequestScope request caller
    pure ⟨kind, id, caller, request⟩
  | .reject reason => do
    if reason.toList.all isTrimmed then throw (.badRequest "A rejection reason is required")
    assertManagerOrAdmin caller "Only managers or admins can reject requests"
    let request ← findOrFail id
    ensureRequestScope request caller
    pure ⟨kind, id, caller, request⟩
  | .cancel => do
    let request ← findOrFail id
    ensureRequestScope request caller
    if request.status = .approved ∨ request.status = .rejected ∨ request.status = .failed ∨
        request.status = .cancelled then
      throw (.conflict s!"Cannot cancel a request in {request.status.text} state")
    pure ⟨kind, id, caller, request⟩

/-- The `return this.findOrFail(id)` of `approveRequest` and `rejectRequest`. -/
def reread (id : ℕ) : Steps Unit := do
  let _ ← findOrFail id

/-- `approveRequest`, `rejectRequest` or `cancelRequest`. -/
def callRequest (now : Instant) (kind : CallKind) (id : ℕ) (caller : RequestUser) :
    Steps Body := do
  let c ← preRead kind id caller
  pure ⟨transaction now c, match kind with
    | .approve | .reject _ => reread id
    | .cancel => pure ()⟩

/-- `processDeductEvent`, of the event `id`, where `answer` is what comes of the
    call of the HCM. -/
def processDeductEvent (id : ℕ) (event : OutboxEvent) (answer : Except ServiceError String) :
    Steps Body := do
  let hcmRequestId ← ask .deductBalance fun _ => answer
  pure ⟨deductTransaction id event hcmRequestId, pure ()⟩

/-! ## Checks -/

section
variable {p : Statement → (Database → Except ServiceError (Option Database)) → Prop}

theorem all_check {q : Prop} [Decidable q] {e : ServiceError} :
    (if q then pure () else throw e : Steps Unit).All p := by
  split <;> trivial

/-- `ensureEmployeeScope` executes at most one statement, which reads. -/
theorem all_ensureEmployeeScope {employeeId : ℕ} {caller : RequestUser}
    (hfind : p .findEmployee fun _ => .ok none) :
    (ensureEmployeeScope employeeId caller).All p := by
  have hemployee : (findEmployeeOrFail employeeId).All p :=
    all_bind (all_query hfind) fun o => by cases o <;> trivial
  rw [ensureEmployeeScope]
  split
  · trivial
  · exact all_bind hemployee fun _ => all_check
  · exact all_bind hemployee fun _ => all_check

end

/-! ## Left to themselves -/

variable {s : Session} {key : BalanceKey} {days : ℚ} {id v : ℕ} {caller : RequestUser}

/-- The script does what the transaction does. -/
abbrev Matches {α : Type} (x : Steps α) (y : Tx α) : Prop := ∀ s, Agrees Session.db s x y

theorem findBalance_agrees (label : Statement) :
    Matches (findBalance label key) (TimeOff.findBalance key) :=
  fun _ => ⟨[label], rfl⟩

/-- One statement, the guarded update. -/
theorem reserveBalance_agrees :
    Matches (reserveBalance key days v) (TimeOff.reserveBalance key days v) := by
  intro s
  refine .update { s with db := (reserved key days v s.db).getD s.db } ?_ rfl
  rw [TimeOff.reserveBalance, run_get_bind, run_modify_bind, reserved]
  cases s.db.balances.updateKeyIf key (·.reservable days v) (·.reserve days)
    (LeaveBalance.key_reserve days) <;> rfl

/-- The attempts agree, however many are left. -/
theorem reserveAttempts_agrees (n : ℕ) :
    Matches (reserveAttempts key days n) (TimeOff.reserveAttempts key days n) := by
  -- On the attempts that are left. Each of them reads the row anew, which is what makes the
  -- next one succeed.
  induction n with
  | zero => exact fun s => .bind (findBalance_agrees _ s) fun _ _ _ => .throw _
  | succ n ih =>
    refine fun s => .bind (findBalance_agrees _ s) fun o s' _ => ?_
    cases o with
    | none => exact .throw _
    | some balance =>
      dsimp only
      split
      · exact .throw _
      · refine .bind (reserveBalance_agrees s') fun r s'' _ => ?_
        cases r with
        | false => exact ih s''
        | true => exact .pure _

theorem reserveBalanceWithRetry_agrees :
    Matches (reserveBalanceWithRetry key days) (TimeOff.reserveBalanceWithRetry key days) :=
  reserveAttempts_agrees maxAttempts

theorem updateBalance_of_lookup_eq_none {db : Database} {f : LeaveBalance → LeaveBalance}
    {hf : ∀ b, (f b).toBalanceKey = b.toBalanceKey} (hl : db.balances.lookup key = none) :
    db.updateBalance key f hf = db := by
  rw [Database.updateBalance, KeyedTable.updateKey_of_lookup_eq_none hl]

/-- One statement. -/
theorem releaseReserved_agrees :
    Matches (releaseReserved key days) (TimeOff.releaseReserved key days) := by
  refine fun s => .write ?_
  cases hl : s.db.balances.lookup key with
  | some r => rfl
  | none => exact updateBalance_of_lookup_eq_none hl

/-- One statement. -/
theorem confirmDeduction_agrees :
    Matches (confirmDeduction key days) (TimeOff.confirmDeduction key days) := by
  refine fun s => .write ?_
  cases hl : s.db.balances.lookup key with
  | some r => rfl
  | none => exact updateBalance_of_lookup_eq_none hl

theorem findOrFail_agrees : Matches (findOrFail id) (TimeOff.findOrFail id) := by
  refine fun s => .query ?_
  cases s.db.requests.get id with
  | some _ => exact .pure _
  | none => exact .throw _

/-- One read. -/
theorem findEmployeeOrFail_agrees :
    Matches (findEmployeeOrFail id) (TimeOff.findEmployeeOrFail id) := by
  refine fun s => .query ?_
  cases s.db.employees.get id with
  | some _ => exact .pure _
  | none => exact .throw _

/-- A check. -/
theorem check_agrees {p : Prop} [Decidable p] {e : ServiceError} :
    Matches (if p then pure () else throw e) (if p then pure () else throw e) := by
  intro s
  split
  · exact .pure _
  · exact .throw _

theorem assertTransition_agrees {source target : RequestStatus} :
    Matches (assertTransition source target) (TimeOff.assertTransition source target) :=
  check_agrees

/-- The read, the check and the guarded update. -/
theorem transitionRequest_agrees {target : RequestStatus} {x : ExtraFields} :
    Matches (transitionRequest id target v x) (TimeOff.transitionRequest id target v x) := by
  refine fun s => .bind (findOrFail_agrees s) fun current s' _ =>
    .bind (assertTransition_agrees s') fun _ s'' _ => ?_
  cases hu : s''.db.requests.updateIf id (·.version = v) (·.move target x) with
  | none =>
    refine .update_bind s'' (throw (.conflict s!"Request {id} was modified concurrently"))
      ?_ ?_ ?_
    · rw [run_get_bind, hu]
    · rw [hu]; rfl
    · rw [hu]; exact .throw _
  | some requests =>
    refine .update_bind { s'' with db.requests := requests } (TimeOff.findOrFail id) ?_ ?_ ?_
    · rw [run_get_bind, hu]; rfl
    · rw [hu]; rfl
    · rw [hu]; exact findOrFail_agrees _

/-- The check of the scope reads the employee. -/
theorem ensureEmployeeScope_agrees :
    Matches (ensureEmployeeScope id caller) (TimeOff.ensureEmployeeScope id caller) := by
  intro s
  rw [ensureEmployeeScope, TimeOff.ensureEmployeeScope]
  cases caller.role with
  | admin => exact .pure _
  | manager => exact .bind (findEmployeeOrFail_agrees s) fun _ s' _ => check_agrees s'
  | employee => exact .bind (findEmployeeOrFail_agrees s) fun _ s' _ => check_agrees s'

/-- What a transaction writes by `execute`. -/
theorem execute_agrees {label : Statement} {w : Database → Option Database}
    {f : Database → Database} (hw : ∀ db, f db = (w db).getD db) :
    Matches (write label w) (execute f) :=
  fun s => .write (hw s.db)

/-- The transaction of a submission. -/
theorem submitTransaction_agrees {dto : SubmitRequestDto} {n : ℤ} (s : Session) :
    Agrees Session.db s (submitTransaction dto n caller)
      (TimeOff.submitTransaction dto n caller >>= fun _ => pure ()) := by
  rw [submitTransaction, TimeOff.submitTransaction, bind_assoc]
  refine .bind (ensureEmployeeScope_agrees s) fun _ s' _ => ?_
  rw [bind_assoc]
  refine .bind (reserveBalanceWithRetry_agrees s') fun _ s'' _ => ?_
  exact execute_agrees (fun _ => rfl) s''

/-- The transactions of the calls. -/
theorem transaction_agrees {now : Instant} {c : Call} :
    Matches (transaction now c) (c.transaction now) := by
  intro s
  rw [transaction, Call.transaction]
  cases c.kind with
  | approve =>
    exact .bind (transitionRequest_agrees s) fun _ s' _ => execute_agrees (fun _ => rfl) s'
  | reject reason =>
    exact .bind (transitionRequest_agrees s) fun _ s' _ => releaseReserved_agrees s'
  | cancel =>
    -- The rest of a cancellation is the same whether there is an event or not.
    have hrest : ∀ s', Agrees Session.db s'
        (do releaseReserved c.request.toBalanceKey c.request.daysRequested
            let _ ← transitionRequest c.id .cancelled c.request.version {} : Steps Unit)
        (do TimeOff.releaseReserved c.request.toBalanceKey c.request.daysRequested
            let _ ← TimeOff.transitionRequest c.id .cancelled c.request.version {}) := fun s' =>
      .bind (releaseReserved_agrees s') fun _ s'' _ =>
        .bind (transitionRequest_agrees s'') fun _ _ _ => .pure _
    dsimp only
    rw [cancelTransaction, TimeOff.cancelTransaction]
    split
    · exact .bind (execute_agrees (fun _ => rfl) s) fun _ s' _ => hrest s'
    · exact hrest s

/-- The completion of a deduction. -/
theorem completeDeductionFromOutbox_agrees {hcmRequestId : String} :
    Matches (completeDeductionFromOutbox id hcmRequestId)
      (TimeOff.completeDeductionFromOutbox id hcmRequestId) := by
  refine fun s => .bind (findOrFail_agrees s) fun request s' hfind => ?_
  obtain ⟨hr, rfl⟩ := findOrFail_ok hfind
  split
  · exact .pure _
  split
  · refine .bind (.write ?_) fun _ s' _ => findOrFail_agrees s'
    rw [hr]
    rfl
  · exact .bind (transitionRequest_agrees s') fun _ s₁ _ =>
      .bind (confirmDeduction_agrees s₁) fun _ _ _ => .pure _

theorem deductTransaction_agrees {event : OutboxEvent} {hcmRequestId : String} :
    Matches (deductTransaction id event hcmRequestId)
      (TimeOff.deductTransaction id event hcmRequestId) := fun s =>
  .bind (completeDeductionFromOutbox_agrees s) fun _ s' _ => execute_agrees (fun _ => rfl) s'

/-- The check of the scope of a request. -/
theorem ensureRequestScope_agrees {r : TimeOffRequest} :
    Matches (ensureRequestScope r caller) (TimeOff.ensureRequestScope r caller) := by
  intro s
  rw [ensureRequestScope, TimeOff.ensureRequestScope]
  cases caller.role with
  | admin => exact .pure _
  | manager => exact check_agrees s
  | employee => exact check_agrees s

/-- The pre-read of an approval or a rejection. -/
theorem readInScope_agrees {kind : CallKind} {message : String} :
    Matches
      (do assertManagerOrAdmin caller message
          let request ← findOrFail id
          ensureRequestScope request caller
          pure (⟨kind, id, caller, request⟩ : Call))
      (do TimeOff.assertManagerOrAdmin caller message
          let request ← TimeOff.findOrFail id
          TimeOff.ensureRequestScope request caller
          pure (⟨kind, id, caller, request⟩ : Call)) :=
  fun s => .bind (check_agrees s) fun _ s' _ => .bind (findOrFail_agrees s') fun _ s'' _ =>
    .bind (ensureRequestScope_agrees s'') fun _ _ _ => .pure _

/-- What is read and checked before a transaction. -/
theorem preRead_agrees {kind : CallKind} :
    Matches (preRead kind id caller) (TimeOff.preRead kind id caller) := by
  intro s
  cases kind with
  | approve => exact readInScope_agrees s
  | reject reason =>
    rw [preRead, TimeOff.preRead]
    split
    · exact .throw _
    · exact readInScope_agrees s
  | cancel =>
    refine .bind (findOrFail_agrees s) fun request s' _ =>
      .bind (ensureRequestScope_agrees s') fun _ s'' _ => ?_
    split
    · exact .throw _
    · exact .pure _

end Steps

/-- An operation on requests, with a transaction of its own. -/
inductive Operation
  | submitRequest (today : Instant) (dto : SubmitRequestDto) (caller : RequestUser)
  | callRequest (now : Instant) (kind : CallKind) (id : ℕ) (caller : RequestUser)
  | processDeductEvent (id : ℕ) (event : OutboxEvent) (answer : Except ServiceError String)

/-- What an operation executes. -/
def Operation.script : Operation → Steps Steps.Body
  | .submitRequest today dto caller => Steps.submitRequest today dto caller
  | .callRequest now kind id caller => Steps.callRequest now kind id caller
  | .processDeductEvent id event answer => Steps.processDeductEvent id event answer

end TimeOff
