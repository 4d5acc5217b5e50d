import TimeOff.Balance
import TimeOff.Request.StateMachine

/-!
# Requests

The operations of `RequestService` that change the database. `submitRequest`
and the two callbacks of the outbox processor are single transactions.
`approveRequest`, `rejectRequest` and `cancelRequest` read the request first,
outside of their transaction, and are split there: a *call* (`Call`) is one of
them between its pre-read and its transaction, holding the copy it has read.

`transitionRequest` is the only function that changes a status. It is guarded
by the version of the request its caller has read, but checks the transition
on the row as it is.
-/

namespace TimeOff

open Transaction

/-- `SubmitRequestDto` -/
structure SubmitRequestDto extends BalanceKey where
  startDate : DateString
  endDate : DateString

/-- The `extraFields` of a transition: a `Partial<TimeOffRequest>`. -/
structure ExtraFields where
  managerId : Option ℕ := none
  rejectionReason : Option String := none
  hcmRequestId : Option String := none

/-- The fields that are given are set. -/
def ExtraFields.set (x : ExtraFields) (r : TimeOffRequest) : TimeOffRequest :=
  { r with
    managerId := x.managerId <|> r.managerId
    rejectionReason := x.rejectionReason <|> r.rejectionReason
    hcmRequestId := x.hcmRequestId <|> r.hcmRequestId }

/-- The `SET` of `transitionRequest`. -/
def TimeOffRequest.move (target : RequestStatus) (x : ExtraFields) (r : TimeOffRequest) :
    TimeOffRequest :=
  { x.set r with status := target, version := r.version + 1 }

/-- The request with the id that the HCM has given its deduction. -/
def TimeOffRequest.stamp (hcmRequestId : String) (r : TimeOffRequest) : TimeOffRequest :=
  { r with hcmRequestId := some hcmRequestId }

/-- `findOrFail` -/
def findOrFail (id : ℕ) : Tx TimeOffRequest := do
  match (← get).db.requests.get id with
  | some request => pure request
  | none => throw (.notFound s!"Request {id} not found")

/-- `findEmployeeOrFail` -/
def findEmployeeOrFail (employeeId : ℕ) : Tx Employee := do
  match (← get).db.employees.get employeeId with
  | some employee => pure employee
  | none => throw (.notFound s!"Employee {employeeId} not found")

/-- `transitionRequest` -/
def transitionRequest (id : ℕ) (target : RequestStatus) (expectedVersion : ℕ)
    (extraFields : ExtraFields) : Tx TimeOffRequest := do
  let current ← findOrFail id
  assertTransition current.status target
  match (← get).db.requests.updateIf id (·.version = expectedVersion)
      (·.move target extraFields) with
  | some requests =>
    execute fun db => { db with requests := requests }
    findOrFail id
  | none => throw (.conflict s!"Request {id} was modified concurrently")

/-! ## Who may do what -/

/-- `caller.locationId` as a condition: neither absent nor empty. -/
def RequestUser.hasLocation (caller : RequestUser) (locationId : String) : Bool :=
  match caller.locationId with
  | some l => l ≠ "" && l = locationId
  | none => false

/-- `assertManagerOrAdmin` -/
def assertManagerOrAdmin (caller : RequestUser) (message : String) : Tx Unit :=
  if caller.role = .manager ∨ caller.role = .admin then pure () else throw (.forbidden message)

/-- `ensureRequestScope` -/
def ensureRequestScope (request : TimeOffRequest) (caller : RequestUser) : Tx Unit :=
  match caller.role with
  | .admin => pure ()
  | .manager =>
    if caller.hasLocation request.locationId then pure ()
    else throw (.forbidden "Manager scope does not cover this request location")
  | .employee =>
    if caller.employeeId = request.employeeId then pure ()
    else throw (.forbidden "Employees can only access their own requests")

/-- `ensureEmployeeScope` -/
def ensureEmployeeScope (employeeId : ℕ) (caller : RequestUser) : Tx Unit :=
  match caller.role with
  | .admin => pure ()
  | .manager => do
    let employee ← findEmployeeOrFail employeeId
    if caller.hasLocation employee.locationId then pure ()
    else throw (.forbidden "Manager scope does not cover this employee")
  | .employee => do
    let _ ← findEmployeeOrFail employeeId
    if caller.employeeId = employeeId then pure ()
    else throw (.forbidden "Employees can only access their own requests")

/-! ## Submission -/

/-- The row that `submitRequest` inserts. -/
def SubmitRequestDto.request (dto : SubmitRequestDto) (daysRequested : ℤ) : TimeOffRequest :=
  { dto with
    daysRequested := daysRequested
    status := .pending
    managerId := none
    rejectionReason := none
    hcmRequestId := none
    version := 0 }

section
variable (dto : SubmitRequestDto) (days : ℤ)

@[simp] theorem key_request : (dto.request days).toBalanceKey = dto.toBalanceKey := rfl
@[simp] theorem status_request : (dto.request days).status = .pending := rfl
@[simp] theorem daysRequested_request : (dto.request days).daysRequested = days := rfl

end

/-- The transaction of `submitRequest`. -/
def submitTransaction (dto : SubmitRequestDto) (daysRequested : ℤ) (caller : RequestUser) :
    Tx TimeOffRequest := do
  ensureEmployeeScope dto.employeeId caller
  reserveBalanceWithRetry dto.toBalanceKey daysRequested
  let request := dto.request daysRequested
  execute fun db => db.insertRequest request
  pure request

/-- `submitRequest`, where `today` is the last midnight of the server. -/
def submitRequest (today : Instant) (dto : SubmitRequestDto) (caller : RequestUser) :
    Tx TimeOffRequest :=
  if caller.role ≠ .employee ∨ caller.employeeId ≠ dto.employeeId then
    throw (.forbidden "Employees can only submit requests for themselves")
  else if dto.startDate.getTime < today then
    throw (.badRequest "startDate cannot be in the past")
  else if dto.endDate.getTime < dto.startDate.getTime then
    throw (.badRequest "endDate must be on or after startDate")
  else if calculateDaysRequested dto.startDate dto.endDate ≤ 0 then
    throw (.badRequest "daysRequested must be positive")
  else
    submitTransaction dto (calculateDaysRequested dto.startDate dto.endDate) caller

/-! ## Calls -/

/-- The operations with a pre-read. -/
inductive CallKind
  | approve
  | reject (reason : String)
  | cancel

/-- A call of `approveRequest`, `rejectRequest` or `cancelRequest` that has
    passed its pre-read. -/
structure Call where
  kind : CallKind
  id : ℕ
  caller : RequestUser
  /-- The request as the pre-read has found it. -/
  request : TimeOffRequest

/-- The characters that `trim` removes. -/
def isTrimmed (c : Char) : Bool :=
  let n := c.toNat
  (9 ≤ n && n ≤ 13) || n = 0x20 || n = 0xA0 || n = 0x1680 || (0x2000 ≤ n && n ≤ 0x200A) ||
    n = 0x2028 || n = 0x2029 || n = 0x202F || n = 0x205F || n = 0x3000 || n = 0xFEFF

/-- `findOrFail` and the checks before the transaction. -/
def preRead (kind : CallKind) (id : ℕ) (caller : RequestUser) : Tx Call :=
  match kind with
  | .approve => do
    assertManagerOrAdmin caller "Only managers or admins can approve requests"
    let request ← findOrFail id
    ensureRequestScope request caller
    pure ⟨kind, id, caller, request⟩
  | .reject reason => do
    if reason.toList.all isTrimmed then throw (.badRequest "A rejection reason is required")
    assertManagerOrAdmin caller "Only managers or admins can reject requests"
    let request ← findOrFail id
    ensureRequestScope request caller
    pure ⟨kind, id, caller, request⟩
  | .cancel => do
    let request ← findOrFail id
    ensureRequestScope request caller
    if request.status = .approved ∨ request.status = .rejected ∨ request.status = .failed ∨
        request.status = .cancelled then
      throw (.conflict s!"Cannot cancel a request in {request.status.text} state")
    pure ⟨kind, id, caller, request⟩

/-- `JSON.stringify` of the payload of a deduction. -/
def TimeOffRequest.deductPayload (r : TimeOffRequest) : DeductPayload :=
  { r with days := r.daysRequested }

/-- The event an approval writes. -/
def deductEvent (now : Instant) (requestId : ℕ) (r : TimeOffRequest) : OutboxEvent :=
  { eventType := .hcmDeduct
    payload := some r.deductPayload
    status := .pending
    attempts := 0
    nextRetryAt := some now
    requestId := requestId
    createdAt := now }

/-- The event that the cancellation of an approved request writes. -/
def reverseEvent (now : Instant) (requestId : ℕ) : OutboxEvent :=
  { eventType := .hcmReverse
    payload := none
    status := .pending
    attempts := 0
    nextRetryAt := some now
    requestId := requestId
    createdAt := now }

/-- The transaction of `approveRequest`. -/
def approveTransaction (now : Instant) (c : Call) : Tx Unit := do
  let transitioned ← transitionRequest c.id .approvedPendingHcm c.request.version
    { managerId := some c.caller.employeeId }
  execute fun db => db.insertEvent (deductEvent now c.id transitioned)

/-- The transaction of `rejectRequest`. -/
def rejectTransaction (reason : String) (c : Call) : Tx Unit := do
  let _ ← transitionRequest c.id .rejected c.request.version
    { rejectionReason := some reason, managerId := some c.caller.employeeId }
  releaseReserved c.request.toBalanceKey c.request.daysRequested

/-- The transaction of `cancelRequest`. The days are released before the
    transition is checked. -/
def cancelTransaction (now : Instant) (c : Call) : Tx Unit := do
  if c.request.status = .approvedPendingHcm then
    execute fun db => db.insertEvent (reverseEvent now c.id)
  releaseReserved c.request.toBalanceKey c.request.daysRequested
  let _ ← transitionRequest c.id .cancelled c.request.version {}

/-- The transaction of a call. -/
def Call.transaction (now : Instant) (c : Call) : Tx Unit :=
  match c.kind with
  | .approve => approveTransaction now c
  | .reject reason => rejectTransaction reason c
  | .cancel => cancelTransaction now c

/-! ## Callbacks of the outbox processor -/

/-- `completeDeductionFromOutbox` -/
def completeDeductionFromOutbox (requestId : ℕ) (hcmRequestId : String) : Tx TimeOffRequest := do
  let request ← findOrFail requestId
  if request.status = .approved then
    pure request
  else if request.status = .cancelled then do
    execute fun db => db.updateRequest requestId (·.stamp hcmRequestId)
    findOrFail requestId
  else do
    let updatedRequest ← transitionRequest requestId .approved request.version
      { hcmRequestId := some hcmRequestId }
    confirmDeduction updatedRequest.toBalanceKey updatedRequest.daysRequested
    pure updatedRequest

/-- `failRequestFromOutbox` -/
def failRequestFromOutbox (requestId : ℕ) : Tx TimeOffRequest := do
  let request ← findOrFail requestId
  if request.status = .failed ∨ request.status = .cancelled ∨ request.status = .approved then
    pure request
  else
    transitionRequest requestId .failed request.version {}

end TimeOff
