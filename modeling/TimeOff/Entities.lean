import Mathlib.Data.Rat.Defs
import TimeOff.Dates
import TimeOff.Lib.Table
import TimeOff.Lib.Transaction

/-!
# Entities

The rows of the database, the errors of the service, and its transactions.

The id of a row is its key in the table (rows are inserted with `AUTOINCREMENT`
and never deleted), so it is not a column. `leave_balances` has a `UNIQUE` key
besides, the `BalanceKey` of employee, location and leave type. An optional
column that may be `NULL` is an `Option`.

Days are `decimal` columns, and they are doubles where the service and SQLite
reckon with them. Here they are rationals, `ℚ`. Where a result depends on what
is lost by this, the functions are taken with their rounding
(`TimeOff.Lib.Rounding`).
-/

namespace TimeOff

/-- `RequestStatus` -/
inductive RequestStatus
  | pending
  | approvedPendingHcm
  | approved
  | rejected
  | cancelled
  | failed
  deriving DecidableEq, Repr

/-- The status as it is stored and printed. -/
def RequestStatus.text : RequestStatus → String
  | .pending => "PENDING"
  | .approvedPendingHcm => "APPROVED_PENDING_HCM"
  | .approved => "APPROVED"
  | .rejected => "REJECTED"
  | .cancelled => "CANCELLED"
  | .failed => "FAILED"

/-- `OutboxEventType` -/
inductive OutboxEventType
  | hcmDeduct
  | hcmReverse
  deriving DecidableEq, Repr

/-- `OutboxEventStatus` -/
inductive OutboxEventStatus
  | pending
  | processing
  | done
  | failed
  deriving DecidableEq, Repr

/-- The status as it is stored and printed. -/
def OutboxEventStatus.text : OutboxEventStatus → String
  | .pending => "PENDING"
  | .processing => "PROCESSING"
  | .done => "DONE"
  | .failed => "FAILED"

/-- `RequestUser['role']` -/
inductive Role
  | employee
  | manager
  | admin
  deriving DecidableEq, Repr

/-- `RequestUser`: who calls the service, from the headers of the call. -/
structure RequestUser where
  employeeId : ℕ
  role : Role
  locationId : Option String

/-- What a balance is kept for. -/
@[ext] structure BalanceKey where
  employeeId : ℕ
  locationId : String
  leaveType : String
  deriving DecidableEq, Repr

/-- `Employee`, the columns that are read here. -/
structure Employee where
  name : String
  locationId : String

/-- `LeaveBalance` -/
structure LeaveBalance extends BalanceKey where
  totalDays : ℚ
  usedDays : ℚ
  reservedDays : ℚ
  lastSyncedAt : Option Instant
  hcmVersion : Option String
  version : ℕ

/-- `TimeOffRequest` -/
structure TimeOffRequest extends BalanceKey where
  startDate : DateString
  endDate : DateString
  daysRequested : ℚ
  status : RequestStatus
  managerId : Option ℕ
  rejectionReason : Option String
  hcmRequestId : Option String
  version : ℕ

/-- `DeductPayload` -/
structure DeductPayload extends BalanceKey where
  days : ℚ

/-- `OutboxEvent`. The payload is a JSON object: that of a deduction, or `{}`. -/
structure OutboxEvent where
  eventType : OutboxEventType
  payload : Option DeductPayload
  status : OutboxEventStatus
  attempts : ℕ
  nextRetryAt : Option Instant
  requestId : ℕ
  createdAt : Instant

/-- `leave_balances` -/
abbrev Balances := KeyedTable LeaveBalance LeaveBalance.toBalanceKey

/-- The tables of the service. -/
structure Database where
  employees : Table Employee
  balances : Balances
  requests : Table TimeOffRequest
  outbox : Table OutboxEvent

namespace Database

/-- `UPDATE leave_balances ... WHERE` the key of the row is `key`. -/
def updateBalance (db : Database) (key : BalanceKey) (f : LeaveBalance → LeaveBalance)
    (hf : ∀ b, (f b).toBalanceKey = b.toBalanceKey) : Database :=
  { db with balances := db.balances.updateKey key f hf }

/-- `INSERT INTO time_off_requests` -/
def insertRequest (db : Database) (r : TimeOffRequest) : Database :=
  { db with requests := db.requests.insert r }

/-- `UPDATE time_off_requests ... WHERE id = id` -/
def updateRequest (db : Database) (id : ℕ) (f : TimeOffRequest → TimeOffRequest) : Database :=
  { db with requests := db.requests.update id f }

/-- `INSERT INTO outbox_events` -/
def insertEvent (db : Database) (e : OutboxEvent) : Database :=
  { db with outbox := db.outbox.insert e }

/-- `UPDATE outbox_events ... WHERE id = id` -/
def updateEvent (db : Database) (id : ℕ) (f : OutboxEvent → OutboxEvent) : Database :=
  { db with outbox := db.outbox.update id f }

section
variable (db : Database) (key : BalanceKey) (id : ℕ) (f : LeaveBalance → LeaveBalance)
  (hf : ∀ b, (f b).toBalanceKey = b.toBalanceKey) (r : TimeOffRequest)
  (g : TimeOffRequest → TimeOffRequest) (e : OutboxEvent) (k : OutboxEvent → OutboxEvent)

@[simp] theorem balances_updateBalance :
    (db.updateBalance key f hf).balances = db.balances.updateKey key f hf := rfl
@[simp] theorem requests_updateBalance :
    (db.updateBalance key f hf).requests = db.requests := rfl
@[simp] theorem outbox_updateBalance :
    (db.updateBalance key f hf).outbox = db.outbox := rfl
@[simp] theorem balances_insertRequest :
    (db.insertRequest r).balances = db.balances := rfl
@[simp] theorem requests_insertRequest :
    (db.insertRequest r).requests = db.requests.insert r := rfl
@[simp] theorem outbox_insertRequest : (db.insertRequest r).outbox = db.outbox := rfl
@[simp] theorem balances_updateRequest :
    (db.updateRequest id g).balances = db.balances := rfl
@[simp] theorem requests_updateRequest :
    (db.updateRequest id g).requests = db.requests.update id g := rfl
@[simp] theorem outbox_updateRequest :
    (db.updateRequest id g).outbox = db.outbox := rfl
@[simp] theorem balances_insertEvent : (db.insertEvent e).balances = db.balances := rfl
@[simp] theorem requests_insertEvent : (db.insertEvent e).requests = db.requests := rfl
@[simp] theorem outbox_insertEvent :
    (db.insertEvent e).outbox = db.outbox.insert e := rfl
@[simp] theorem balances_updateEvent :
    (db.updateEvent id k).balances = db.balances := rfl
@[simp] theorem requests_updateEvent :
    (db.updateEvent id k).requests = db.requests := rfl
@[simp] theorem outbox_updateEvent :
    (db.updateEvent id k).outbox = db.outbox.update id k := rfl

end

end Database

/-- The errors the service throws, with the values in their messages. -/
inductive ServiceError
  | badRequest (message : String)
  | forbidden (message : String)
  | notFound (message : String)
  | conflict (message : String)
  /-- 422: `No leave balance record found for employee .., location .., type ..` -/
  | noBalanceRecord (key : BalanceKey)
  /-- 422: `Insufficient balance. Requested: .., available: ..` -/
  | insufficientBalance (requested effectiveAvailable : ℚ)
  /-- 409: `Balance reservation failed after .. attempts. Current effective balance: ..` -/
  | reservationFailed (attempts : ℕ) (effectiveAvailable : ℚ)
  /-- A `FOREIGN KEY` constraint of the database. -/
  | foreignKey (message : String)
  /-- A commit or a rollback without a transaction: `TransactionNotStartedError`. -/
  | transactionNotStarted
  /-- Whatever else the database throws. -/
  | database (message : String)

/-! ## Transactions -/

/-- The state of a transaction: the database as it sees it, and whether a
    `MAX(0, reserved_days - days)` it has executed was cut off at `0`, below
    which it would have gone. -/
structure Session where
  db : Database
  clamped : Bool

/-- The code between `startTransaction` and `commitTransaction`. -/
abbrev Tx (α : Type) := EStateM ServiceError Session α

/-- A statement that changes the database. -/
def execute (f : Database → Database) : Tx Unit := modify fun s => { s with db := f s.db }

/-- A transaction starts on the committed database. -/
def Session.start (db : Database) : Session := ⟨db, false⟩

/-- The database after a transaction. It is the one before if it throws. -/
def transaction {α : Type} (x : Tx α) (db : Database) : Database :=
  (Transaction.atomically x (.start db)).2.db

theorem execute_ok {f : Database → Database} {s s' : Session} {u : Unit}
    (h : (execute f).run s = .ok u s') : s'.db = f s.db ∧ s'.clamped = s.clamped := by
  rw [execute, Transaction.modify_eq_ok] at h
  exact ⟨by rw [← h], by rw [← h]⟩

/-- A transaction commits what it has written, or it throws and nothing is
    written. -/
theorem transaction_cases {α : Type} (x : Tx α) (db : Database) :
    (∃ a t, x.run (.start db) = .ok a t ∧ transaction x db = t.db) ∨
      (∃ e t, x.run (.start db) = .error e t ∧ transaction x db = db) := by
  rcases Transaction.atomically_snd (x := x) (s := .start db) rfl with ⟨a, ha⟩ | ⟨e, t, he, hs⟩
  · exact .inl ⟨a, _, ha, rfl⟩
  · exact .inr ⟨e, t, he, by rw [transaction, hs]; rfl⟩

end TimeOff
