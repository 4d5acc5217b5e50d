import Mathlib.Data.List.Sort
import TimeOff.Hcm
import TimeOff.Request.Effects

/-!
# The outbox

`OutboxProcessor` and `OutboxController.retry`. A tick fetches the events that
are due, at most ten, and processes them one after the other: it *claims* an
event by setting its status to `PROCESSING` if it is still `PENDING`, and runs
`processEvent` on the copy it has fetched. Such a run is a *handler*
(`Handler`). It stops between its database statements and its calls of the
HCM, and is over with the last statement it executes.

A call of the HCM may take effect and be answered, take effect and have its
answer lost, or fail without effect (`Outcome`); a database statement or a
local transaction takes effect or throws.

`Handled` lists everything that one step of a handler can do.
-/

namespace TimeOff

open Transaction

/-- The configuration that the service reads. -/
structure Config where
  /-- `HCM_MAX_RETRIES` -/
  hcmMaxRetries : ℕ
  /-- `NODE_ENV === 'test'` -/
  isTest : Bool
  /-- The offset of the local time of the server from UTC, in milliseconds. -/
  utcOffset : ℤ

/-- `BACKOFF_SECONDS` -/
def backoffSeconds : List ℤ := [0, 30, 300, 1800]

/-- `calculateNextRetryAt`. `setSeconds` sets the local time of the server, whose
    offset from UTC does not change: the delay is added. -/
def calculateNextRetryAt (cfg : Config) (now : Instant) (attempts : ℕ) : Instant :=
  now + 1000 *
    if cfg.isTest then 0 else backoffSeconds.getD attempts (backoffSeconds.getLastD 0)

/-- `shouldMarkFailed` -/
def shouldMarkFailed (cfg : Config) (attempts : ℕ) : Bool := attempts ≥ cfg.hcmMaxRetries

namespace OutboxEvent

/-- The condition by which a tick selects events. -/
def isDue (now : Instant) (e : OutboxEvent) : Bool :=
  e.status = .pending && e.nextRetryAt.all (· ≤ now)

/-- An update of the status alone. -/
def setStatus (status : OutboxEventStatus) (e : OutboxEvent) : OutboxEvent :=
  { e with status := status }

/-- The `SET` of `handleEventFailure` when the retries are exhausted. -/
def exhaust (attempts : ℕ) (e : OutboxEvent) : OutboxEvent :=
  { e with status := .failed, attempts := attempts }

/-- The `SET` of `handleEventFailure` otherwise. -/
def reschedule (attempts : ℕ) (nextRetryAt : Instant) (e : OutboxEvent) : OutboxEvent :=
  { e with status := .pending, attempts := attempts, nextRetryAt := some nextRetryAt }

/-- The `SET` of `OutboxController.retry`. -/
def requeue (now : Instant) (e : OutboxEvent) : OutboxEvent :=
  { e with status := .pending, nextRetryAt := some now }

end OutboxEvent

/-- The `find` of a tick: the due events, the oldest first, at most ten. -/
def fetchDue (db : Database) (now : Instant) : List (ℕ × OutboxEvent) :=
  ((db.outbox.rows.filter (·.2.isDue now)).insertionSort
    (·.2.createdAt ≤ ·.2.createdAt)).take 10

/-- The claim of a tick on an event: `none` if it is not `PENDING`. -/
def claimEvent (db : Database) (id : ℕ) : Option Database :=
  (db.outbox.updateIf id (·.status = .pending) (·.setStatus .processing)).map
    ({ db with outbox := · })

/-! ## Handlers -/

/-- Where a handler is: what it is about to do. -/
inductive Phase
  /-- Calling `hcmClient.deductBalance`. -/
  | deductBalance
  /-- Running the transaction of `processDeductEvent`. -/
  | completeDeduction (hcmRequestId : String)
  /-- Selecting the `hcm_request_id` of `processReverseEvent`. -/
  | readHcmRequestId
  /-- Calling `hcmClient.reverseDeduction`. -/
  | reverseDeduction (hcmRequestId : String)
  /-- Setting the status to `DONE` after a reversal. -/
  | markDone
  /-- Running `handleEventFailure`. -/
  | handleEventFailure
  deriving DecidableEq

/-- An execution of `processEvent`, on the copy of the event that was fetched. -/
structure Handler where
  id : ℕ
  event : OutboxEvent
  phase : Phase

/-- `processEvent` is called. -/
def Handler.start (id : ℕ) (event : OutboxEvent) : Handler where
  id := id
  event := event.setStatus .processing
  phase :=
    match event.eventType with
    | .hcmDeduct => .deductBalance
    | .hcmReverse => .readHcmRequestId

/-- What happens to a call of the HCM. For a step that does not call it,
    `lost` and `throws` both mean that the database throws. -/
inductive Outcome
  | ok
  | lost
  | throws
  deriving DecidableEq

/-- How a handler goes on. -/
inductive Progress
  | running (phase : Phase)
  /-- It has recorded its outcome. -/
  | finished
  /-- `handleEventFailure` has thrown, out of the tick. -/
  | aborted

/-- After a call of the HCM that took effect: `phase` if it is answered. -/
def respond (o : Outcome) (phase : Phase) : Progress :=
  .running (if o = .ok then phase else .handleEventFailure)

/-- The transaction of `processDeductEvent`. -/
def deductTransaction (id : ℕ) (event : OutboxEvent) (hcmRequestId : String) : Tx Unit := do
  let _ ← completeDeductionFromOutbox event.requestId hcmRequestId
  execute fun db => db.updateEvent id (·.setStatus .done)

/-- `handleEventFailure` -/
def handleEventFailure (cfg : Config) (now : Instant) (id : ℕ) (event : OutboxEvent) :
    Tx Unit :=
  let newAttempts := event.attempts + 1
  if shouldMarkFailed cfg newAttempts then
    match event.eventType with
    | .hcmDeduct => do
      execute fun db => db.updateEvent id (·.exhaust newAttempts)
      let _ ← failRequestFromOutbox event.requestId
    | .hcmReverse => execute fun db => db.updateEvent id (·.exhaust newAttempts)
  else
    execute fun db =>
      db.updateEvent id (·.reschedule newAttempts (calculateNextRetryAt cfg now newAttempts))

namespace Handler

/-- The call of `hcmClient.deductBalance`. A deduction without a payload has
    no balance at the HCM. -/
def callDeduct (now : Instant) (hcm : HcmState) (h : Handler) (o : Outcome) :
    HcmState × Progress :=
  match h.event.payload with
  | none => (hcm, .running .handleEventFailure)
  | some p =>
    match hcm.deductBalance p.toBalanceKey p.days (some (idempotencyKey h.id)) now with
    | .ok (hcmRequestId, hcm') => (hcm', respond o (.completeDeduction hcmRequestId))
    | .error _ => (hcm, .running .handleEventFailure)

/-- The call of `hcmClient.reverseDeduction`, for which 404 is a success. -/
def callReverse (hcm : HcmState) (hcmRequestId : String) (o : Outcome) : HcmState × Progress :=
  match hcm.reverseDeduction hcmRequestId with
  | .ok hcm' => (hcm', respond o .markDone)
  | .error (.notFound _) => (hcm, respond o .markDone)
  | .error (.unprocessable _) => (hcm, .running .handleEventFailure)

/-- The `hcm_request_id` that `processReverseEvent` finds, if it is set. -/
def selectHcmRequestId (db : Database) (h : Handler) : Option String :=
  HcmState.truthy ((db.requests.get h.event.requestId).bind (·.hcmRequestId))

/-- One step of a handler. -/
def step (cfg : Config) (now : Instant) (db : Database) (hcm : HcmState) (h : Handler)
    (o : Outcome) : Database × HcmState × Progress :=
  match h.phase with
  | .deductBalance =>
    if o = .throws then (db, hcm, .running .handleEventFailure) else (db, h.callDeduct now hcm o)
  | .completeDeduction hcmRequestId =>
    if o ≠ .ok then (db, hcm, .running .handleEventFailure)
    else
      match (deductTransaction h.id h.event hcmRequestId).run (.start db) with
      | .ok _ t => (t.db, hcm, .finished)
      | .error _ _ => (db, hcm, .running .handleEventFailure)
  | .readHcmRequestId =>
    if o ≠ .ok then (db, hcm, .running .handleEventFailure)
    else
      match h.selectHcmRequestId db with
      | some hcmRequestId => (db, hcm, .running (.reverseDeduction hcmRequestId))
      | none => (db, hcm, .running .handleEventFailure)
  | .reverseDeduction hcmRequestId =>
    if o = .throws then (db, hcm, .running .handleEventFailure)
    else (db, callReverse hcm hcmRequestId o)
  | .markDone =>
    if o ≠ .ok then (db, hcm, .running .handleEventFailure)
    else (db.updateEvent h.id (·.setStatus .done), hcm, .finished)
  | .handleEventFailure =>
    if o ≠ .ok then (db, hcm, .aborted)
    else
      match (handleEventFailure cfg now h.id h.event).run (.start db) with
      | .ok _ t => (t.db, hcm, .finished)
      | .error _ _ => (db, hcm, .aborted)

end Handler

/-- What a step of the handler `h` can do to the database and to the HCM, and
    how it goes on. -/
inductive Handled (cfg : Config) (now : Instant) (db : Database) (hcm : HcmState) (h : Handler) :
    Database → HcmState → Progress → Prop
  /-- Something fails before it has an effect. -/
  | threw : h.phase ≠ .handleEventFailure →
      Handled cfg now db hcm h db hcm (.running .handleEventFailure)
  | deducted {p : DeductPayload} {hcmRequestId : String} {hcm' : HcmState} (o : Outcome) :
      h.phase = .deductBalance → h.event.payload = some p →
      hcm.deductBalance p.toBalanceKey p.days (some (idempotencyKey h.id)) now =
        .ok (hcmRequestId, hcm') →
      Handled cfg now db hcm h db hcm' (respond o (.completeDeduction hcmRequestId))
  | completed {hcmRequestId : String} {t : Session} :
      h.phase = .completeDeduction hcmRequestId →
      (deductTransaction h.id h.event hcmRequestId).run (.start db) = .ok () t →
      Handled cfg now db hcm h t.db hcm .finished
  | selected {r : TimeOffRequest} {hcmRequestId : String} :
      h.phase = .readHcmRequestId → db.requests.get h.event.requestId = some r →
      r.hcmRequestId = some hcmRequestId →
      Handled cfg now db hcm h db hcm (.running (.reverseDeduction hcmRequestId))
  | reversed {hcmRequestId : String} {hcm' : HcmState} (o : Outcome) :
      h.phase = .reverseDeduction hcmRequestId → hcm.reverseDeduction hcmRequestId = .ok hcm' →
      Handled cfg now db hcm h db hcm' (respond o .markDone)
  /-- The HCM does not know the deduction: it has been reversed. -/
  | absent {hcmRequestId : String} {e : HcmError} (o : Outcome) :
      h.phase = .reverseDeduction hcmRequestId → hcm.reverseDeduction hcmRequestId = .error e →
      Handled cfg now db hcm h db hcm (respond o .markDone)
  | marked : h.phase = .markDone →
      Handled cfg now db hcm h (db.updateEvent h.id (·.setStatus .done)) hcm .finished
  | recorded {t : Session} : h.phase = .handleEventFailure →
      (handleEventFailure cfg now h.id h.event).run (.start db) = .ok () t →
      Handled cfg now db hcm h t.db hcm .finished
  | aborted : h.phase = .handleEventFailure → Handled cfg now db hcm h db hcm .aborted

variable {cfg : Config} {now : Instant} {db db' : Database} {hcm hcm' : HcmState} {h : Handler}
  {o : Outcome} {p : Progress}

/-- A call of the HCM goes on as it has been answered, or fails. -/
theorem respond_eq_running {phase phase' : Phase} (hp : respond o phase' = .running phase) :
    phase = phase' ∨ phase = .handleEventFailure := by
  obtain rfl := Progress.running.inj hp
  split
  · exact .inl rfl
  · exact .inr rfl

/-- Only `handleEventFailure` aborts. -/
theorem Handled.phase_eq (hh : Handled cfg now db hcm h db' hcm' p) (hp : p = .aborted) :
    h.phase = .handleEventFailure := by
  cases hh with
  | aborted hphase => exact hphase
  | _ => cases hp

/-- A call of the deduction is answered, or it has thrown. -/
theorem Handler.callDeduct_handled (hphase : h.phase = .deductBalance)
    (hcall : h.callDeduct now hcm o = (hcm', p)) : Handled cfg now db hcm h db hcm' p := by
  have hne : h.phase ≠ .handleEventFailure := by rw [hphase]; nofun
  rw [callDeduct] at hcall
  split at hcall
  · cases hcall
    exact .threw hne
  · next p hp =>
    split at hcall <;> cases hcall
    · next hd => exact .deducted o hphase hp hd
    · exact .threw hne

/-- So is a call of the reversal. -/
theorem Handler.callReverse_handled {hcmRequestId : String}
    (hphase : h.phase = .reverseDeduction hcmRequestId)
    (hcall : callReverse hcm hcmRequestId o = (hcm', p)) :
    Handled cfg now db hcm h db hcm' p := by
  rw [callReverse] at hcall
  split at hcall <;> cases hcall
  · next hr => exact .reversed o hphase hr
  · next hr => exact .absent o hphase hr
  · exact .threw (by rw [hphase]; nofun)

theorem Handler.selectHcmRequestId_eq_some {hcmRequestId : String}
    (hsel : h.selectHcmRequestId db = some hcmRequestId) :
    ∃ r, db.requests.get h.event.requestId = some r ∧ r.hcmRequestId = some hcmRequestId := by
  obtain ⟨hbind, _⟩ := HcmState.truthy_eq_some.1 hsel
  exact Option.bind_eq_some_iff.1 hbind

/-- Every step of a handler is one of the list. -/
theorem Handler.step_handled (hstep : h.step cfg now db hcm o = (db', hcm', p)) :
    Handled cfg now db hcm h db' hcm' p := by
  -- One case for each phase, in the order of the definition. In each of them the call or
  -- the statement fails, or it is carried out: these are the constructors.
  rw [step] at hstep
  split at hstep
  · next hphase =>
    split at hstep <;> obtain ⟨rfl, hrest⟩ := Prod.mk.inj hstep
    · obtain ⟨rfl, rfl⟩ := Prod.mk.inj hrest
      exact .threw (by rw [hphase]; nofun)
    · exact callDeduct_handled hphase hrest
  · next hcmRequestId hphase =>
    have hthrew : Handled cfg now db hcm h db hcm (.running .handleEventFailure) :=
      .threw (by rw [hphase]; nofun)
    split at hstep
    · -- A statement that throws: the catch block is next.
      cases hstep
      exact hthrew
    · split at hstep <;> cases hstep
      · next hrun => exact .completed hphase hrun
      · exact hthrew
  · next hphase =>
    have hthrew : Handled cfg now db hcm h db hcm (.running .handleEventFailure) :=
      .threw (by rw [hphase]; nofun)
    split at hstep
    · cases hstep
      exact hthrew
    · split at hstep <;> cases hstep
      · next hsel =>
        obtain ⟨r, hr, hid⟩ := selectHcmRequestId_eq_some hsel
        exact .selected hphase hr hid
      · exact hthrew
  · next hcmRequestId hphase =>
    split at hstep <;> obtain ⟨rfl, hrest⟩ := Prod.mk.inj hstep
    · obtain ⟨rfl, rfl⟩ := Prod.mk.inj hrest
      exact .threw (by rw [hphase]; nofun)
    · exact callReverse_handled hphase hrest
  · next hphase =>
    split at hstep <;> cases hstep
    · exact .threw (by rw [hphase]; nofun)
    · exact .marked hphase
  · next hphase =>
    split at hstep
    · cases hstep
      exact .aborted hphase
    · split at hstep <;> cases hstep
      · next hrun => exact .recorded hphase hrun
      · exact .aborted hphase

/-! ## What the transactions of a handler do -/

section
variable {s s' : Session} {id : ℕ} {event : OutboxEvent} {u : Unit}

/-- If the transaction commits, then the completion went through and the event is
    `DONE`. -/
theorem deductTransaction_ok {hcmRequestId : String}
    (hrun : (deductTransaction id event hcmRequestId).run s = .ok u s') :
    ∃ r t, (completeDeductionFromOutbox event.requestId hcmRequestId).run s = .ok r t ∧
      s'.db = t.db.updateEvent id (·.setStatus .done) ∧ s'.clamped = t.clamped := by
  rw [deductTransaction, bind_eq_ok] at hrun
  obtain ⟨r, t, hcomplete, hrun⟩ := hrun
  obtain ⟨hdb, hcl⟩ := execute_ok hrun
  exact ⟨r, t, hcomplete, hdb, hcl⟩

/-- A recorded failure reschedules the event, or gives it up; if it was a
    deduction, its request is failed in the same transaction. -/
theorem handleEventFailure_ok
    (hrun : (handleEventFailure cfg now id event).run s = .ok u s') :
    (shouldMarkFailed cfg (event.attempts + 1) = false ∧
      s'.db = s.db.updateEvent id (·.reschedule (event.attempts + 1)
        (calculateNextRetryAt cfg now (event.attempts + 1)))) ∨
    (shouldMarkFailed cfg (event.attempts + 1) = true ∧ event.eventType = .hcmReverse ∧
      s'.db = s.db.updateEvent id (·.exhaust (event.attempts + 1))) ∨
    (shouldMarkFailed cfg (event.attempts + 1) = true ∧ event.eventType = .hcmDeduct ∧
      ∃ r t, (failRequestFromOutbox event.requestId).run t = .ok r s' ∧
        t.db = s.db.updateEvent id (·.exhaust (event.attempts + 1))) := by
  rw [handleEventFailure] at hrun
  split at hrun
  · next hfail =>
    split at hrun
    · next htype =>
      rw [bind_eq_ok] at hrun
      obtain ⟨_, t, hexec, hrun⟩ := hrun
      rw [bind_eq_ok] at hrun
      obtain ⟨r, t', hfailed, hrun⟩ := hrun
      obtain ⟨_, rfl⟩ := pure_eq_ok.1 hrun
      exact .inr (.inr ⟨hfail, htype, r, t, hfailed, (execute_ok hexec).1⟩)
    · next htype => exact .inr (.inl ⟨hfail, htype, (execute_ok hrun).1⟩)
  · next hretry => exact .inl ⟨eq_false_of_ne_true hretry, (execute_ok hrun).1⟩

end

end TimeOff
