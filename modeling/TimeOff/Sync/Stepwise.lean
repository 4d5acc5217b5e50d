import TimeOff.Lib.Connection
import TimeOff.Lib.Script
import TimeOff.Sync

/-!
# Syncs, statement by statement

The syncs again, as scripts (`SyncSteps`) on the connection to the database,
with what they write to `sync_log`, the transaction of a batch, and the errors
that they handle. The labels of a script are its statements, its transaction
calls and its calls of the HCM (`SyncStatement`), each of which may be made to
throw, and the warnings that it logs.

* `processBatchPayload`: one transaction, and one `catch` for whatever the loop,
  the commit, or the update of the log after it throws;
* `processWebhookPayload`: three statements or four, without a transaction;
* `triggerReconciliation`: the rows are selected, and each is fetched and saved;
  what this throws is logged, and the loop goes on.

Left to themselves, their loops do what the transactions of `TimeOff.Sync` do
(`processRecords_agrees`, `reconcileBalances_agrees`).
-/

namespace TimeOff

open Transaction Script

/-- `SyncType` -/
inductive SyncType
  | batch
  | webhook
  | scheduled
  deriving DecidableEq

/-- `SyncLogStatus` -/
inductive SyncLogStatus
  | started
  | done
  | failed
  deriving DecidableEq

/-- `SyncLog` -/
structure SyncLog where
  syncType : SyncType
  triggeredBy : String
  status : SyncLogStatus
  recordsProcessed : ℕ
  discrepancies : ℕ
  /-- The error whose message is stored. -/
  errorDetail : Option ServiceError
  startedAt : Instant
  completedAt : Option Instant

namespace SyncLog

/-- The row of a sync that starts. -/
def start (syncType : SyncType) (now : Instant) : SyncLog where
  syncType := syncType
  triggeredBy := "SYSTEM"
  status := .started
  recordsProcessed := 0
  discrepancies := 0
  errorDetail := none
  startedAt := now
  completedAt := none

/-- The update of a sync that is over. -/
def finish (now : Instant) (report : SyncReport) (l : SyncLog) : SyncLog :=
  { l with
    status := .done
    recordsProcessed := report.recordsProcessed
    discrepancies := report.discrepancies
    completedAt := some now }

/-- The update of a sync that has failed. -/
def fail (now : Instant) (err : ServiceError) (l : SyncLog) : SyncLog :=
  { l with status := .failed, errorDetail := some err, completedAt := some now }

end SyncLog

/-- The tables that a sync reads and writes. -/
structure SyncData where
  db : Database
  syncLog : Table SyncLog

namespace SyncData

/-- `INSERT INTO sync_log` -/
def insertLog (log : SyncLog) (d : SyncData) : SyncData :=
  { d with syncLog := d.syncLog.insert log }

/-- `UPDATE sync_log ... WHERE id = id` -/
def updateLog (id : ℕ) (f : SyncLog → SyncLog) (d : SyncData) : SyncData :=
  { d with syncLog := d.syncLog.update id f }

end SyncData

/-- What a sync waits for. -/
inductive SyncStatement
  | insertLog
  | startTransaction
  /-- The `findOne` for the record `i` of a batch, or for a webhook. -/
  | findOne (i : ℕ)
  /-- The `find` of `flagActiveRequests` for the record `i`. -/
  | findActive (i : ℕ)
  /-- The `save` for the record `i`, or of the row `i` of a reconciliation. -/
  | save (i : ℕ)
  | commitTransaction
  | markDone
  | rollbackTransaction
  | markFailed
  | findStale
  | findActiveRequests
  | findActiveBalances
  /-- The call of `hcmClient.getBalance` for the row `id`. -/
  | getBalance (id : ℕ)
  deriving DecidableEq

/-- The warnings of a sync, with the values in their texts. -/
inductive SyncWarning
  /-- `Discrepancy for employee ..: HCM total .. < used(..) + reserved(..)` -/
  | discrepancy (employeeId : ℕ) (totalDays usedDays reservedDays : ℚ)
  /-- `Webhook discrepancy for employee ..: new total .. < used(..) + reserved(..)` -/
  | webhookDiscrepancy (employeeId : ℕ) (totalDays usedDays reservedDays : ℚ)
  /-- `Flagging .. active request(s) for employee ..: ids=[..]` -/
  | flagging (ids : List ℕ) (employeeId : ℕ)

/-- What a sync does one after the other. -/
inductive SyncLabel
  | statement (st : SyncStatement)
  | warn (w : SyncWarning)

/-- A sync under way. -/
abbrev SyncSteps (α : Type) := Script SyncLabel (Connection SyncData) ServiceError α

/-- The `PENDING` and `APPROVED_PENDING_HCM` requests of an employee. -/
def activeRequests (db : Database) (employeeId : ℕ) : List ℕ :=
  (db.requests.rows.filter fun r => r.2.employeeId = employeeId &&
    (r.2.status = .pending || r.2.status = .approvedPendingHcm)).map Prod.fst

/-- A round of the loop has found a discrepancy, or none. -/
def SyncReport.count (isDiscrepancy : Bool) (r : SyncReport) : SyncReport :=
  { r with discrepancies := if isDiscrepancy then r.discrepancies + 1 else r.discrepancies }

/-- A round of the loop has saved its row. -/
def SyncReport.process (r : SyncReport) : SyncReport :=
  { r with recordsProcessed := r.recordsProcessed + 1 }

namespace SyncSteps

/-! ## Statements -/

/-- `qr.startTransaction` -/
def startTransaction : SyncSteps Unit :=
  write (.statement .startTransaction) fun c => some c.startTransaction

/-- `qr.commitTransaction`, which throws if no transaction is open. -/
def commitTransaction : SyncSteps Unit :=
  perform (.statement .commitTransaction) fun c =>
    c.commitTransaction.elim (.error .transactionNotStarted) .ok

/-- `qr.rollbackTransaction`, which throws so, too. -/
def rollbackTransaction : SyncSteps Unit :=
  perform (.statement .rollbackTransaction) fun c =>
    c.rollbackTransaction.elim (.error .transactionNotStarted) .ok

/-- `syncLogRepo.save`, for the id of the row. -/
def insertLog (log : SyncLog) : SyncSteps ℕ := do
  let c ← Script.execute (.statement .insertLog) fun c => .ok (some (c.modify (·.insertLog log)))
  pure c.data.syncLog.nextId

/-- `syncLogRepo.update` -/
def updateLog (st : SyncStatement) (id : ℕ) (f : SyncLog → SyncLog) : SyncSteps Unit :=
  write (.statement st) fun c => some (c.modify (·.updateLog id f))

/-- `logger.warn` -/
def warn (w : SyncWarning) : SyncSteps Unit := write (.warn w) fun _ => none

/-- `findOne` of the row of the key. -/
def findOne (i : ℕ) (key : BalanceKey) : SyncSteps (Option (ℕ × LeaveBalance)) :=
  query (.statement (.findOne i)) (·.data.db.balances.lookup key)

/-- `save` of the row `id`. -/
def saveBalance (i id : ℕ) (entity : LeaveBalance) : SyncSteps Unit :=
  write (.statement (.save i)) fun c =>
    some (c.modify fun d => { d with db := d.db.saveBalance id entity })

/-- `save` of a new row. -/
def createBalance (i : ℕ) (b : LeaveBalance) : SyncSteps Unit :=
  perform (.statement (.save i)) fun c =>
    if (c.data.db.employees.get b.employeeId).isNone then
      .error (.foreignKey s!"employee_id {b.employeeId}")
    else .ok (c.modify fun d => { d with db := d.db.createBalance b })

/-- `flagActiveRequests` -/
def flagActiveRequests (i employeeId : ℕ) : SyncSteps Unit := do
  let active ← query (.statement (.findActive i)) fun c => activeRequests c.data.db employeeId
  if active ≠ [] then warn (.flagging active employeeId)

/-- A discrepancy is logged, and the requests it concerns are flagged. -/
def reportDiscrepancy (i employeeId : ℕ) (isDiscrepancy : Bool) (w : SyncWarning) :
    SyncSteps Unit :=
  if isDiscrepancy then do
    warn w
    flagActiveRequests i employeeId
  else pure ()

/-! ## Batches -/

/-- One round of the loop of `processBatchPayload`. -/
def processRecord (now : Instant) (i : ℕ) (r : BatchRecord) (discrepancies : ℕ) :
    SyncSteps ℕ := do
  match ← findOne i r.toBalanceKey with
  | none =>
    createBalance i (r.balance now)
    pure discrepancies
  | some (id, b) =>
    let isDiscrepancy := detectDiscrepancy r.totalDays b.usedDays b.reservedDays
    reportDiscrepancy i r.employeeId isDiscrepancy
      (.discrepancy r.employeeId r.totalDays b.usedDays b.reservedDays)
    saveBalance i id (b.merge now r.totalDays r.hcmVersion)
    pure (if isDiscrepancy then discrepancies + 1 else discrepancies)

/-- The loop of `processBatchPayload`, from the record `i` on. -/
def processRecords (now : Instant) : ℕ → List BatchRecord → ℕ → SyncSteps ℕ
  | _, [], discrepancies => pure discrepancies
  | i, r :: rs, discrepancies => do
    let discrepancies ← processRecord now i r discrepancies
    processRecords now (i + 1) rs discrepancies

/-- The `try` of `processBatchPayload`. -/
def tryBatch (now : Instant) (records : List BatchRecord) (log : ℕ) : SyncSteps SyncReport := do
  let discrepancies ← processRecords now 0 records 0
  commitTransaction
  updateLog .markDone log (·.finish now ⟨records.length, discrepancies⟩)
  pure ⟨records.length, discrepancies⟩

/-- Its `catch`. -/
def catchBatch (now : Instant) (log : ℕ) (err : ServiceError) : SyncSteps SyncReport := do
  rollbackTransaction
  updateLog .markFailed log (·.fail now err)
  throw err

/-- `processBatchPayload` -/
def processBatchPayload (now : Instant) (records : List BatchRecord) : SyncSteps SyncReport := do
  let log ← insertLog (.start .batch now)
  startTransaction
  tryCatch (tryBatch now records log) (catchBatch now log)

/-! ## Webhooks -/

/-- `processWebhookPayload` -/
def processWebhookPayload (now : Instant) (payload : BatchRecord) : SyncSteps Unit := do
  match ← findOne 0 payload.toBalanceKey with
  | none => throw (.notFound (s!"No balance found for employee {payload.employeeId} at " ++
      s!"{payload.locationId}/{payload.leaveType}"))
  | some (id, b) =>
    let isDiscrepancy := detectDiscrepancy payload.totalDays b.usedDays b.reservedDays
    saveBalance 0 id (b.merge now payload.totalDays payload.hcmVersion)
    let _ ← insertLog
      ((SyncLog.start .webhook now).finish now ⟨1, if isDiscrepancy then 1 else 0⟩)
    reportDiscrepancy 0 payload.employeeId isDiscrepancy
      (.webhookDiscrepancy payload.employeeId payload.totalDays b.usedDays b.reservedDays)

/-! ## Reconciliations -/

/-- One round of the loop of `triggerReconciliation`. A save that throws leaves
    a discrepancy counted. -/
def reconcileBalance (now : Instant) (fetch : BalanceKey → Except ServiceError HcmBalanceResponse)
    (id : ℕ) (b : LeaveBalance) (report : SyncReport) : SyncSteps SyncReport :=
  tryCatch
    (do
      let hcmData ← ask (.statement (.getBalance id)) fun _ => fetch b.toBalanceKey
      let counted := report.count (detectDiscrepancy hcmData.totalDays b.usedDays b.reservedDays)
      tryCatch
        (do
          saveBalance id id (b.merge now hcmData.totalDays hcmData.hcmVersion)
          pure counted.process)
        fun _ => pure counted)
    fun _ => pure report

/-- The loop of `triggerReconciliation`. -/
def reconcileBalances (now : Instant)
    (fetch : BalanceKey → Except ServiceError HcmBalanceResponse) :
    List (ℕ × LeaveBalance) → SyncReport → SyncSteps SyncReport
  | [], report => pure report
  | (id, b) :: rest, report => do
    let report ← reconcileBalance now fetch id b report
    reconcileBalances now fetch rest report

/-- The active balances that are not among the stale ones are added. -/
def addActive (staleBalances activeBalances : List (ℕ × LeaveBalance)) :
    List (ℕ × LeaveBalance) :=
  activeBalances.foldl
    (fun acc b => if (acc.find? (·.1 = b.1)).isNone then acc ++ [b] else acc) staleBalances

/-- The rows that `triggerReconciliation` selects. -/
def selectBalances (now : Instant) : SyncSteps (List (ℕ × LeaveBalance)) := do
  let staleBalances ← query (.statement .findStale)
    fun c => c.data.db.balances.rows.filter (·.2.isStale now)
  let activeIds ← query (.statement .findActiveRequests) fun c => activeEmployeeIds c.data.db
  if activeIds ≠ [] then
    let activeBalances ← query (.statement .findActiveBalances) fun c =>
      c.data.db.balances.rows.filter fun b => activeIds.contains b.2.employeeId
    pure (addActive staleBalances activeBalances)
  else
    pure staleBalances

/-- `triggerReconciliation` -/
def triggerReconciliation (now : Instant)
    (fetch : BalanceKey → Except ServiceError HcmBalanceResponse) : SyncSteps SyncReport := do
  let balances ← selectBalances now
  let log ← insertLog (.start .scheduled now)
  let report ← reconcileBalances now fetch balances ⟨0, 0⟩
  updateLog .markDone log (·.finish now report)
  pure report

/-! ## Left to themselves -/

/-- What a sync sees of a session, beside the log and the open transactions. -/
def viewed (log : Table SyncLog) (snapshots : List SyncData) (s : Session) :
    Connection SyncData := ⟨⟨s.db, log⟩, snapshots⟩

variable {log : Table SyncLog} {snapshots : List SyncData} {now : Instant} {s : Session}

/-- A row is created, or its employee does not exist. -/
theorem createBalance_agrees (i : ℕ) (r : BatchRecord) :
    Agrees (viewed log snapshots) s (createBalance i (r.balance now))
      (if (s.db.employees.get r.employeeId).isNone then
        throw (.foreignKey s!"employee_id {r.employeeId}")
      else TimeOff.execute fun db => db.createBalance (r.balance now)) := by
  split
  · next hnone => exact .perform_error (if_pos hnone) rfl
  · next hsome =>
    exact .perform_ok { s with db := s.db.createBalance (r.balance now) } (if_neg hsome) rfl

/-- A discrepancy is only logged. -/
theorem reportDiscrepancy_agrees (i employeeId : ℕ) (isDiscrepancy : Bool) (w : SyncWarning) :
    Agrees (viewed log snapshots) s (reportDiscrepancy i employeeId isDiscrepancy w)
      (pure ()) := by
  rw [reportDiscrepancy]
  split
  · refine .of_step s step_write rfl (.of_step s step_query rfl ?_)
    split
    · exact ⟨_, rfl⟩
    · exact .pure ()
  · exact .pure ()

theorem saveBalance_agrees (i id : ℕ) (entity : LeaveBalance) :
    Agrees (viewed log snapshots) s (saveBalance i id entity)
      (TimeOff.execute fun db => db.saveBalance id entity) := .write rfl

/-- A record of a batch. -/
theorem processRecord_agrees (i : ℕ) (r : BatchRecord) (n : ℕ) :
    Agrees (viewed log snapshots) s (processRecord now i r n)
      (syncBatchRecord now r >>= fun d => pure (if d then n + 1 else n)) := by
  rw [syncBatchRecord, bind_assoc]
  refine .query ?_
  change Agrees _ s (match s.db.balances.lookup r.toBalanceKey with
    | none => _
    | some (id, b) => _) _
  -- The record is of a row that exists, or of a new one.
  cases s.db.balances.lookup r.toBalanceKey with
  | none =>
    have hcreate : Agrees (viewed log snapshots) s (createBalance i (r.balance now)) _ :=
      createBalance_agrees i r
    dsimp only
    by_cases hnone : (s.db.employees.get r.employeeId).isNone
    · rw [if_pos hnone] at hcreate ⊢
      exact .bind (g := fun _ => pure 0) hcreate fun _ s' hthrow => absurd hthrow throw_ne_ok
    · rw [if_neg hnone] at hcreate ⊢
      rw [bind_assoc]
      exact .bind hcreate fun _ s' _ => .pure n
  | some q =>
    obtain ⟨id, b⟩ := q
    dsimp only
    rw [syncRow, bind_assoc]
    refine .pure_bind (reportDiscrepancy_agrees i _ _ _) ?_
    exact .bind (saveBalance_agrees i id _) fun _ s' _ => .pure _

/-- The loop of a batch. -/
theorem processRecords_agrees (log : Table SyncLog) (snapshots : List SyncData) (i : ℕ)
    (rs : List BatchRecord) (n : ℕ) :
    Agrees (viewed log snapshots) s (processRecords now i rs n) (syncBatchRecords now rs n) := by
  induction rs generalizing i n s with
  | nil => exact .pure n
  | cons r rs ih =>
    have hcons : syncBatchRecords now (r :: rs) n =
        (syncBatchRecord now r >>= fun d => pure (if d then n + 1 else n)) >>=
          syncBatchRecords now rs := by
      rw [syncBatchRecords, bind_assoc]
      simp only [pure_bind]
    rw [hcons]
    exact .bind (processRecord_agrees i r n) fun n' s' _ => ih (i + 1) n'

/-! ## Runs of a batch -/

variable {fault : SyncLabel → Option ServiceError} {c c' : Connection SyncData}
  {records : List BatchRecord} {l d : ℕ} {err : ServiceError} {trace : List SyncLabel}

/-- A log is inserted. -/
theorem run_insertLog (log : SyncLog) (hlog : fault (.statement .insertLog) = none) :
    (insertLog log).run fault c =
      ⟨.ok c.data.syncLog.nextId, c.modify (·.insertLog log), [.statement .insertLog]⟩ := by
  have hexecute : (Script.execute (.statement .insertLog)
      fun c => .ok (some (c.modify (·.insertLog log))) :
        SyncSteps (Connection SyncData)).run fault c
      = ⟨.ok c, c.modify (·.insertLog log), [.statement .insertLog]⟩ := by
    rw [Script.execute, run_stmt, hlog]
    rfl
  rw [insertLog, run_bind_ok hexecute]
  rfl

theorem run_startTransaction (hstart : fault (.statement .startTransaction) = none) :
    startTransaction.run fault c =
      ⟨.ok (), c.startTransaction, [.statement .startTransaction]⟩ := by
  rw [startTransaction, run_write, hstart]
  rfl

theorem run_commitTransaction (hcommit : fault (.statement .commitTransaction) = none)
    (hc : c.commitTransaction = some c') :
    commitTransaction.run fault c = ⟨.ok (), c', [.statement .commitTransaction]⟩ := by
  rw [commitTransaction, run_perform, hcommit, Option.elim_none, hc]
  rfl

theorem run_updateLog {st : SyncStatement} {f : SyncLog → SyncLog}
    (hst : fault (.statement st) = none) :
    (updateLog st l f).run fault c = ⟨.ok (), c.modify (·.updateLog l f), [.statement st]⟩ := by
  rw [updateLog, run_write, hst]
  rfl

/-- A batch comes to its `try`, and ends as this does. -/
theorem run_processBatchPayload {v : Except ServiceError SyncReport}
    (hlog : fault (.statement .insertLog) = none)
    (hstart : fault (.statement .startTransaction) = none)
    (htry : (tryCatch (tryBatch now records c.data.syncLog.nextId)
      (catchBatch now c.data.syncLog.nextId)).run fault
        (c.modify (·.insertLog (.start .batch now))).startTransaction = ⟨v, c', trace⟩) :
    (processBatchPayload now records).run fault c =
      ⟨v, c', .statement .insertLog :: .statement .startTransaction :: trace⟩ := by
  rw [processBatchPayload, run_bind_ok (run_insertLog _ hlog)]
  dsimp only
  rw [run_bind_ok (run_startTransaction hstart), htry]
  rfl

/-- The `try` of a batch whose loop returns. -/
theorem run_tryBatch (hloop : (processRecords now 0 records 0).run fault c = ⟨.ok d, c', trace⟩)
    {c'' : Connection SyncData} (hcommit : fault (.statement .commitTransaction) = none)
    (hc : c'.commitTransaction = some c'') (hdone : fault (.statement .markDone) = none) :
    (tryBatch now records l).run fault c =
      ⟨.ok ⟨records.length, d⟩, c''.modify (·.updateLog l (·.finish now ⟨records.length, d⟩)),
        trace ++ [.statement .commitTransaction, .statement .markDone]⟩ := by
  rw [tryBatch, run_bind_ok hloop, run_bind_ok (run_commitTransaction hcommit hc),
    run_bind_ok (run_updateLog hdone)]
  rfl

/-! ## Rounds of a reconciliation -/

variable {fetch : BalanceKey → Except ServiceError HcmBalanceResponse} {id : ℕ} {b : LeaveBalance}
  {report : SyncReport}

/-- The row `id` is saved. -/
def saved (id : ℕ) (entity : LeaveBalance) (c : Connection SyncData) : Connection SyncData :=
  c.modify fun d => { d with db := d.db.saveBalance id entity }

/-- What the call of the HCM for the row `id` comes to. -/
def answer (fetch : BalanceKey → Except ServiceError HcmBalanceResponse)
    (fault : SyncLabel → Option ServiceError) (id : ℕ) (b : LeaveBalance) :
    Except ServiceError HcmBalanceResponse :=
  (fault (.statement (.getBalance id))).elim (fetch b.toBalanceKey) .error

/-- A row is called for once, and saved if the HCM answers. -/
theorem run_reconcileBalance : (reconcileBalance now fetch id b report).run fault c =
    match answer fetch fault id b with
    | .error _ => ⟨.ok report, c, [.statement (.getBalance id)]⟩
    | .ok hcmData =>
      let counted := report.count (detectDiscrepancy hcmData.totalDays b.usedDays b.reservedDays)
      let trace := [.statement (.getBalance id), .statement (.save id)]
      match fault (.statement (.save id)) with
      | none =>
        ⟨.ok counted.process, saved id (b.merge now hcmData.totalDays hcmData.hcmVersion) c, trace⟩
      | some _ => ⟨.ok counted, c, trace⟩ := by
  rw [reconcileBalance, run_tryCatch, run_bind, run_ask, answer]
  cases (fault (.statement (.getBalance id))).elim (fetch b.toBalanceKey) .error with
  | error e => rfl
  | ok hcmData =>
    simp only [run_tryCatch, run_bind, saveBalance, run_write]
    cases fault (.statement (.save id)) <;> rfl

/-- A row that is reconciled, when the HCM answers. -/
theorem reconcileBalance_agrees {hcmData : HcmBalanceResponse}
    (hfetch : fetch b.toBalanceKey = .ok hcmData) :
    Agrees (viewed log snapshots) s (reconcileBalance now fetch id b report)
      (syncRow now id b hcmData.totalDays hcmData.hcmVersion >>= fun d =>
        pure (report.count d).process) := by
  have hanswer : answer fetch noFault id b = .ok hcmData := hfetch
  refine ⟨[.statement (.getBalance id), .statement (.save id)], ?_⟩
  rw [run_reconcileBalance, hanswer]
  rfl

/-- The loop of a reconciliation. -/
theorem reconcileBalances_agrees (rows : List (ℕ × LeaveBalance)) (report : SyncReport) :
    Agrees (viewed log snapshots) s (reconcileBalances now fetch rows report)
      (TimeOff.reconcileBalances now (fun key => (fetch key).toOption) rows report) := by
  induction rows generalizing report s with
  | nil => exact .pure report
  | cons q rest ih =>
    obtain ⟨id, b⟩ := q
    rw [TimeOff.reconcileBalances]
    cases hfetch : fetch b.toBalanceKey with
    | error e =>
      have hanswer : answer fetch noFault id b = .error e := hfetch
      refine .pure_bind (a := report) ⟨[.statement (.getBalance id)], ?_⟩ (ih report)
      rw [run_reconcileBalance, hanswer]
    | ok hcmData =>
      have hround : Agrees (viewed log snapshots) s (reconcileBalance now fetch id b report) _ :=
        reconcileBalance_agrees hfetch
      have hbind := hround.bind fun report' s' _ => ih (s := s') report'
      rw [bind_assoc] at hbind
      exact hbind

end SyncSteps

end TimeOff
