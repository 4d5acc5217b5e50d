import TimeOff.SyncFailure
import TimeOff.Monitoring

/-!
# What the log of the syncs says

Syncs run one after the other, statement by statement, and any statements of
each may be made to throw (`SyncCall.run`); in between, the service does whatever
it does to the database. What is in the log then, and what `getSyncStatus` makes
of it?

A sync that writes to the log at all leaves one row in it (`Logged`): as `DONE` if
it has returned, or, for a webhook, if only flagging the requests has thrown; as
`FAILED` if it is a batch that has been rolled back; and as `STARTED` if a statement
has thrown that updates the row, or that nothing handles. So the time that is
shown of the last batch or webhook is the latest one at which one has finished
(`last_syncs`). No rollback may be made to throw: after that, the transaction of
the batch would be open on the connection.
-/

namespace TimeOff

open Transaction Script Transition

/-- What a sync is called with. -/
inductive SyncCall
  | batch (records : List BatchRecord)
  | webhook (payload : BatchRecord)
  | reconciliation (fetch : BalanceKey → Except ServiceError HcmBalanceResponse)

namespace SyncCall

/-- The `sync_type` that is logged. -/
def syncType : SyncCall → SyncType
  | batch _ => .batch
  | webhook _ => .webhook
  | reconciliation _ => .scheduled

/-- `processBatchPayload`, `processWebhookPayload` or `triggerReconciliation`,
    without its report. -/
def script (now : Instant) : SyncCall → SyncSteps Unit
  | batch records => SyncSteps.processBatchPayload now records >>= fun _ => pure ()
  | webhook payload => SyncSteps.processWebhookPayload now payload
  | reconciliation fetch => SyncSteps.triggerReconciliation now fetch >>= fun _ => pure ()

end SyncCall

/-- The statements are made to throw, and the warnings are not. -/
def onStatements (fault : SyncStatement → Option ServiceError) : SyncLabel → Option ServiceError
  | .statement st => fault st
  | .warn _ => none

/-- The sync is run, with the statements that are made to throw. -/
def SyncCall.run (call : SyncCall) (now : Instant) (fault : SyncStatement → Option ServiceError)
    (c : Connection SyncData) : Result SyncLabel (Connection SyncData) ServiceError Unit :=
  (call.script now).run (onStatements fault) c

/-- It has returned; or it is a webhook that has come to flagging the requests. -/
def SyncCall.Finished (call : SyncCall)
    (r : Result SyncLabel (Connection SyncData) ServiceError Unit) : Prop :=
  r.value = .ok () ∨ call.syncType = .webhook ∧ .statement (.findActive 0) ∈ r.trace

/-- What a sync does to the log. -/
inductive Logged (fault : SyncStatement → Option ServiceError) (syncType : SyncType)
    (now : Instant) (log log' : Table SyncLog) (finished : Prop) : Prop
  | unlogged : log' = log → ¬finished → Logged fault syncType now log log' finished
  /-- The row is left as it was inserted. -/
  | started {st : SyncStatement} : log' = log.insert (.start syncType now) → ¬finished →
      (st = .startTransaction ∨ st = .markDone ∨ st = .markFailed) → fault st ≠ none →
      Logged fault syncType now log log' finished
  | failed {err : ServiceError} : log' = log.insert ((SyncLog.start syncType now).fail now err) →
      ¬finished → syncType = .batch → Logged fault syncType now log log' finished
  | done {report : SyncReport} :
      log' = log.insert ((SyncLog.start syncType now).finish now report) → finished →
      Logged fault syncType now log log' finished

variable {now : Instant} {fault : SyncStatement → Option ServiceError} {c : Connection SyncData}
  {records : List BatchRecord} {payload : BatchRecord} {d : SyncData} {e : ServiceError}
  {fetch : BalanceKey → Except ServiceError HcmBalanceResponse}

/-- Another word for what has finished. -/
theorem Logged.congr {syncType : SyncType} {log log' : Table SyncLog} {p q : Prop}
    (h : Logged fault syncType now log log' p) (hiff : p ↔ q) :
    Logged fault syncType now log log' q := by
  cases h with
  | unlogged hlog hp => exact .unlogged hlog (hp ∘ hiff.2)
  | started hlog hp hst hfault => exact .started hlog (hp ∘ hiff.2) hst hfault
  | failed hlog hp htype => exact .failed hlog (hp ∘ hiff.2) htype
  | done hlog hp => exact .done hlog (hiff.1 hp)

/-- A sync that throws has not finished. -/
theorem error_iff {α : Type} (e : ServiceError) :
    False ↔ ∃ a : α, (.error e : Except ServiceError α) = .ok a :=
  ⟨False.elim, fun ⟨_, h⟩ => by cases h⟩

namespace SyncSteps

/-! ## Batches -/

theorem run_startTransaction_of_throws (h : fault .startTransaction = some e) :
    startTransaction.run (onStatements fault) c =
      ⟨.error e, c, [.statement .startTransaction]⟩ := by
  rw [startTransaction, run_write, onStatements, h]
  rfl

theorem run_commitTransaction_of_throws (h : fault .commitTransaction = some e) :
    commitTransaction.run (onStatements fault) c =
      ⟨.error e, c, [.statement .commitTransaction]⟩ := by
  rw [commitTransaction, run_perform, onStatements, h]
  rfl

theorem run_updateLog_of_throws {st : SyncStatement} {f : SyncLog → SyncLog} {l : ℕ}
    (h : fault st = some e) : (updateLog st l f).run (onStatements fault) c =
      ⟨.error e, c, [.statement st]⟩ := by
  rw [updateLog, run_write, onStatements, h]
  rfl

/-- A batch that is to be rolled back. -/
theorem catchBatch_logged (now : Instant) (d : SyncData) (err : ServiceError)
    (hroll : fault .rollbackTransaction = none)
    (hc : c.snapshots = [d.batchStarted now]) : ∃ err' d' trace,
    (catchBatch now d.syncLog.nextId err).run (onStatements fault) c =
      ⟨.error err', .idle d', trace⟩ ∧
    Logged fault .batch now d.syncLog d'.syncLog False := by
  have hrolls : onStatements fault (.statement .rollbackTransaction) = none := hroll
  obtain ⟨err', trace, hrun⟩ := run_catchBatch now d.syncLog.nextId err hrolls hc
  refine ⟨err', _, trace, hrun, ?_⟩
  rw [show onStatements fault (.statement .markFailed) = fault .markFailed from rfl]
  cases hmark : fault .markFailed with
  | some e' =>
    exact .started rfl not_false (.inr (.inr rfl)) (by rw [hmark]; exact Option.some_ne_none e')
  | none => exact .failed Table.update_insert not_false rfl

/-- What throws in the `try` while the transaction is open is rolled back. -/
theorem tryBatch_rolledBack (now : Instant) (records : List BatchRecord) (d : SyncData)
    {err : ServiceError} {c₀ : Connection SyncData} {trace : List SyncLabel}
    (hroll : fault .rollbackTransaction = none) (hc : c.snapshots = [d.batchStarted now])
    (htry : (tryBatch now records d.syncLog.nextId).run (onStatements fault) c₀ =
      ⟨.error err, c, trace⟩) : ∃ v d' trace,
    (tryCatch (tryBatch now records d.syncLog.nextId) (catchBatch now d.syncLog.nextId)).run
      (onStatements fault) c₀ = ⟨v, .idle d', trace⟩ ∧
    Logged fault .batch now d.syncLog d'.syncLog (∃ report, v = .ok report) := by
  obtain ⟨err', d', trace', hcatch, hlogged⟩ := catchBatch_logged now d err hroll hc
  have hrun := run_tryCatch_error (h := catchBatch now d.syncLog.nextId) htry
  rw [hcatch] at hrun
  exact ⟨_, d', _, hrun, hlogged.congr (error_iff err')⟩

/-- A batch that has come to its `try`. -/
theorem tryBatch_logged (now : Instant) (records : List BatchRecord) (d : SyncData)
    (hroll : fault .rollbackTransaction = none) : ∃ v d' trace,
    (tryCatch (tryBatch now records d.syncLog.nextId) (catchBatch now d.syncLog.nextId)).run
      (onStatements fault) ⟨d.batchStarted now, [d.batchStarted now]⟩ = ⟨v, .idle d', trace⟩ ∧
    Logged fault .batch now d.syncLog d'.syncLog (∃ report, v = .ok report) := by
  let c₀ : Connection SyncData := ⟨d.batchStarted now, [d.batchStarted now]⟩
  let loop := (processRecords now 0 records 0).run (onStatements fault) c₀
  obtain ⟨db, hstore⟩ : ∃ db, loop.store = c₀.modify fun d => { d with db := db } :=
    store_processRecords
  let c₁ := c₀.modify fun d => { d with db := db }
  have hopen : c₁.snapshots = [d.batchStarted now] := rfl
  have hloop : loop = ⟨loop.value, c₁, loop.trace⟩ :=
    congrArg (fun c => (⟨loop.value, c, loop.trace⟩ : Result _ _ _ _)) hstore
  cases hvalue : loop.value with
  | error err =>
    rw [hvalue] at hloop
    exact tryBatch_rolledBack now records d hroll hopen (run_bind_error hloop)
  | ok n =>
    rw [hvalue] at hloop
    have htry : (tryBatch now records d.syncLog.nextId).run (onStatements fault) c₀ = _ :=
      run_bind_ok hloop
    cases hcommit : fault .commitTransaction with
    | some e =>
      rw [run_bind_error (run_commitTransaction_of_throws hcommit)] at htry
      exact tryBatch_rolledBack now records d hroll hopen htry
    | none =>
      have hcommitted : commitTransaction.run (onStatements fault) c₁ = ⟨.ok (), .idle c₁.data,
          [.statement .commitTransaction]⟩ := run_commitTransaction hcommit rfl
      rw [run_bind_ok hcommitted] at htry
      cases hmark : fault .markDone with
      | none =>
        rw [run_bind_ok (run_updateLog hmark)] at htry
        exact ⟨_, _, _, run_tryCatch_ok htry, .done Table.update_insert ⟨_, rfl⟩⟩
      | some e =>
        -- There is nothing left to roll back: the rollback throws.
        rw [run_bind_error (run_updateLog_of_throws hmark)] at htry
        have hrolls : (onStatements fault (.statement .rollbackTransaction)).isSome ∨
            (Connection.idle c₁.data).snapshots = [] := .inr rfl
        obtain ⟨err', trace', hcatch⟩ := run_catchBatch_of_throws now d.syncLog.nextId e hrolls
        have hrun := run_tryCatch_error (h := catchBatch now d.syncLog.nextId) htry
        rw [hcatch] at hrun
        exact ⟨_, c₁.data, _, hrun, (Logged.started rfl not_false (.inr (.inl rfl))
          (by rw [hmark]; exact Option.some_ne_none e)).congr (error_iff err')⟩

/-- What a batch leaves in the log, whatever statement throws. -/
theorem processBatchPayload_logged (now : Instant) (records : List BatchRecord) (d : SyncData)
    (hroll : fault .rollbackTransaction = none) : ∃ v d' trace,
    (processBatchPayload now records).run (onStatements fault) (.idle d) = ⟨v, .idle d', trace⟩ ∧
    Logged fault .batch now d.syncLog d'.syncLog (∃ report, v = .ok report) := by
  cases hlog : fault .insertLog with
  | some e =>
    have hrun : (processBatchPayload now records).run (onStatements fault) (.idle d) = _ :=
      run_bind_error (run_insertLog_of_throws _ hlog)
    exact ⟨_, d, _, hrun, (Logged.unlogged rfl not_false).congr (error_iff e)⟩
  | none =>
    cases hstart : fault .startTransaction with
    | some e =>
      have hrun : (processBatchPayload now records).run (onStatements fault) (.idle d) = _ :=
        run_bind_ok (run_insertLog _ hlog)
      dsimp only at hrun
      rw [run_bind_error (run_startTransaction_of_throws hstart)] at hrun
      exact ⟨_, d.batchStarted now, _, hrun, (Logged.started rfl not_false (.inl rfl)
        (by rw [hstart]; exact Option.some_ne_none e)).congr (error_iff e)⟩
    | none =>
      obtain ⟨v, d', trace, htry, hlogged⟩ := tryBatch_logged now records d hroll
      exact ⟨v, d', _, run_processBatchPayload hlog hstart htry, hlogged⟩

/-! ## Webhooks -/

/-- A discrepancy is reported, or flagging the requests has thrown. -/
theorem reportDiscrepancy_traced (fault : SyncStatement → Option ServiceError) (employeeId : ℕ)
    (isDiscrepancy : Bool) (w : SyncWarning) :
    ∃ v trace, (reportDiscrepancy 0 employeeId isDiscrepancy w).run (onStatements fault) c =
      ⟨v, c, trace⟩ ∧ (v = .ok () ∨ .statement (.findActive 0) ∈ trace) := by
  by_cases hthrows : isDiscrepancy ∧ fault (.findActive 0) ≠ none
  · obtain ⟨rfl, hfault⟩ := hthrows
    obtain ⟨e, he⟩ := Option.ne_none_iff_exists'.1 hfault
    exact ⟨_, _, run_reportDiscrepancy_of_throws employeeId w rfl he, .inr (by simp)⟩
  · refine ⟨_, _, run_reportDiscrepancy employeeId isDiscrepancy w (fun _ => rfl) fun h => ?_,
      .inl rfl⟩
    by_contra hfault
    exact hthrows ⟨h, hfault⟩

/-- What a webhook leaves there. -/
theorem processWebhookPayload_logged (now : Instant) (payload : BatchRecord) (d : SyncData)
    (fault : SyncStatement → Option ServiceError) : ∃ v d' trace,
    (processWebhookPayload now payload).run (onStatements fault) (.idle d) = ⟨v, .idle d', trace⟩ ∧
    Logged fault .webhook now d.syncLog d'.syncLog
      (v = .ok () ∨ .statement (.findActive 0) ∈ trace) := by
  -- By the first statement that throws. The log is inserted last but for the report, so
  -- that before it there is no trace of the webhook.
  cases hfind : fault (.findOne 0) with
  | some e =>
    have hrun : (processWebhookPayload now payload).run (onStatements fault) (.idle d) = _ :=
      run_bind_error (run_findOne_of_throws _ hfind)
    exact ⟨_, d, _, hrun, .unlogged rfl (by simp)⟩
  | none =>
    have hrun : (processWebhookPayload now payload).run (onStatements fault) (.idle d) = _ :=
      run_bind_ok (run_findOne payload.toBalanceKey hfind)
    rw [Connection.data_idle] at hrun
    cases hl : d.db.balances.lookup payload.toBalanceKey with
    | none =>
      rw [hl] at hrun
      exact ⟨_, d, _, hrun, .unlogged rfl (by simp)⟩
    | some q =>
      obtain ⟨id, b⟩ := q
      rw [hl] at hrun
      dsimp only at hrun
      cases hsave : fault (.save 0) with
      | some e =>
        rw [run_bind_error (run_saveBalance_of_throws id _ hsave)] at hrun
        exact ⟨_, d, _, hrun, .unlogged rfl (by simp)⟩
      | none =>
        rw [run_bind_ok (run_saveBalance id _ hsave)] at hrun
        cases hlog : fault .insertLog with
        | some e =>
          rw [run_bind_error (run_insertLog_of_throws _ hlog)] at hrun
          exact ⟨_, _, _, hrun, .unlogged rfl (by simp)⟩
        | none =>
          rw [run_bind_ok (run_insertLog _ hlog)] at hrun
          dsimp only at hrun
          obtain ⟨v, trace, hreport, hcome⟩ := reportDiscrepancy_traced fault _ _ _
          rw [hreport] at hrun
          exact ⟨v, _, _, hrun, .done rfl (hcome.imp_right fun h => by simp [h])⟩

/-! ## Reconciliations -/

/-- The rows are only read. -/
theorem store_selectBalances (fault : SyncLabel → Option ServiceError) :
    ((selectBalances now).run fault c).store = c := by
  have hread : ∀ {α : Type} {label : SyncLabel} {q : Connection SyncData → α},
      (query label q : SyncSteps α).All
        fun _ exec => ∀ s s', s = c → exec s = .ok (some s') → s' = c :=
    all_query fun _ _ _ h => by cases h
  refine run_preserves (all_bind hread fun staleBalances => all_bind hread fun ids => ?_) rfl
  split
  · exact all_bind hread fun _ => trivial
  · trivial

/-- The loop handles all errors, and leaves the log alone. -/
theorem run_reconcileBalances (now : Instant)
    (fetch : BalanceKey → Except ServiceError HcmBalanceResponse)
    (fault : SyncLabel → Option ServiceError) (rows : List (ℕ × LeaveBalance))
    (report : SyncReport) : ∃ report' db trace,
    (reconcileBalances now fetch rows report).run fault c =
      ⟨.ok report', c.modify fun d => { d with db := db }, trace⟩ := by
  -- On the rows: whatever is thrown for one of them is caught, and the next one is tried.
  induction rows generalizing report c with
  | nil => exact ⟨report, c.data.db, [], rfl⟩
  | cons q rest ih =>
    obtain ⟨id, b⟩ := q
    obtain ⟨report₁, db₁, trace₁, hround⟩ : ∃ report₁ db₁ trace₁,
        (reconcileBalance now fetch id b report).run fault c =
          ⟨.ok report₁, c.modify fun d => { d with db := db₁ }, trace₁⟩ := by
      rw [run_reconcileBalance]
      cases answer fetch fault id b with
      | error e => exact ⟨_, c.data.db, _, rfl⟩
      | ok hcmData =>
        cases fault (.statement (.save id)) with
        | none => exact ⟨_, _, _, rfl⟩
        | some e => exact ⟨_, c.data.db, _, rfl⟩
    obtain ⟨report₂, db₂, trace₂, hrest⟩ :=
      ih (c := c.modify fun d => { d with db := db₁ }) report₁
    have hrun : (reconcileBalances now fetch ((id, b) :: rest) report).run fault c = _ :=
      run_bind_ok hround
    rw [hrest] at hrun
    exact ⟨report₂, db₂, _, hrun⟩

/-- What a reconciliation leaves there. -/
theorem triggerReconciliation_logged (now : Instant)
    (fetch : BalanceKey → Except ServiceError HcmBalanceResponse) (d : SyncData)
    (fault : SyncStatement → Option ServiceError) : ∃ v d' trace,
    (triggerReconciliation now fetch).run (onStatements fault) (.idle d) = ⟨v, .idle d', trace⟩ ∧
    Logged fault .scheduled now d.syncLog d'.syncLog (∃ report, v = .ok report) := by
  -- The selection, the log, the loop and the mark in turn; the loop itself does not throw.
  let selected := (selectBalances now).run (onStatements fault) (.idle d)
  have hselected : selected = ⟨selected.value, .idle d, selected.trace⟩ :=
    congrArg (fun c => (⟨selected.value, c, selected.trace⟩ : Result _ _ _ _))
      (store_selectBalances (onStatements fault))
  cases hvalue : selected.value with
  | error e =>
    rw [hvalue] at hselected
    have hrun : (triggerReconciliation now fetch).run (onStatements fault) (.idle d) = _ :=
      run_bind_error hselected
    exact ⟨_, d, _, hrun, (Logged.unlogged rfl not_false).congr (error_iff e)⟩
  | ok rows =>
    rw [hvalue] at hselected
    have hrun : (triggerReconciliation now fetch).run (onStatements fault) (.idle d) = _ :=
      run_bind_ok hselected
    dsimp only at hrun
    cases hlog : fault .insertLog with
    | some e =>
      rw [run_bind_error (run_insertLog_of_throws _ hlog)] at hrun
      exact ⟨_, d, _, hrun, (Logged.unlogged rfl not_false).congr (error_iff e)⟩
    | none =>
      rw [run_bind_ok (run_insertLog _ hlog)] at hrun
      dsimp only at hrun
      obtain ⟨report, db, trace, hloop⟩ := run_reconcileBalances
        (c := (Connection.idle d).modify (·.insertLog (.start .scheduled now))) now fetch
        (onStatements fault) rows ⟨0, 0⟩
      rw [run_bind_ok hloop] at hrun
      dsimp only at hrun
      cases hmark : fault .markDone with
      | none =>
        rw [run_bind_ok (run_updateLog hmark)] at hrun
        exact ⟨_, _, _, hrun, .done Table.update_insert ⟨_, rfl⟩⟩
      | some e =>
        rw [run_bind_error (run_updateLog_of_throws hmark)] at hrun
        exact ⟨_, _, _, hrun, (Logged.started rfl not_false (.inr (.inl rfl))
          (by rw [hmark]; exact Option.some_ne_none e)).congr (error_iff e)⟩

end SyncSteps

/-! ## Any sync -/

/-- A sync without its report. -/
theorem run_discard {α : Type} {x : SyncSteps α} {fault : SyncLabel → Option ServiceError}
    {v : Except ServiceError α} {c' : Connection SyncData} {trace : List SyncLabel}
    (h : x.run fault c = ⟨v, c', trace⟩) : ∃ v', (x >>= fun _ => pure ()).run fault c =
      ⟨v', c', trace⟩ ∧ ((∃ a, v = .ok a) ↔ v' = .ok ()) := by
  cases v with
  | ok a => exact ⟨.ok (), by rw [run_bind_ok h]; simp, iff_of_true ⟨a, rfl⟩ rfl⟩
  | error e => exact ⟨.error e, run_bind_error h, (error_iff e).symm.trans (by simp)⟩

/-- The connection is idle again after a sync, which has left at most one row in
    the log. -/
theorem SyncCall.logged (call : SyncCall) (now : Instant) (d : SyncData)
    (hroll : fault .rollbackTransaction = none) :
    ∃ d', (call.run now fault (.idle d)).store = .idle d' ∧
      Logged fault call.syncType now d.syncLog d'.syncLog
        (call.Finished (call.run now fault (.idle d))) := by
  -- A webhook has finished as soon as its log is inserted, the other two when they return.
  cases call with
  | batch records =>
    obtain ⟨v, d', trace, hrun, hlogged⟩ :=
      SyncSteps.processBatchPayload_logged now records d hroll
    obtain ⟨v', hrun', hiff⟩ := run_discard hrun
    refine ⟨d', congrArg Result.store hrun', hlogged.congr ?_⟩
    rw [Finished, show (SyncCall.batch records).run now fault (.idle d) = _ from hrun', hiff]
    exact ⟨.inl, fun h => h.resolve_right fun h => by cases h.1⟩
  | webhook payload =>
    obtain ⟨v, d', trace, hrun, hlogged⟩ :=
      SyncSteps.processWebhookPayload_logged now payload d fault
    refine ⟨d', congrArg Result.store hrun, hlogged.congr ?_⟩
    rw [Finished, show (SyncCall.webhook payload).run now fault (.idle d) = _ from hrun]
    exact or_congr_right ⟨fun h => ⟨rfl, h⟩, And.right⟩
  | reconciliation fetch =>
    obtain ⟨v, d', trace, hrun, hlogged⟩ :=
      SyncSteps.triggerReconciliation_logged now fetch d fault
    obtain ⟨v', hrun', hiff⟩ := run_discard hrun
    refine ⟨d', congrArg Result.store hrun', hlogged.congr ?_⟩
    rw [Finished, show (SyncCall.reconciliation fetch).run now fault (.idle d) = _ from hrun', hiff]
    exact ⟨.inl, fun h => h.resolve_right fun h => by cases h.1⟩

/-! ## Syncs, one after the other -/

/-- The latest of the instants, if there are any. -/
def Latest (S : Set Instant) : Option Instant → Prop
  | none => S = ∅
  | some t => IsGreatest S t

theorem SyncLog.notBefore_iff {l l' : SyncLog} : l.notBefore l' = true ↔
    ∀ t', l'.completedAt = some t' → ∃ t, l.completedAt = some t ∧ t' ≤ t := by
  simp only [SyncLog.notBefore, Option.all_eq_true, Option.any_eq_true, decide_eq_true_eq]

instance : Std.Total fun l l' : SyncLog => l.notBefore l' = true where
  total l l' := by
    rw [SyncLog.notBefore_iff, SyncLog.notBefore_iff]
    cases hl : l.completedAt with
    | none => exact .inr fun t' h => by cases h
    | some t =>
      cases hl' : l'.completedAt with
      | none => exact .inl fun t' h => by cases h
      | some t' => simpa using le_total t' t

instance : IsTrans SyncLog fun l l' => l.notBefore l' = true where
  trans l l' l'' h h' := SyncLog.notBefore_iff.2 fun t'' ht'' => by
    obtain ⟨t', ht', hle'⟩ := SyncLog.notBefore_iff.1 h' t'' ht''
    obtain ⟨t, ht, hle⟩ := SyncLog.notBefore_iff.1 h t' ht'
    exact ⟨t, ht, hle'.trans hle⟩

namespace SyncData

variable {data : SyncData} {syncType : SyncType} {l : SyncLog}

/-- The rows that `findOne` looks at, in its order. -/
theorem mem_sorted : l ∈ ((data.syncLog.rows.map Prod.snd).filter
      fun l => l.syncType = syncType && l.status = .done).insertionSort (SyncLog.notBefore · ·) ↔
    ∃ id, data.syncLog.get id = some l ∧ l.syncType = syncType ∧ l.status = .done := by
  rw [List.mem_insertionSort, List.mem_filter, List.mem_map]
  simp only [Bool.and_eq_true, decide_eq_true_eq]
  constructor
  · rintro ⟨⟨⟨id, _⟩, hq, rfl⟩, hp⟩
    exact ⟨id, Table.mem_rows.1 hq, hp⟩
  · rintro ⟨id, hget, hp⟩
    exact ⟨⟨(id, l), Table.mem_rows.2 hget, rfl⟩, hp⟩

/-- If no log is the last one that is done, then none is done. -/
theorem not_done_of_lastDone (hnone : data.lastDone syncType = none) {id : ℕ}
    (hget : data.syncLog.get id = some l) (htype : l.syncType = syncType) : l.status ≠ .done := by
  intro hdone
  have hl := mem_sorted.2 ⟨id, hget, htype, hdone⟩
  rw [List.head?_eq_none_iff.1 hnone] at hl
  cases hl

/-- The last one that is done is not before any other. -/
theorem lastDone_first (hfirst : data.lastDone syncType = some l) :
    (∃ id, data.syncLog.get id = some l ∧ l.syncType = syncType ∧ l.status = .done) ∧
    ∀ id l', data.syncLog.get id = some l' → l'.syncType = syncType → l'.status = .done →
      l' = l ∨ l.notBefore l' := by
  obtain ⟨rest, hrows⟩ := List.head?_eq_some_iff.1 hfirst
  refine ⟨mem_sorted.1 (List.mem_of_mem_head? hfirst), fun id l' hget htype hdone => ?_⟩
  have hl' := mem_sorted.2 ⟨id, hget, htype, hdone⟩
  have hsorted := List.pairwise_insertionSort (fun l l' : SyncLog => l.notBefore l' = true)
    ((data.syncLog.rows.map Prod.snd).filter fun l => l.syncType = syncType && l.status = .done)
  rw [hrows] at hl' hsorted
  exact (List.mem_cons.1 hl').imp_right fun h => List.rel_of_pairwise_cons hsorted h

/-- What `findOne` finds is what has been completed last. -/
theorem lastDone_latest (data : SyncData) (syncType : SyncType)
    (hcompleted : ∀ id l, data.syncLog.get id = some l → l.status = .done →
      l.completedAt ≠ none) :
    Latest {t | ∃ id l, data.syncLog.get id = some l ∧ l.syncType = syncType ∧
      l.status = .done ∧ l.completedAt = some t}
      ((data.lastDone syncType).bind (·.completedAt)) := by
  cases hlast : data.lastDone syncType with
  | none =>
    refine Set.eq_empty_iff_forall_notMem.2 fun t ⟨id, l, hget, htype, hdone, _⟩ => ?_
    exact not_done_of_lastDone hlast hget htype hdone
  | some l =>
    obtain ⟨⟨id, hget, htype, hdone⟩, hfirst⟩ := lastDone_first hlast
    obtain ⟨t, ht⟩ := Option.ne_none_iff_exists'.1 (hcompleted id l hget hdone)
    rw [Option.bind_some, ht]
    refine ⟨⟨id, l, hget, htype, hdone, ht⟩, fun t' ⟨id', l', hget', htype', hdone', ht'⟩ => ?_⟩
    rcases hfirst id' l' hget' htype' hdone' with rfl | hl'
    · exact (Option.some.inj (ht'.symm.trans ht)).le
    · obtain ⟨t₀, ht₀, hle⟩ := SyncLog.notBefore_iff.1 hl' t' ht'
      obtain rfl := Option.some.inj (ht.symm.trans ht₀)
      exact hle

end SyncData

namespace SyncHistory

/-- What happens to the connection. -/
inductive Event
  | sync (call : SyncCall) (now : Instant) (fault : SyncStatement → Option ServiceError)
  /-- Whatever else the service does to its tables. -/
  | change (db : Database)

/-- A sync is made as a whole, whatever it throws. -/
def step (c : Connection SyncData) : Event → Option (Connection SyncData)
  | .sync call now fault => some (call.run now fault c).store
  | .change db => some (c.modify fun d => { d with db := db })

/-- No rollback is made to throw. -/
def Event.RollsBack : Event → Prop
  | .sync _ _ fault => fault .rollbackTransaction = none
  | .change _ => True

/-- A sync of the type has finished at `t`. -/
def FinishedAt (syncType : SyncType) (t : Instant) (x : Connection SyncData × Event) : Prop :=
  ∃ call fault, x.2 = .sync call t fault ∧ call.syncType = syncType ∧
    call.Finished (call.run t fault x.1)

/-- The sync of the row has not finished: it could not start its transaction, or
    not update the row. -/
def Interrupted (l : SyncLog) (x : Connection SyncData × Event) : Prop :=
  ∃ call fault st, x.2 = .sync call l.startedAt fault ∧ call.syncType = l.syncType ∧
    ¬call.Finished (call.run l.startedAt fault x.1) ∧
    (st = .startTransaction ∨ st = .markDone ∨ st = .markFailed) ∧ fault st ≠ none

/-- What the log says about the syncs that have been. -/
structure Journal (hist : List (Connection SyncData × Event)) (log : Table SyncLog) : Prop where
  done : ∀ syncType t, (∃ id l, log.get id = some l ∧ l.syncType = syncType ∧ l.status = .done ∧
    l.completedAt = some t) ↔ ∃ x ∈ hist, FinishedAt syncType t x
  started : ∀ id l, log.get id = some l → l.status = .started → ∃ x ∈ hist, Interrupted l x
  failed : ∀ id l, log.get id = some l → l.status = .failed → l.syncType = .batch
  completed : ∀ id l, log.get id = some l → (l.completedAt = none ↔ l.status = .started)
  errorDetail : ∀ id l, log.get id = some l → (l.errorDetail ≠ none ↔ l.status = .failed)

variable {hist : List (Connection SyncData × Event)} {log : Table SyncLog}
  {x : Connection SyncData × Event} {l : SyncLog} {c₀ : Connection SyncData}

/-- Nothing is written to the log, and no sync finishes. -/
theorem Journal.idle (h : Journal hist log) (hx : ∀ syncType t, ¬FinishedAt syncType t x) :
    Journal (hist ++ [x]) log := by
  refine ⟨fun syncType t => (h.done syncType t).trans ?_, fun id l hl hstatus => ?_, h.failed,
    h.completed, h.errorDetail⟩
  · constructor
    · rintro ⟨y, hy, hfinished⟩
      exact ⟨y, List.mem_append_left _ hy, hfinished⟩
    · rintro ⟨y, hy, hfinished⟩
      rcases List.mem_append.1 hy with hy | hy
      · exact ⟨y, hy, hfinished⟩
      · obtain rfl := List.mem_singleton.1 hy
        exact absurd hfinished (hx syncType t)
  · obtain ⟨y, hy, hinterrupted⟩ := h.started id l hl hstatus
    exact ⟨y, List.mem_append_left _ hy, hinterrupted⟩

/-- The row of a sync is written. -/
theorem Journal.insert (h : Journal hist log)
    (hdone : ∀ syncType t, l.syncType = syncType ∧ l.status = .done ∧ l.completedAt = some t ↔
      FinishedAt syncType t x)
    (hstarted : l.status = .started → Interrupted l x)
    (hfailed : l.status = .failed → l.syncType = .batch)
    (hcompleted : l.completedAt = none ↔ l.status = .started)
    (herror : l.errorDetail ≠ none ↔ l.status = .failed) :
    Journal (hist ++ [x]) (log.insert l) := by
  refine ⟨fun syncType t => ?_, Table.forall_insert (fun hstatus => ?_) fun id l' hl' hstatus => ?_,
    Table.forall_insert hfailed h.failed, Table.forall_insert hcompleted h.completed,
    Table.forall_insert herror h.errorDetail⟩
  · rw [Table.exists_insert, h.done, hdone]
    constructor
    · rintro (⟨y, hy, hfinished⟩ | hfinished)
      · exact ⟨y, List.mem_append_left _ hy, hfinished⟩
      · exact ⟨x, List.mem_append_right _ (List.mem_singleton_self x), hfinished⟩
    · rintro ⟨y, hy, hfinished⟩
      rcases List.mem_append.1 hy with hy | hy
      · exact .inl ⟨y, hy, hfinished⟩
      · obtain rfl := List.mem_singleton.1 hy
        exact .inr hfinished
  · exact ⟨x, List.mem_append_right _ (List.mem_singleton_self x), hstarted hstatus⟩
  · obtain ⟨y, hy, hinterrupted⟩ := h.started id l' hl' hstatus
    exact ⟨y, List.mem_append_left _ hy, hinterrupted⟩

/-- When a sync has finished. -/
theorem finishedAt_sync {call : SyncCall} {syncType : SyncType} {t : Instant} :
    FinishedAt syncType t (c, .sync call now fault) ↔
      call.syncType = syncType ∧ now = t ∧ call.Finished (call.run now fault c) := by
  constructor
  · rintro ⟨call', fault', hx, htype, hfinished⟩
    cases hx
    exact ⟨htype, rfl, hfinished⟩
  · rintro ⟨htype, rfl, hfinished⟩
    exact ⟨call, fault, rfl, htype, hfinished⟩

/-- Every sync leaves the log as it should be. -/
theorem Journal.sync (h : Journal hist d.syncLog) (call : SyncCall)
    (hroll : fault .rollbackTransaction = none) : ∃ d',
    (call.run now fault (.idle d)).store = .idle d' ∧
      Journal (hist ++ [(.idle d, .sync call now fault)]) d'.syncLog := by
  obtain ⟨d', hstore, hlogged⟩ := call.logged now d hroll
  refine ⟨d', hstore, ?_⟩
  have hnot : ∀ {p : Prop}, ¬call.Finished (call.run now fault (.idle d)) → ∀ syncType t,
      (p → False) → (p ↔ FinishedAt syncType t (.idle d, .sync call now fault)) :=
    fun hunfinished syncType t hp => iff_of_false hp fun hfinished =>
      hunfinished (finishedAt_sync.1 hfinished).2.2
  -- The history gets one more sync, and the log at most one more row, which tells how it
  -- ended.
  cases hlogged with
  | unlogged hlog hunfinished =>
    rw [hlog]
    exact h.idle fun syncType t hfinished => hunfinished (finishedAt_sync.1 hfinished).2.2
  | @started st hlog hunfinished hst hfault =>
    rw [hlog]
    exact h.insert (fun syncType t => hnot hunfinished syncType t fun hp => by cases hp.2.1)
      (fun _ => ⟨call, fault, st, rfl, rfl, hunfinished, hst, hfault⟩) (fun hs => by cases hs)
      (iff_of_true rfl rfl) (iff_of_false (not_not.2 rfl) fun hs => by cases hs)
  | failed hlog hunfinished htype =>
    rw [hlog]
    exact h.insert (fun syncType t => hnot hunfinished syncType t fun hp => by cases hp.2.1)
      (fun hs => by cases hs) (fun _ => htype) (iff_of_false (Option.some_ne_none _)
        fun hs => by cases hs) (iff_of_true (Option.some_ne_none _) rfl)
  | done hlog hfinished =>
    rw [hlog]
    refine h.insert (fun syncType t => ?_) (fun hs => by cases hs) (fun hs => by cases hs)
      (iff_of_false (Option.some_ne_none _) fun hs => by cases hs)
      (iff_of_false (not_not.2 rfl) fun hs => by cases hs)
    rw [finishedAt_sync]
    exact ⟨fun ⟨htype, _, hnow⟩ => ⟨htype, Option.some.inj hnow, hfinished⟩,
      fun ⟨htype, hnow, _⟩ => ⟨htype, rfl, congrArg some hnow⟩⟩

/-- The connection is idle between syncs, and the log says what has been. -/
theorem journal_of_run {db : Database}
    (hrun : Run step (fun _ x => x.RollsBack) (.idle ⟨db, .empty⟩) hist c) :
    ∃ d, c = .idle d ∧ Journal hist d.syncLog := by
  refine hrun.history (I := fun hist c => ∃ d, c = .idle d ∧ Journal hist d.syncLog)
    ⟨⟨db, .empty⟩, rfl, ?_⟩ fun hist c x c' _ ⟨d, hc, hjournal⟩ hok hnext => ?_
  · refine ⟨fun syncType t => iff_of_false ?_ ?_, ?_, ?_, ?_, ?_⟩
    · rintro ⟨id, l, hl, _⟩
      cases hl
    · rintro ⟨x, hx, _⟩
      cases hx
    all_goals
      intro id l hl
      cases hl
  · subst hc
    cases x with
    | sync call now fault =>
      obtain rfl := Option.some.inj hnext
      exact hjournal.sync call hok
    | change db =>
      obtain rfl := Option.some.inj hnext
      refine ⟨{ d with db := db }, rfl, hjournal.idle fun syncType t => ?_⟩
      rintro ⟨_, _, hx, _⟩
      cases hx

/-- After any syncs, one after the other, of which any statement but a rollback
    may have been made to throw: the times that are reported are those of the
    last batch and the last webhook that have finished, and a row is `STARTED` only
    if its sync could not start its transaction or not update the row. -/
theorem last_syncs {db : Database}
    (hrun : Run step (fun _ x => x.RollsBack) (.idle ⟨db, .empty⟩) hist c) :
    Latest {t | ∃ x ∈ hist, FinishedAt .batch t x} (getSyncStatus c.data).lastBatchSyncAt ∧
    Latest {t | ∃ x ∈ hist, FinishedAt .webhook t x} (getSyncStatus c.data).lastWebhookAt ∧
    Journal hist c.data.syncLog := by
  obtain ⟨d, rfl, hjournal⟩ := journal_of_run hrun
  have hlatest : ∀ syncType, Latest {t | ∃ x ∈ hist, FinishedAt syncType t x}
      ((d.lastDone syncType).bind (·.completedAt)) := by
    intro syncType
    have hdone := d.lastDone_latest syncType fun id l hl hstatus hnone => by
      have hstarted := (hjournal.completed id l hl).1 hnone
      rw [hstatus] at hstarted
      cases hstarted
    simp only [hjournal.done] at hdone
    exact hdone
  exact ⟨hlatest .batch, hlatest .webhook, hjournal⟩

/-- The one statement is made to throw. -/
def busy (st : SyncStatement) (st' : SyncStatement) : Option ServiceError :=
  if st' = st then some (.database "SQLITE_BUSY") else none

/-- A batch that returns, one that throws after its commit, and a webhook that
    throws when it flags the requests. -/
def sampleSyncs : List Event :=
  [.sync (.batch [⟨sampleKey, 12, "2"⟩]) 3 fun _ => none,
    .sync (.batch [⟨sampleKey, 14, "3"⟩]) 5 (busy .markDone),
    .sync (.webhook ⟨sampleKey, -1, "4"⟩) 7 (busy (.findActive 0))]

/-- The syncs of the sample: the second batch has not finished, so that the time
    of the first one is shown. -/
theorem last_syncs_sample : ∃ hist c,
    Run step (fun _ x => x.RollsBack) (.idle ⟨sampleDb 10, .empty⟩) hist c ∧
    (getSyncStatus c.data).lastBatchSyncAt = some 3 ∧
    (getSyncStatus c.data).lastWebhookAt = some 7 ∧
    (c.data.syncLog.get 1).map SyncLog.status = some .started ∧
    Latest {t | ∃ x ∈ hist, FinishedAt .batch t x} (some 3) := by
  have hexec : ∃ c ∈ exec step (.idle ⟨sampleDb 10, .empty⟩) sampleSyncs,
      (getSyncStatus c.data).lastBatchSyncAt = some 3 ∧
      (getSyncStatus c.data).lastWebhookAt = some 7 ∧
      (c.data.syncLog.get 1).map SyncLog.status = some .started := by
    decide +kernel
  have hroll : ∀ x ∈ sampleSyncs, x.RollsBack := by
    simp [sampleSyncs, Event.RollsBack, busy]
  obtain ⟨c, hrun, hbatch, hwebhook, hstarted⟩ := exists_run_of_exec hroll hexec
  have hlatest := (last_syncs hrun).1
  rw [hbatch] at hlatest
  exact ⟨_, c, hrun, hbatch, hwebhook, hstarted, hlatest⟩

end SyncHistory

end TimeOff
