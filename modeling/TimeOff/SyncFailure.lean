import TimeOff.Ingestion

/-!
# Syncs that fail

A statement, a transaction call or an update of the log is made to throw, and
the sync is run with this one failure. Is it atomic?

A batch is, unless the failure is outside of what its `catch` can undo
(`batchAtomic_iff`): `startTransaction` is called before the `try`, so that the
row in the log stays `STARTED`; the update of the log to `DONE` is made in the
`try`, but after the commit, so that `rollbackTransaction` throws as well, and
the batch is reported as an error although it has been committed; and a
rollback that throws itself leaves the row in the log as it is.

A webhook is not, if anything fails after the save (`webhookAtomic_iff`).
-/

namespace TimeOff

open Transaction Script

/-- The statement `st`, if any, is made to throw `e`. -/
def failing (st : Option SyncStatement) (e : ServiceError) : SyncLabel → Option ServiceError
  | .statement st' => if st = some st' then some e else none
  | .warn _ => none

/-- The run of a batch on `d`, with the failure of `st`. -/
def runBatch (now : Instant) (records : List BatchRecord) (st : Option SyncStatement)
    (e : ServiceError) (d : SyncData) :
    Result SyncLabel (Connection SyncData) ServiceError SyncReport :=
  (SyncSteps.processBatchPayload now records).run (failing st e) (.idle d)

/-- A batch that throws has left the balances as they were, and has marked its
    row in the log as `FAILED`, if it has one and this could be done. If it
    returns, it has ingested its records and marked the row as `DONE`. -/
structure BatchAtomic (now : Instant) (records : List BatchRecord) (st : Option SyncStatement)
    (e : ServiceError) (d : SyncData) : Prop where
  thrown : ∀ err, (runBatch now records st e d).value = .error err →
    (runBatch now records st e d).store.data.db.balances = d.db.balances ∧
    ∀ log, (runBatch now records st e d).store.data.syncLog.get d.syncLog.nextId = some log →
      st ≠ some .markFailed → log.status = .failed
  returned : ∀ report, (runBatch now records st e d).value = .ok report →
    (runBatch now records st e d).store.data.db = records.foldl (Database.ingest now) d.db ∧
    ∃ log, (runBatch now records st e d).store.data.syncLog.get d.syncLog.nextId = some log ∧
      log.status = .done

/-! ## The loop of a batch -/

/-- The labels in the loop of a batch. -/
def SyncLabel.inLoop : SyncLabel → Bool
  | .statement (.findOne _) | .statement (.findActive _) | .statement (.save _) | .warn _ => true
  | _ => false

/-- A statement of the loop of a batch changes the database, if anything. -/
def LoopStatement (label : SyncLabel)
    (exec : Connection SyncData → Except ServiceError (Option (Connection SyncData))) : Prop :=
  label.inLoop ∧ ∀ c c', exec c = .ok (some c') →
    ∃ db, c' = c.modify fun d => { d with db := db }

variable {now : Instant} {records : List BatchRecord} {db : Database} {log : Table SyncLog}
  {c c' : Connection SyncData} {fault : SyncLabel → Option ServiceError} {e err : ServiceError}
  {st : Option SyncStatement} {d : SyncData} {l i n : ℕ} {trace : List SyncLabel}

namespace SyncSteps

theorem loop_read {α : Type} {label : SyncLabel} {q : Connection SyncData → α}
    (hlabel : label.inLoop) : (query label q : SyncSteps α).All LoopStatement :=
  all_query ⟨hlabel, fun _ _ h => nomatch h⟩

/-- The creation of a row is within the loop. -/
theorem loop_createBalance (b : LeaveBalance) : (createBalance i b).All LoopStatement := by
  refine all_perform ⟨rfl, fun c c' h => ?_⟩
  dsimp only at h
  split at h
  · cases h
  · cases h
    exact ⟨_, rfl⟩

theorem loop_saveBalance (id : ℕ) (entity : LeaveBalance) :
    (saveBalance i id entity).All LoopStatement :=
  all_write ⟨rfl, fun c c' h => by cases h; exact ⟨_, rfl⟩⟩

/-- So is the report of a discrepancy. -/
theorem loop_reportDiscrepancy (employeeId : ℕ) (isDiscrepancy : Bool) (w : SyncWarning) :
    (reportDiscrepancy i employeeId isDiscrepancy w).All LoopStatement := by
  have hwarn : ∀ w, (warn w).All LoopStatement := fun w => all_write ⟨rfl, fun _ _ h => nomatch h⟩
  rw [reportDiscrepancy]
  split
  · refine all_bind (hwarn w) fun _ => all_bind (loop_read rfl) fun active => ?_
    split
    · exact hwarn _
    · trivial
  · trivial

/-- So is everything that is done for the records. -/
theorem loop_processRecords : (processRecords now i records n).All LoopStatement := by
  induction records generalizing i n with
  | nil => trivial
  | cons r rs ih =>
    refine all_bind (all_bind (loop_read rfl) fun o => ?_) fun _ => ih
    cases o with
    | none => exact all_bind (loop_createBalance _) fun _ => trivial
    | some q =>
      exact all_bind (loop_reportDiscrepancy _ _ _) fun _ =>
        all_bind (loop_saveBalance _ _) fun _ => trivial

/-- The loop stops at the first statement that throws. -/
theorem strict_processRecords : (processRecords now i records n).Strict := by
  induction records generalizing i n with
  | nil => trivial
  | cons r rs ih =>
    refine strict_bind (strict_bind strict_query fun o => ?_) fun _ => ih
    cases o with
    | none => exact strict_bind strict_perform fun _ => trivial
    | some q =>
      refine strict_bind ?_ fun _ => strict_bind strict_write fun _ => trivial
      rw [reportDiscrepancy]
      split
      · refine strict_bind strict_write fun _ => strict_bind strict_query fun active => ?_
        split
        · exact strict_write
        · trivial
      · trivial

/-- The loop touches neither the log nor the transactions, whatever throws. -/
theorem store_processRecords : ∃ db,
    ((processRecords now i records n).run fault c).store = c.modify fun d => { d with db := db } :=
  run_preserves (P := fun c' => ∃ db, c' = c.modify fun d => { d with db := db })
    (all_mono (fun _ _ h c' c'' ⟨db, hc'⟩ hexec => by
      obtain ⟨db', rfl⟩ := h.2 c' c'' hexec
      exact ⟨db', by rw [hc']; rfl⟩) loop_processRecords) ⟨c.data.db, rfl⟩

/-- The loop is not disturbed by a failure elsewhere. -/
theorem run_processRecords (hst : ∀ st', st = some st' → (SyncLabel.statement st').inLoop = false) :
    (processRecords now i records n).run (failing st e) c =
      (processRecords now i records n).run noFault c := by
  refine run_of_all (all_mono (fun label _ h => ?_) loop_processRecords)
  cases label with
  | warn w => rfl
  | statement st' =>
    refine if_neg fun hst' => ?_
    exact Bool.false_ne_true ((hst st' hst').symm.trans h.1)

/-! ## The `catch` of a batch -/

/-- A rollback undoes the batch, and the row in the log is updated. -/
theorem run_catchBatch (now : Instant) (l : ℕ) (err : ServiceError)
    (hroll : fault (.statement .rollbackTransaction) = none)
    (hc : c.snapshots = [d]) : ∃ err' trace, (catchBatch now l err).run fault c =
      ⟨.error err', .idle ((fault (.statement .markFailed)).elim (d.updateLog l (·.fail now err))
        fun _ => d), trace⟩ := by
  have hrollback : rollbackTransaction.run fault c =
      ⟨.ok (), .idle d, [.statement .rollbackTransaction]⟩ := by
    rw [rollbackTransaction, run_perform, hroll, Option.elim_none,
      Connection.rollbackTransaction_eq_some.2 (show c.snapshots = (Connection.idle d).data ::
        (Connection.idle d).snapshots from hc)]
    rfl
  rw [catchBatch, run_bind_ok hrollback]
  dsimp only
  rw [run_bind, updateLog, run_write]
  cases fault (.statement .markFailed) <;> exact ⟨_, _, rfl⟩

/-- A rollback that throws leaves everything as it is. -/
theorem run_catchBatch_of_throws (now : Instant) (l : ℕ) (err : ServiceError)
    (hroll : (fault (.statement .rollbackTransaction)).isSome ∨ c.snapshots = []) :
    ∃ err' trace, (catchBatch now l err).run fault c = ⟨.error err', c, trace⟩ := by
  have hrollback : ∃ err', rollbackTransaction.run fault c =
      ⟨.error err', c, [.statement .rollbackTransaction]⟩ := by
    rw [rollbackTransaction, run_perform]
    cases hfault : fault (.statement .rollbackTransaction) with
    | some e => exact ⟨e, rfl⟩
    | none =>
      rw [hfault] at hroll
      have hc := hroll.resolve_left Bool.false_ne_true
      rw [Option.elim_none, Connection.rollbackTransaction, hc]
      exact ⟨_, rfl⟩
  obtain ⟨err', hrollback⟩ := hrollback
  exact ⟨err', _, run_bind_error hrollback⟩

end SyncSteps

/-! ## Batches -/

/-- What a batch has written before its transaction. -/
def SyncData.batchStarted (now : Instant) (d : SyncData) : SyncData :=
  d.insertLog (.start .batch now)

/-- The loop of a batch, on the connection as it finds it. -/
def runLoop (now : Instant) (records : List BatchRecord) (st : Option SyncStatement)
    (e : ServiceError) (d : SyncData) : Result SyncLabel (Connection SyncData) ServiceError ℕ :=
  (SyncSteps.processRecords now 0 records 0).run (failing st e)
    ⟨d.batchStarted now, [d.batchStarted now]⟩

/-- The `try` of a batch. -/
def runTry (now : Instant) (records : List BatchRecord) (st : Option SyncStatement)
    (e : ServiceError) (d : SyncData) :
    Result SyncLabel (Connection SyncData) ServiceError SyncReport :=
  (SyncSteps.tryBatch now records d.syncLog.nextId).run (failing st e)
    ⟨d.batchStarted now, [d.batchStarted now]⟩

theorem failing_eq_none {st' : SyncStatement} (h : st ≠ some st') :
    failing st e (.statement st') = none := if_neg h

theorem failing_self (st' : SyncStatement) :
    failing (some st') e (.statement st') = some e := if_pos rfl

theorem get_batchStarted :
    (d.batchStarted now).syncLog.get d.syncLog.nextId = some (.start .batch now) := if_pos rfl

/-- The loop goes through records that are all known. -/
theorem loop_of_known (now : Instant) (hknown : ∀ r ∈ records, d.db.Knows r) : ∃ n trace,
    (SyncSteps.processRecords now 0 records 0).run noFault
      ⟨d.batchStarted now, [d.batchStarted now]⟩ =
    ⟨.ok n, ⟨{ d.batchStarted now with db := records.foldl (Database.ingest now) d.db },
      [d.batchStarted now]⟩, trace⟩ := by
  obtain ⟨n, hn⟩ := syncBatchRecords_run now 0 (s := .start d.db) hknown
  obtain ⟨trace, hrun⟩ := (SyncSteps.processRecords_agrees (d.batchStarted now).syncLog
    [d.batchStarted now] 0 records 0).ok hn
  exact ⟨n, trace, hrun⟩

/-- It throws if one of them is not. -/
theorem loop_of_unknown (now : Instant) {r : BatchRecord} (hr : r ∈ records)
    (hunknown : ¬d.db.Knows r) :
    ∃ err, ((SyncSteps.processRecords now 0 records 0).run noFault
      ⟨d.batchStarted now, [d.batchStarted now]⟩).value = .error err := by
  obtain ⟨err, t, ht⟩ := syncBatchRecords_error now 0 (s := .start d.db) hr hunknown
  obtain ⟨trace, hrun⟩ := (SyncSteps.processRecords_agrees (d.batchStarted now).syncLog
    [d.batchStarted now] 0 records 0).error ht
  exact ⟨err, congrArg Result.value hrun⟩

/-- A loop that returns has ingested all records. -/
theorem runLoop_of_ok (hloop : (runLoop now records st e d).value = .ok n) :
    (∀ r ∈ records, d.db.Knows r) ∧ (runLoop now records st e d).store =
      ⟨{ d.batchStarted now with db := records.foldl (Database.ingest now) d.db },
        [d.batchStarted now]⟩ := by
  -- The loop handles no errors: had a statement thrown, so would the loop.
  have hrun := run_of_strict SyncSteps.strict_processRecords hloop
  have hknown : ∀ r ∈ records, d.db.Knows r := fun r hr => by
    by_contra hunknown
    obtain ⟨err, herr⟩ := loop_of_unknown now hr hunknown
    rw [← hrun] at herr
    cases hloop.symm.trans herr
  obtain ⟨m, trace, hm⟩ := loop_of_known now hknown
  exact ⟨hknown, congrArg Result.store (hrun.trans hm)⟩

/-- A loop that throws, though the failure is elsewhere, has come to a record
    that is not known. -/
theorem unknown_of_error (hst : ∀ st', st = some st' → (SyncLabel.statement st').inLoop = false)
    (hloop : (runLoop now records st e d).value = .error err) :
    ∃ r ∈ records, ¬d.db.Knows r := by
  by_contra hno
  simp only [not_exists, not_and, not_not] at hno
  obtain ⟨n, trace, hrun⟩ := loop_of_known now hno
  rw [runLoop, SyncSteps.run_processRecords hst, hrun] at hloop
  cases hloop

/-- A loop that throws leaves the transaction open, and the log alone. -/
theorem exists_store_runLoop : ∃ db, (runLoop now records st e d).store =
    ⟨{ d.batchStarted now with db := db }, [d.batchStarted now]⟩ :=
  SyncSteps.store_processRecords

/-- Where the `try` of a batch ends. -/
inductive Tried (now : Instant) (records : List BatchRecord) (st : Option SyncStatement)
    (e : ServiceError) (d : SyncData) : Prop
  /-- It throws, and its transaction is open. -/
  | threw {err : ServiceError} {db : Database} {trace : List SyncLabel} :
      runTry now records st e d = ⟨.error err,
        ⟨{ d.batchStarted now with db := db }, [d.batchStarted now]⟩, trace⟩ →
      ((∀ r ∈ records, d.db.Knows r) →
        st ≠ some .rollbackTransaction ∧ st ≠ some .markDone) → Tried now records st e d
  /-- It throws after the commit. -/
  | committed {err : ServiceError} {db : Database} {trace : List SyncLabel} :
      runTry now records st e d = ⟨.error err, .idle { d.batchStarted now with db := db }, trace⟩ →
      st = some .markDone → (∀ r ∈ records, d.db.Knows r) → Tried now records st e d
  | returned {report : SyncReport} {trace : List SyncLabel} :
      runTry now records st e d = ⟨.ok report, .idle (({ d.batchStarted now with
        db := records.foldl (Database.ingest now) d.db } : SyncData).updateLog d.syncLog.nextId
          (·.finish now report)), trace⟩ →
      st ≠ some .markDone → (∀ r ∈ records, d.db.Knows r) → Tried now records st e d

/-- How the `try` of a batch ends: each of these ways has its reason. -/
theorem tried : Tried now records st e d := by
  -- Through the `try` from its first statement to the last: the loop, the commit, the mark
  -- of the log.
  obtain ⟨db, hstore⟩ : ∃ db, (runLoop now records st e d).store =
    ⟨{ d.batchStarted now with db := db }, [d.batchStarted now]⟩ := exists_store_runLoop
  cases hloop : (runLoop now records st e d).value with
  | error err =>
    have hrun : runLoop now records st e d = ⟨.error err,
        ⟨{ d.batchStarted now with db := db }, [d.batchStarted now]⟩,
        (runLoop now records st e d).trace⟩ := by
      rw [← hloop, ← hstore]
    refine .threw (run_bind_error hrun) fun hknown => ?_
    -- A failure outside of the loop does not explain what the loop has thrown.
    have hinside : ∀ st', (SyncLabel.statement st').inLoop = false → st ≠ some st' := by
      rintro st' hout rfl
      obtain ⟨r, hr, hunknown⟩ := unknown_of_error (fun _ hst' => by cases hst'; exact hout) hloop
      exact hunknown (hknown r hr)
    exact ⟨hinside _ rfl, hinside _ rfl⟩
  | ok n =>
    obtain ⟨hknown, hdone⟩ := runLoop_of_ok hloop
    have hrun : runLoop now records st e d = ⟨.ok n, ⟨{ d.batchStarted now with
        db := records.foldl (Database.ingest now) d.db }, [d.batchStarted now]⟩,
        (runLoop now records st e d).trace⟩ := by
      rw [← hloop, ← hdone]
    have htry : runTry now records st e d = _ := run_bind_ok hrun
    by_cases hcommit : st = some .commitTransaction
    · -- The commit throws, and the transaction is still open.
      subst hcommit
      have hthrows : ∀ c, SyncSteps.commitTransaction.run (failing (some .commitTransaction) e) c =
          ⟨.error e, c, [.statement .commitTransaction]⟩ := by
        intro c
        rw [SyncSteps.commitTransaction, run_perform, failing_self]
        rfl
      rw [run_bind_error (hthrows _)] at htry
      exact .threw htry fun _ => ⟨by decide, by decide⟩
    · have hcommitted : SyncSteps.commitTransaction.run (failing st e)
          ⟨{ d.batchStarted now with db := records.foldl (Database.ingest now) d.db },
            [d.batchStarted now]⟩ = ⟨.ok (), .idle { d.batchStarted now with
              db := records.foldl (Database.ingest now) d.db }, [.statement .commitTransaction]⟩ :=
        SyncSteps.run_commitTransaction (failing_eq_none hcommit) rfl
      rw [run_bind_ok hcommitted] at htry
      by_cases hmark : st = some .markDone
      · -- This is within the `try`, though the commit has been made.
        subst hmark
        have hthrows : ∀ l f c, (SyncSteps.updateLog .markDone l f).run
            (failing (some .markDone) e) c = ⟨.error e, c, [.statement .markDone]⟩ := by
          intro l f c
          rw [SyncSteps.updateLog, run_write, failing_self]
          rfl
        rw [run_bind_error (hthrows _ _ _)] at htry
        exact .committed htry rfl hknown
      · rw [run_bind_ok (SyncSteps.run_updateLog (failing_eq_none hmark))] at htry
        exact .returned htry hmark hknown

/-- A batch that comes to its `try` ends as this does. -/
theorem runBatch_of_try (hlog : st ≠ some .insertLog) (hstart : st ≠ some .startTransaction)
    {v : Except ServiceError SyncReport}
    (htry : (tryCatch (SyncSteps.tryBatch now records d.syncLog.nextId)
      (SyncSteps.catchBatch now d.syncLog.nextId)).run (failing st e)
        ⟨d.batchStarted now, [d.batchStarted now]⟩ = ⟨v, c', trace⟩) :
    ∃ trace', runBatch now records st e d = ⟨v, c', trace'⟩ :=
  ⟨_, SyncSteps.run_processBatchPayload (failing_eq_none hlog) (failing_eq_none hstart) htry⟩

/-- A batch is atomic if it is rolled back, and its row in the log marked, as
    far as this can be done. -/
theorem batchAtomic_of_rolledBack {err' : ServiceError}
    (hrun : runBatch now records st e d = ⟨.error err',
      .idle ((failing st e (.statement .markFailed)).elim
        ((d.batchStarted now).updateLog d.syncLog.nextId (·.fail now err))
        fun _ => d.batchStarted now), trace⟩) : BatchAtomic now records st e d := by
  refine ⟨fun _ _ => ?_, fun report hok => ?_⟩
  · rw [hrun]
    by_cases hmark : st = some .markFailed
    · subst hmark
      rw [failing_self]
      exact ⟨rfl, fun _ _ hne => absurd rfl hne⟩
    · rw [failing_eq_none hmark]
      refine ⟨rfl, fun log hget _ => ?_⟩
      have hfailed : ((d.batchStarted now).syncLog.update d.syncLog.nextId
          (·.fail now err)).get d.syncLog.nextId = some _ :=
        Table.get_update_self get_batchStarted
      obtain rfl := Option.some.inj (hget.symm.trans hfailed)
      rfl
  · rw [hrun] at hok
    cases hok

/-- A batch is not atomic if it throws, and leaves its row in the log as
    `STARTED`. -/
theorem not_batchAtomic (hst : st ≠ some .markFailed) {err : ServiceError}
    (hrun : runBatch now records st e d = ⟨.error err, c, trace⟩)
    (hc : c.data.syncLog = (d.batchStarted now).syncLog) : ¬BatchAtomic now records st e d := by
  intro h
  have hfailed := (h.thrown err (by rw [hrun])).2 (.start .batch now)
    (by rw [hrun, hc]; exact get_batchStarted) hst
  cases hfailed

/-- If the log cannot be inserted, then nothing else happens. -/
theorem batchAtomic_of_insertLog : BatchAtomic now records (some .insertLog) e d := by
  have hthrows : (SyncSteps.insertLog (.start .batch now)).run (failing (some .insertLog) e)
      (.idle d) = ⟨.error e, .idle d, [.statement .insertLog]⟩ := rfl
  have hrun : runBatch now records (some .insertLog) e d = _ := run_bind_error hthrows
  refine ⟨fun _ _ => ?_, fun report hok => ?_⟩
  · rw [hrun]
    refine ⟨rfl, fun log hget => ?_⟩
    rw [show (Connection.idle d).data.syncLog.get d.syncLog.nextId = none from Table.get_nextId]
      at hget
    cases hget
  · rw [hrun] at hok
    cases hok

theorem not_batchAtomic_of_startTransaction :
    ¬BatchAtomic now records (some .startTransaction) e d := by
  have hrun : runBatch now records (some .startTransaction) e d = _ :=
    run_bind_ok (SyncSteps.run_insertLog _ rfl)
  exact not_batchAtomic nofun hrun rfl

/-- A batch with one failure is atomic, unless the failure is that of
    `startTransaction`, that of the last update of the log, with nothing else
    wrong, or that of a rollback. -/
theorem batchAtomic_iff : BatchAtomic now records st e d ↔
    st ≠ some .startTransaction ∧
    (st = some .markDone → ∃ r ∈ records, ¬d.db.Knows r) ∧
    (st = some .rollbackTransaction → ∀ r ∈ records, d.db.Knows r) := by
  by_cases hstart : st = some .startTransaction
  · subst hstart
    exact iff_of_false not_batchAtomic_of_startTransaction fun h => h.1 rfl
  by_cases hlog : st = some .insertLog
  · subst hlog
    exact iff_of_true batchAtomic_of_insertLog ⟨nofun, nofun, nofun⟩
  have htried : Tried now records st e d := tried
  cases htried with
  | @threw err db trace htry hknown =>
    let c : Connection SyncData :=
      ⟨{ d.batchStarted now with db := db }, [d.batchStarted now]⟩
    have hboth := run_tryCatch_error (h := SyncSteps.catchBatch now d.syncLog.nextId) htry
    by_cases hroll : st = some .rollbackTransaction
    · -- The rollback throws, so that the row in the log is not marked.
      have hthrows : (failing st e (.statement .rollbackTransaction)).isSome ∨ c.snapshots = [] :=
        .inl (by rw [hroll, failing_self]; rfl)
      obtain ⟨err', trace', hcatch⟩ :=
        SyncSteps.run_catchBatch_of_throws now d.syncLog.nextId err hthrows
      rw [hcatch] at hboth
      obtain ⟨trace'', hrun⟩ := runBatch_of_try hlog hstart hboth
      refine iff_of_false (not_batchAtomic (by rw [hroll]; nofun) hrun rfl) fun h => ?_
      exact (hknown (h.2.2 hroll)).1 hroll
    · have hopen : c.snapshots = [d.batchStarted now] := rfl
      obtain ⟨err', trace', hcatch⟩ := SyncSteps.run_catchBatch now d.syncLog.nextId err
        (failing_eq_none (e := e) hroll) hopen
      rw [hcatch] at hboth
      obtain ⟨trace'', hrun⟩ := runBatch_of_try hlog hstart hboth
      refine iff_of_true (batchAtomic_of_rolledBack hrun) ⟨hstart, fun hmark => ?_, fun h => ?_⟩
      · by_contra hno
        simp only [not_exists, not_and, not_not] at hno
        exact (hknown hno).2 hmark
      · exact absurd h hroll
  | @committed err db trace htry hmark hknown =>
    -- There is nothing to roll back any more: the rollback throws.
    let c : Connection SyncData := .idle { d.batchStarted now with db := db }
    have hthrows : (failing st e (.statement .rollbackTransaction)).isSome ∨ c.snapshots = [] :=
      .inr rfl
    obtain ⟨err', trace', hcatch⟩ :=
      SyncSteps.run_catchBatch_of_throws now d.syncLog.nextId err hthrows
    have hboth := run_tryCatch_error (h := SyncSteps.catchBatch now d.syncLog.nextId) htry
    rw [hcatch] at hboth
    obtain ⟨trace'', hrun⟩ := runBatch_of_try hlog hstart hboth
    refine iff_of_false (not_batchAtomic (by rw [hmark]; nofun) hrun rfl) fun h => ?_
    obtain ⟨r, hr, hunknown⟩ := h.2.1 hmark
    exact hunknown (hknown r hr)
  | @returned report trace htry hmark hknown =>
    have hboth := run_tryCatch_ok (h := SyncSteps.catchBatch now d.syncLog.nextId) htry
    obtain ⟨trace', hrun⟩ := runBatch_of_try hlog hstart hboth
    refine iff_of_true ⟨fun err herr => ?_, fun report' _ => ?_⟩
      ⟨hstart, fun h => absurd h hmark, fun _ => hknown⟩
    · rw [hrun] at herr
      cases herr
    · rw [hrun]
      exact ⟨rfl, _, Table.get_update_self get_batchStarted, rfl⟩

/-! ## Webhooks -/

/-- The run of a webhook on `d`, with the failure of `st`. -/
def runWebhook (now : Instant) (payload : BatchRecord) (st : Option SyncStatement)
    (e : ServiceError) (d : SyncData) : Result SyncLabel (Connection SyncData) ServiceError Unit :=
  (SyncSteps.processWebhookPayload now payload).run (failing st e) (.idle d)

/-- A webhook that throws has left the balances as they were; if it returns, it
    has ingested its payload, and its row in the log is `DONE`. -/
structure WebhookAtomic (now : Instant) (payload : BatchRecord) (st : Option SyncStatement)
    (e : ServiceError) (d : SyncData) : Prop where
  thrown : ∀ err, (runWebhook now payload st e d).value = .error err →
    (runWebhook now payload st e d).store.data.db.balances = d.db.balances
  returned : (runWebhook now payload st e d).value = .ok () →
    (runWebhook now payload st e d).store.data.db = d.db.ingest now payload ∧
    ∃ log, (runWebhook now payload st e d).store.data.syncLog.get d.syncLog.nextId = some log ∧
      log.status = .done

variable {payload : BatchRecord} {id : ℕ} {b : LeaveBalance}

/-- The balances are as they were after a save that changes nothing. -/
theorem saveBalance_eq_iff (hb : db.balances.get id = some b) (totalDays : ℚ)
    (hcmVersion : String) :
    (db.saveBalance id (b.merge now totalDays hcmVersion)).balances = db.balances ↔
      b.merge now totalDays hcmVersion = b := by
  have hget := get_saveBalance hb (b.merge now totalDays hcmVersion) rfl
  constructor
  · intro h
    have hid := hget id
    rw [if_pos rfl, h, hb] at hid
    exact (Option.some.inj hid).symm
  · intro h
    refine KeyedTable.ext_toTable (Table.ext_get rfl (funext fun i => ?_))
    rw [hget, h]
    split
    · next hi => rw [hi, hb]
    · rfl

/-- A webhook that throws with the balances in the state `t`. -/
theorem webhookAtomic_of_error
    (hrun : runWebhook now payload st e d = ⟨.error err, c, trace⟩) :
    WebhookAtomic now payload st e d ↔ c.data.db.balances = d.db.balances := by
  constructor
  · intro h
    have hthrown := h.thrown err (by rw [hrun])
    rwa [hrun] at hthrown
  · refine fun h => ⟨fun _ _ => by rw [hrun]; exact h, fun hok => ?_⟩
    rw [hrun] at hok
    cases hok

namespace SyncSteps

theorem run_findOne_of_throws (key : BalanceKey) (h : fault (.statement (.findOne i)) = some e) :
    (findOne i key).run fault c = ⟨.error e, c, [.statement (.findOne i)]⟩ := by
  rw [findOne, run_query, h]
  rfl

theorem run_findOne (key : BalanceKey) (h : fault (.statement (.findOne i)) = none) :
    (findOne i key).run fault c =
      ⟨.ok (c.data.db.balances.lookup key), c, [.statement (.findOne i)]⟩ := by
  rw [findOne, run_query, h]
  rfl

/-- A row is saved. -/
theorem run_saveBalance (id : ℕ) (entity : LeaveBalance)
    (h : fault (.statement (.save i)) = none) :
    (saveBalance i id entity).run fault c =
      ⟨.ok (), saved id entity c, [.statement (.save i)]⟩ := by
  rw [saveBalance, run_write, h]
  rfl

theorem run_saveBalance_of_throws (id : ℕ) (entity : LeaveBalance)
    (h : fault (.statement (.save i)) = some e) :
    (saveBalance i id entity).run fault c = ⟨.error e, c, [.statement (.save i)]⟩ := by
  rw [saveBalance, run_write, h]
  rfl

theorem run_insertLog_of_throws (log : SyncLog) (h : fault (.statement .insertLog) = some e) :
    (insertLog log).run fault c = ⟨.error e, c, [.statement .insertLog]⟩ := by
  refine run_bind_error ?_
  rw [Script.execute, run_stmt, h]
  rfl

theorem run_warn (w : SyncWarning) (h : fault (.warn w) = none) :
    (warn w).run fault c = ⟨.ok (), c, [.warn w]⟩ := by
  rw [warn, run_write, h]
  rfl

/-- A discrepancy that can be reported, or none. -/
theorem run_reportDiscrepancy (employeeId : ℕ) (isDiscrepancy : Bool) (w : SyncWarning)
    (hwarn : ∀ w, fault (.warn w) = none)
    (h : isDiscrepancy → fault (.statement (.findActive i)) = none) :
    (reportDiscrepancy i employeeId isDiscrepancy w).run fault c =
      ⟨.ok (), c, ((reportDiscrepancy i employeeId isDiscrepancy w).run fault c).trace⟩ := by
  rw [reportDiscrepancy]
  cases isDiscrepancy with
  | false => rfl
  | true =>
    rw [if_pos rfl, run_bind_ok (run_warn w (hwarn w)), flagActiveRequests, run_bind, run_query,
      h rfl]
    dsimp only [Option.elim_none]
    split
    · rw [run_warn _ (hwarn _)]
    · rfl

/-- The search for the affected requests throws. -/
theorem run_reportDiscrepancy_of_throws (employeeId : ℕ) (w : SyncWarning)
    (hwarn : fault (.warn w) = none) (h : fault (.statement (.findActive i)) = some e) :
    (reportDiscrepancy i employeeId true w).run fault c =
      ⟨.error e, c, [.warn w, .statement (.findActive i)]⟩ := by
  rw [reportDiscrepancy, if_pos rfl, run_bind_ok (run_warn w hwarn), flagActiveRequests, run_bind,
    run_query, h]
  rfl

end SyncSteps

/-- What a webhook does after it has found its row. -/
theorem webhookAtomic_iff_of_found (hl : d.db.balances.lookup payload.toBalanceKey = some (id, b))
    (hfind : st ≠ some (.findOne 0)) : WebhookAtomic now payload st e d ↔
    (st = some .insertLog ∨
      (st = some (.findActive 0) ∧ detectDiscrepancy payload.totalDays b.usedDays b.reservedDays) →
      b.merge now payload.totalDays payload.hcmVersion = b) := by
  -- By the statement that throws, in the order in which they are executed.
  have hb := (KeyedTable.lookup_eq_some.1 hl).1
  have hfound : (SyncSteps.findOne 0 payload.toBalanceKey).run (failing st e) (.idle d) =
      ⟨.ok (some (id, b)), .idle d, [.statement (.findOne 0)]⟩ := by
    rw [← hl]
    exact SyncSteps.run_findOne _ (failing_eq_none hfind)
  have hrun : runWebhook now payload st e d = _ := run_bind_ok hfound
  dsimp only at hrun
  by_cases hsave : st = some (.save 0)
  · -- Nothing has been written.
    subst hsave
    rw [run_bind_error (SyncSteps.run_saveBalance_of_throws id _ rfl)] at hrun
    exact iff_of_true ((webhookAtomic_of_error hrun).2 rfl) (by rintro (h | ⟨h, _⟩) <;> cases h)
  rw [run_bind_ok (SyncSteps.run_saveBalance id _ (failing_eq_none hsave))] at hrun
  by_cases hlog : st = some .insertLog
  · -- The row has been saved, outside of any transaction.
    subst hlog
    rw [run_bind_error (SyncSteps.run_insertLog_of_throws _ rfl)] at hrun
    rw [webhookAtomic_of_error hrun]
    exact (saveBalance_eq_iff hb _ _).trans ⟨fun h _ => h, fun h => h (.inl rfl)⟩
  rw [run_bind_ok (SyncSteps.run_insertLog _ (failing_eq_none hlog))] at hrun
  by_cases hactive : st = some (.findActive 0) ∧
      detectDiscrepancy payload.totalDays b.usedDays b.reservedDays
  · obtain ⟨rfl, hdiscrepancy⟩ := hactive
    rw [hdiscrepancy, SyncSteps.run_reportDiscrepancy_of_throws _ _ rfl rfl] at hrun
    rw [webhookAtomic_of_error hrun]
    exact (saveBalance_eq_iff hb _ _).trans ⟨fun h _ => h, fun h => h (.inr ⟨rfl, hdiscrepancy⟩)⟩
  · rw [SyncSteps.run_reportDiscrepancy _ _ _ (fun _ => rfl) fun h =>
      failing_eq_none fun hst => hactive ⟨hst, h⟩] at hrun
    refine iff_of_true ⟨fun err herr => ?_, fun _ => ?_⟩ fun h =>
      absurd h (not_or.2 ⟨hlog, hactive⟩)
    · rw [hrun] at herr
      cases herr
    · rw [hrun, Database.ingest, hl]
      exact ⟨rfl, _, if_pos rfl, rfl⟩

/-- A webhook with one failure is atomic, unless something after its save is to
    fail, and the save changes the row. -/
theorem webhookAtomic_iff : WebhookAtomic now payload st e d ↔
    (st = some .insertLog ∨ (st = some (.findActive 0) ∧ d.db.isDiscrepant payload) →
      ∀ i b, d.db.balances.lookup payload.toBalanceKey = some (i, b) →
        b.merge now payload.totalDays payload.hcmVersion = b) := by
  by_cases hfind : st = some (.findOne 0)
  · subst hfind
    have hthrows : runWebhook now payload (some (.findOne 0)) e d = _ :=
      run_bind_error (SyncSteps.run_findOne_of_throws _ rfl)
    exact iff_of_true ((webhookAtomic_of_error hthrows).2 rfl) (by rintro (h | ⟨h, _⟩) <;> cases h)
  rw [Database.isDiscrepant]
  cases hl : d.db.balances.lookup payload.toBalanceKey with
  | some p =>
    obtain ⟨id, b⟩ := p
    rw [webhookAtomic_iff_of_found hl hfind]
    simp only [Option.some.injEq, Prod.mk.injEq, and_imp, forall_eq', forall_apply_eq_imp_iff]
  | none =>
    have hfound : (SyncSteps.findOne 0 payload.toBalanceKey).run (failing st e) (.idle d) =
        ⟨.ok none, .idle d, [.statement (.findOne 0)]⟩ := by
      rw [← hl]
      exact SyncSteps.run_findOne _ (failing_eq_none hfind)
    have hrun : runWebhook now payload st e d = _ := run_bind_ok hfound
    refine iff_of_true ((webhookAtomic_of_error hrun).2 rfl) fun _ i b h => ?_
    cases h

/-- When a sync with one failure is atomic. -/
theorem sync_atomic_iff :
    (BatchAtomic now records st e d ↔
      st ≠ some .startTransaction ∧
      (st = some .markDone → ∃ r ∈ records, ¬d.db.Knows r) ∧
      (st = some .rollbackTransaction → ∀ r ∈ records, d.db.Knows r)) ∧
    (WebhookAtomic now payload st e d ↔
      (st = some .insertLog ∨ (st = some (.findActive 0) ∧ d.db.isDiscrepant payload) →
        ∀ i b, d.db.balances.lookup payload.toBalanceKey = some (i, b) →
          b.merge now payload.totalDays payload.hcmVersion = b)) :=
  ⟨batchAtomic_iff, webhookAtomic_iff⟩

/-- The total of the employee is raised to 12 days, and the last update of the
    log throws: so does the batch, and the log goes on saying `STARTED`, but
    the new total is there. -/
theorem batch_committed_in_error :
    let r := runBatch 0 [⟨sampleKey, 12, "2"⟩] (some .markDone) (.database "SQLITE_BUSY")
      ⟨sampleDb 10, .empty⟩
    r.value.isOk = false ∧
    (r.store.data.db.balances.get 0).map LeaveBalance.totalDays = some 12 ∧
    (r.store.data.syncLog.get 0).map SyncLog.status = some .started ∧
    ¬BatchAtomic 0 [⟨sampleKey, 12, "2"⟩] (some .markDone) (.database "SQLITE_BUSY")
      ⟨sampleDb 10, .empty⟩ := by
  intro r
  have hvalue : r.value.isOk = false := by decide +kernel
  have hlog : (r.store.data.syncLog.get 0).map SyncLog.status = some .started := by decide +kernel
  refine ⟨hvalue, by decide +kernel, hlog, fun h => ?_⟩
  obtain ⟨log, hget, hstatus⟩ := Option.map_eq_some_iff.1 hlog
  cases hr : r.value with
  | ok report =>
    rw [hr] at hvalue
    cases hvalue
  | error err => cases hstatus.symm.trans ((h.thrown err hr).2 log hget nofun)

end TimeOff
