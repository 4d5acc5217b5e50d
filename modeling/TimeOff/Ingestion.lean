import TimeOff.Sync.Stepwise
import TimeOff.System

/-!
# Ingesting a batch

A record of a batch finds the row of its key and merges into it, or creates the
row (`Database.ingest`). `upsertFromHcm` of the `BalanceService` does the same
for a single record. A batch that returns leaves the balances that upserts of
its records, one after the other, leave (`batch_upserts`), whatever their times
are: hence `Alike`, i.e., the same up to `last_synced_at`.

A record fails if it is for a new key whose employee does not exist, and it
makes its batch fail (`syncBatchRecords_error`).
-/

namespace TimeOff

open Transaction Script

/-- `upsertFromHcm` -/
def upsertFromHcm (now : Instant) (record : BatchRecord) : Tx Bool := do
  let s ← get
  match s.db.balances.lookup record.toBalanceKey with
  | none =>
    if (s.db.employees.get record.employeeId).isNone then
      throw (.foreignKey s!"employee_id {record.employeeId}")
    else do
      execute fun db => db.createBalance (record.balance now)
      pure false
  | some (id, b) =>
    let isDiscrepancy := detectDiscrepancy record.totalDays b.usedDays b.reservedDays
    execute fun db => db.saveBalance id (b.merge now record.totalDays record.hcmVersion)
    pure isDiscrepancy

/-- Upserts one after the other, each with its time, and what they report. -/
def upsertAll : List (Instant × BatchRecord) → Tx (List Bool)
  | [] => pure []
  | (now, record) :: rest => do
    let isDiscrepancy ← upsertFromHcm now record
    let others ← upsertAll rest
    pure (isDiscrepancy :: others)

namespace Database

/-- A record is merged into the row of its key, or creates it. -/
def ingest (now : Instant) (db : Database) (r : BatchRecord) : Database :=
  match db.balances.lookup r.toBalanceKey with
  | some (id, b) => db.saveBalance id (b.merge now r.totalDays r.hcmVersion)
  | none => db.createBalance (r.balance now)

/-- Whether a record is found to be a discrepancy. -/
def isDiscrepant (db : Database) (r : BatchRecord) : Bool :=
  match db.balances.lookup r.toBalanceKey with
  | some (_, b) => detectDiscrepancy r.totalDays b.usedDays b.reservedDays
  | none => false

/-- The record has a row, or an employee to create one for. -/
def Knows (db : Database) (r : BatchRecord) : Prop :=
  db.balances.lookup r.toBalanceKey ≠ none ∨ db.employees.get r.employeeId ≠ none

end Database

variable {db db' : Database} {now now' : Instant} {r q : BatchRecord} {records : List BatchRecord}
  {s s' : Session} {i n : ℕ} {b b' : LeaveBalance}

/-- A record that has no row has an employee. -/
theorem Database.Knows.employee (hr : db.Knows r)
    (hl : db.balances.lookup r.toBalanceKey = none) :
    ¬(db.employees.get r.employeeId).isNone := by
  rw [Option.isNone_iff_eq_none]
  exact hr.resolve_left (not_not.2 hl)

/-- A record that is known is ingested, and whether it is discrepant is returned.
    -/
theorem syncBatchRecord_run (hr : s.db.Knows r) :
    (syncBatchRecord now r).run s =
      .ok (s.db.isDiscrepant r) { s with db := s.db.ingest now r } := by
  rw [syncBatchRecord, run_get_bind, Database.isDiscrepant, Database.ingest]
  cases hl : s.db.balances.lookup r.toBalanceKey with
  | some p => rfl
  | none =>
    dsimp only
    rw [if_neg (hr.employee hl)]
    rfl

/-- A record that is not known is refused, and nothing is written. -/
theorem syncBatchRecord_error (now : Instant) (hr : ¬s.db.Knows r) :
    ∃ e, (syncBatchRecord now r).run s = .error e s := by
  obtain ⟨hl, hemployee⟩ := not_or.1 hr
  rw [syncBatchRecord, run_get_bind, not_not.1 hl]
  dsimp only
  rw [if_pos (by rwa [Option.isNone_iff_eq_none, ← not_not (a := _ = none)])]
  exact ⟨_, rfl⟩

/-- The two implementations of an upsert agree. -/
theorem upsertFromHcm_run (hr : s.db.Knows r) :
    (upsertFromHcm now r).run s = .ok (s.db.isDiscrepant r) { s with db := s.db.ingest now r } := by
  rw [upsertFromHcm, run_get_bind, Database.isDiscrepant, Database.ingest]
  cases hl : s.db.balances.lookup r.toBalanceKey with
  | some p => rfl
  | none =>
    dsimp only
    rw [if_neg (hr.employee hl)]
    rfl

/-! ## What a record does to the rows -/

/-- Employees are read only. -/
@[simp] theorem employees_ingest : (db.ingest now r).employees = db.employees := by
  rw [Database.ingest]
  split
  · rfl
  · rw [Database.createBalance]
    split <;> rfl

/-- A row after a record: it has been there, or it is the new one. -/
theorem get_ingest : (db.ingest now r).balances.get i = some b' ↔
    (∃ b, db.balances.get i = some b ∧
      b' = if b.toBalanceKey = r.toBalanceKey then b.merge now r.totalDays r.hcmVersion else b) ∨
    (db.balances.lookup r.toBalanceKey = none ∧ i = db.balances.nextId ∧ b' = r.balance now) := by
  rw [Database.ingest]
  -- The two branches of the source: the row that is found is saved, or a row is created.
  -- The key is unique, so that no other row has it.
  cases hl : db.balances.lookup r.toBalanceKey with
  | some p =>
    obtain ⟨id, c⟩ := p
    obtain ⟨hc, hk⟩ := KeyedTable.lookup_eq_some.1 hl
    dsimp only
    rw [get_saveBalance hc (c.merge now r.totalDays r.hcmVersion) rfl]
    constructor
    · intro h
      split at h
      · next hi => exact .inl ⟨c, hi ▸ hc, by rw [if_pos hk, Option.some.inj h]⟩
      · next hi =>
        refine .inl ⟨b', h, ?_⟩
        rw [if_neg fun hk' => hi (db.balances.unique h hc (hk'.trans hk.symm))]
    · rintro (⟨b, hb, rfl⟩ | ⟨hnone, _⟩)
      · by_cases hi : i = id
        · obtain rfl := Option.some.inj (hb.symm.trans (hi ▸ hc))
          rw [if_pos hi, if_pos hk]
        · rw [if_neg hi, if_neg fun hk' => hi (db.balances.unique hb hc (hk'.trans hk.symm)), hb]
      · cases hnone
  | none =>
    have hfree : db.balances.lookup (r.balance now).toBalanceKey = none := hl
    dsimp only
    rw [Database.createBalance, dif_pos hfree]
    change (db.balances.toTable.insert (r.balance now)).get i = some b' ↔ _
    rw [Table.get_insert_eq_some]
    constructor
    · rintro (⟨hi, rfl⟩ | h)
      · exact .inr ⟨rfl, hi, rfl⟩
      · exact .inl ⟨b', h, by rw [if_neg (KeyedTable.lookup_eq_none.1 hl i b' h)]⟩
    · rintro (⟨b, hb, rfl⟩ | ⟨_, hi, rfl⟩)
      · rw [if_neg (KeyedTable.lookup_eq_none.1 hl i b hb)]
        exact .inr hb
      · exact .inl ⟨hi, rfl⟩

theorem get_createBalance (hfree : db.balances.lookup b.toBalanceKey = none) :
    (db.createBalance b).balances.get i =
      if i = db.balances.nextId then some b else db.balances.get i := by
  rw [Database.createBalance, dif_pos hfree]
  rfl

/-- A record takes a new id if its key has no row yet. -/
theorem nextId_ingest : (db.ingest now r).balances.nextId =
    if db.balances.lookup r.toBalanceKey = none then db.balances.nextId + 1
    else db.balances.nextId := by
  rw [Database.ingest]
  cases hl : db.balances.lookup r.toBalanceKey with
  | some p => rfl
  | none =>
    have hfree : db.balances.lookup (r.balance now).toBalanceKey = none := hl
    dsimp only
    rw [Database.createBalance, dif_pos hfree, if_pos rfl]
    rfl

/-- The row of a record has the total and the version of the record. -/
theorem exists_ingest (now : Instant) (db : Database) (r : BatchRecord) :
    ∃ i b, (db.ingest now r).balances.get i = some b ∧ b.toBalanceKey = r.toBalanceKey ∧
      b.totalDays = r.totalDays ∧ b.hcmVersion = some r.hcmVersion := by
  cases hl : db.balances.lookup r.toBalanceKey with
  | some p =>
    obtain ⟨id, c⟩ := p
    obtain ⟨hc, hk⟩ := KeyedTable.lookup_eq_some.1 hl
    exact ⟨id, _, get_ingest.2 (.inl ⟨c, hc, rfl⟩), by rw [if_pos hk]; exact ⟨hk, rfl, rfl⟩⟩
  | none => exact ⟨_, _, get_ingest.2 (.inr ⟨hl, rfl, rfl⟩), rfl, rfl, rfl⟩

/-- Records of other keys leave a row alone. -/
theorem get_ingestAll (hb : db.balances.get i = some b)
    (hne : ∀ r ∈ records, r.toBalanceKey ≠ b.toBalanceKey) :
    (records.foldl (Database.ingest now) db).balances.get i = some b := by
  induction records generalizing db with
  | nil => exact hb
  | cons r rs ih =>
    refine ih (get_ingest.2 (.inl ⟨b, hb, ?_⟩)) fun q hq => hne q (List.mem_cons_of_mem _ hq)
    rw [if_neg (hne r List.mem_cons_self).symm]

/-- A record that has been ingested does not change what is known. -/
theorem knows_ingest (hr : db.Knows r) : (db.ingest now r).Knows q ↔ db.Knows q := by
  rw [Database.Knows, Database.Knows, employees_ingest]
  -- A record can only make known what was: the row that it creates is of an employee that
  -- exists.
  constructor
  · rintro (hl | hemployee)
    · obtain ⟨⟨i, b'⟩, hl⟩ := Option.ne_none_iff_exists'.1 hl
      obtain ⟨hb', hk'⟩ := KeyedTable.lookup_eq_some.1 hl
      rcases get_ingest.1 hb' with ⟨b, hb, rfl⟩ | ⟨hfree, _, rfl⟩
      · have hk : b.toBalanceKey = q.toBalanceKey := by
          rw [← hk']
          split <;> rfl
        exact .inl (by rw [KeyedTable.lookup_eq_some.2 ⟨hb, hk⟩]; exact Option.some_ne_none _)
      · -- The record has created the row, for an employee that exists.
        have hkey : r.toBalanceKey = q.toBalanceKey := hk'
        have hid : r.employeeId = q.employeeId := congrArg BalanceKey.employeeId hkey
        exact .inr (hid ▸ hr.resolve_left (not_not.2 hfree))
    · exact .inr hemployee
  · rintro (hl | hemployee)
    · obtain ⟨⟨i, b⟩, hl⟩ := Option.ne_none_iff_exists'.1 hl
      obtain ⟨hb, hk⟩ := KeyedTable.lookup_eq_some.1 hl
      have hk' : (if b.toBalanceKey = r.toBalanceKey then b.merge now r.totalDays r.hcmVersion
          else b).toBalanceKey = q.toBalanceKey := by
        rw [← hk]
        split <;> rfl
      exact .inl (by
        rw [KeyedTable.lookup_eq_some.2 ⟨get_ingest.2 (.inl ⟨b, hb, rfl⟩), hk'⟩]
        exact Option.some_ne_none _)
    · exact .inr hemployee

/-! ## Batches -/

/-- A batch whose records are all known ingests them in order. -/
theorem syncBatchRecords_run (now : Instant) (n : ℕ) (hknown : ∀ r ∈ records, s.db.Knows r) :
    ∃ d, (syncBatchRecords now records n).run s =
      .ok d { s with db := records.foldl (Database.ingest now) s.db } := by
  induction records generalizing s n with
  | nil => exact ⟨n, rfl⟩
  | cons r rs ih =>
    have hr := hknown r List.mem_cons_self
    obtain ⟨d, hd⟩ := ih (if s.db.isDiscrepant r then n + 1 else n)
      (s := { s with db := s.db.ingest now r })
      fun q hq => (knows_ingest hr).2 (hknown q (List.mem_cons_of_mem _ hq))
    exact ⟨d, bind_eq_ok.2 ⟨_, _, syncBatchRecord_run hr, hd⟩⟩

/-- A batch with a record that is not known fails. -/
theorem syncBatchRecords_error (now : Instant) (n : ℕ) (hr : r ∈ records)
    (hunknown : ¬s.db.Knows r) :
    ∃ e s', (syncBatchRecords now records n).run s = .error e s' := by
  induction records generalizing s n with
  | nil => cases hr
  | cons q rs ih =>
    rw [syncBatchRecords, EStateM.run_bind]
    by_cases hq : s.db.Knows q
    · rw [syncBatchRecord_run hq]
      dsimp only
      refine ih _ ((List.mem_cons.1 hr).resolve_left ?_) fun hr' =>
        hunknown ((knows_ingest hq).1 hr')
      rintro rfl
      exact hunknown hq
    · obtain ⟨e, he⟩ := syncBatchRecord_error now hq
      exact ⟨e, s, by rw [he]⟩

/-! ## Up to the times of the syncs -/

/-- A row without `last_synced_at`. -/
def LeaveBalance.unsynced (b : LeaveBalance) : LeaveBalance := { b with lastSyncedAt := none }

/-- The rows are the same up to `last_synced_at`. -/
structure Balances.Alike (t t' : Balances) : Prop where
  nextId : t'.nextId = t.nextId
  rows : ∀ i, (t'.get i).map LeaveBalance.unsynced = (t.get i).map LeaveBalance.unsynced

namespace Balances.Alike

variable {t t' : Balances} {key : BalanceKey}

theorem refl (t : Balances) : Alike t t := ⟨rfl, fun _ => rfl⟩

theorem symm (h : Alike t t') : Alike t' t := ⟨h.nextId.symm, fun i => (h.rows i).symm⟩

theorem row (h : Alike t t') (hb : t.get i = some b) :
    ∃ b', t'.get i = some b' ∧ b'.unsynced = b.unsynced := by
  have hrow := h.rows i
  rw [hb] at hrow
  exact Option.map_eq_some_iff.1 hrow

theorem key_eq (hb : b'.unsynced = b.unsynced) : b'.toBalanceKey = b.toBalanceKey := by
  change b'.unsynced.toBalanceKey = b.unsynced.toBalanceKey
  rw [hb]

theorem lookup_of_some (h : Alike t t') (hl : t.lookup key = some (i, b)) :
    ∃ b', t'.lookup key = some (i, b') ∧ b'.unsynced = b.unsynced := by
  obtain ⟨hb, hk⟩ := KeyedTable.lookup_eq_some.1 hl
  obtain ⟨b', hb', hsame⟩ := h.row hb
  exact ⟨b', KeyedTable.lookup_eq_some.2 ⟨hb', (key_eq hsame).trans hk⟩, hsame⟩

/-- Alike balances have rows for the same keys. -/
theorem lookup_of_none (h : Alike t t') (hl : t.lookup key = none) : t'.lookup key = none := by
  cases hl' : t'.lookup key with
  | none => rfl
  | some p =>
    obtain ⟨b, hb, _⟩ := h.symm.lookup_of_some hl'
    rw [hb] at hl
    cases hl

end Balances.Alike

/-- Balances that are alike stay so, whenever the record is ingested. -/
theorem alike_ingest (h : db.balances.Alike db'.balances) :
    (db.ingest now r).balances.Alike (db'.ingest now' r).balances where
  nextId := by
    rw [nextId_ingest, nextId_ingest, h.nextId]
    cases hl : db.balances.lookup r.toBalanceKey with
    | none => rw [h.lookup_of_none hl]
    | some p =>
      obtain ⟨b', hl', _⟩ := h.lookup_of_some hl
      rw [hl', if_neg (Option.some_ne_none _), if_neg (Option.some_ne_none _)]
  rows i := by
    -- Both databases take the same branch, for the same row.
    rw [Database.ingest, Database.ingest]
    cases hl : db.balances.lookup r.toBalanceKey with
    | none =>
      have hl' := h.lookup_of_none hl
      have hfree : db.balances.lookup (r.balance now).toBalanceKey = none := hl
      have hfree' : db'.balances.lookup (r.balance now').toBalanceKey = none := hl'
      rw [hl']
      dsimp only
      rw [get_createBalance hfree, get_createBalance hfree', h.nextId]
      split
      · rfl
      · exact h.rows i
    | some p =>
      obtain ⟨id, c⟩ := p
      obtain ⟨c', hl', hsame⟩ := h.lookup_of_some hl
      rw [hl']
      dsimp only
      rw [get_saveBalance (KeyedTable.lookup_eq_some.1 hl).1
          (c.merge now r.totalDays r.hcmVersion) rfl,
        get_saveBalance (KeyedTable.lookup_eq_some.1 hl').1
          (c'.merge now' r.totalDays r.hcmVersion) rfl]
      split
      · -- Both rows are what they have been, but for what the record gives them.
        change some { c'.unsynced with totalDays := r.totalDays, hcmVersion := some r.hcmVersion } =
          some { c.unsynced with totalDays := r.totalDays, hcmVersion := some r.hcmVersion }
        rw [hsame]
      · exact h.rows i

/-- They have the same discrepancies, since these do not depend on
    `last_synced_at`. -/
theorem isDiscrepant_of_alike (h : db.balances.Alike db'.balances) :
    db'.isDiscrepant r = db.isDiscrepant r := by
  rw [Database.isDiscrepant, Database.isDiscrepant]
  cases hl : db.balances.lookup r.toBalanceKey with
  | none => rw [h.lookup_of_none hl]
  | some p =>
    obtain ⟨id, c⟩ := p
    obtain ⟨c', hl', hsame⟩ := h.lookup_of_some hl
    rw [hl']
    change detectDiscrepancy r.totalDays c'.unsynced.usedDays c'.unsynced.reservedDays = _
    rw [hsame]
    rfl

theorem Database.Knows.of_alike (hr : db.Knows r) (h : db.balances.Alike db'.balances)
    (hemployees : db'.employees = db.employees) : db'.Knows r := by
  rw [Knows, hemployees]
  refine hr.imp_left fun hl hl' => hl (h.symm.lookup_of_none hl')

/-- A batch and upserts of its records, from balances that are alike. -/
theorem upserts_simulate (now : Instant) (n : ℕ) (upserts : List (Instant × BatchRecord))
    (hknown : ∀ u ∈ upserts, s.db.Knows u.2) (halike : s.db.balances.Alike s'.db.balances)
    (hemployees : s'.db.employees = s.db.employees) :
    ∃ ds t t', (syncBatchRecords now (upserts.map Prod.snd) n).run s = .ok (n + ds.count true) t ∧
      (upsertAll upserts).run s' = .ok ds t' ∧ t.db.balances.Alike t'.db.balances := by
  induction upserts generalizing s s' n with
  | nil => exact ⟨[], s, s', rfl, rfl, halike⟩
  | cons u rest ih =>
    obtain ⟨now', r⟩ := u
    have hr : s.db.Knows r := hknown _ List.mem_cons_self
    have hr' : s'.db.Knows r := hr.of_alike halike hemployees
    let x : Session := { s with db := s.db.ingest now r }
    let x' : Session := { s' with db := s'.db.ingest now' r }
    have hknown' : ∀ u ∈ rest, x.db.Knows u.2 :=
      fun u hu => (knows_ingest hr).2 (hknown u (List.mem_cons_of_mem _ hu))
    have halike' : x.db.balances.Alike x'.db.balances := alike_ingest halike
    have hemployees' : x'.db.employees = x.db.employees := by
      rw [employees_ingest, employees_ingest, hemployees]
    -- What is discrepant does not depend on when the row has been synced.
    obtain ⟨ds, t, t', hbatch, hupserts, halike'⟩ :=
      ih (if s.db.isDiscrepant r then n + 1 else n) hknown' halike' hemployees'
    refine ⟨s.db.isDiscrepant r :: ds, t, t', ?_, ?_, halike'⟩
    · rw [List.map_cons, syncBatchRecords]
      refine bind_eq_ok.2 ⟨_, _, syncBatchRecord_run hr, hbatch.trans ?_⟩
      congr 1
      cases s.db.isDiscrepant r
      · simp
      · simp only [if_true, List.count_cons_self]
        omega
    · rw [upsertAll]
      refine bind_eq_ok.2 ⟨_, _, upsertFromHcm_run hr', ?_⟩
      rw [isDiscrepant_of_alike halike]
      exact bind_eq_ok.2 ⟨ds, t', hupserts, rfl⟩

/-! ## What a batch comes to -/

variable {log : Table SyncLog}

/-- A batch whose records can be processed returns what its transaction
    returns, and commits what it has done. -/
theorem batch_run (log : Table SyncLog) {d : ℕ} {t : Session}
    (hbody : (syncBatchRecords now records 0).run (.start db) = .ok d t) :
    ∃ trace, (SyncSteps.processBatchPayload now records).run noFault (.idle ⟨db, log⟩) =
      ⟨.ok ⟨records.length, d⟩,
        .idle ⟨t.db, (log.insert (.start .batch now)).update log.nextId
          (·.finish now ⟨records.length, d⟩)⟩, trace⟩ := by
  obtain ⟨trace, hloop⟩ := (SyncSteps.processRecords_agrees (log.insert (.start .batch now))
    [⟨db, log.insert (.start .batch now)⟩] 0 records 0).ok hbody
  have htry := SyncSteps.run_tryBatch (l := log.nextId) hloop rfl rfl rfl
  exact ⟨_, SyncSteps.run_processBatchPayload rfl rfl (run_tryCatch_ok htry)⟩

/-- A batch of records that are all known returns, and leaves what upserts of
    its records leave, one after the other, whenever they are. No transaction is
    open then: all of it is committed. -/
theorem batch_upserts (upserts : List (Instant × BatchRecord))
    (hrecords : upserts.map Prod.snd = records) (hknown : ∀ r ∈ records, db.Knows r) :
    ∃ report c trace ds t,
      (SyncSteps.processBatchPayload now records).run noFault (.idle ⟨db, log⟩) =
        ⟨.ok report, c, trace⟩ ∧ c = .idle c.data ∧
      (upsertAll upserts).run (.start db) = .ok ds t ∧
      c.data.db.balances.Alike t.db.balances ∧
      report.recordsProcessed = records.length ∧ report.discrepancies = ds.count true ∧
      (∀ pre r post, records = pre ++ r :: post → (∀ q ∈ post, q.toBalanceKey ≠ r.toBalanceKey) →
        ∃ i b, c.data.db.balances.get i = some b ∧ b.toBalanceKey = r.toBalanceKey ∧
          b.totalDays = r.totalDays ∧ b.hcmVersion = some r.hcmVersion) ∧
      (∀ i j b b', c.data.db.balances.get i = some b → c.data.db.balances.get j = some b' →
        b.toBalanceKey = b'.toBalanceKey → i = j) ∧
      (∀ i b, db.balances.get i = some b → ∃ b', c.data.db.balances.get i = some b' ∧
        b'.usedDays = b.usedDays ∧ b'.reservedDays = b.reservedDays ∧ b'.version = b.version) ∧
      (∀ i b, db.balances.get i = some b → (∀ r ∈ records, r.toBalanceKey ≠ b.toBalanceKey) →
        c.data.db.balances.get i = some b) := by
  -- The upserts and the records of the batch are stepped through side by side; their
  -- balances stay alike, since only the instants of the writes differ.
  have hupserts : ∀ u ∈ upserts, (Session.start db).db.Knows u.2 := fun u hu =>
    hknown _ (hrecords ▸ List.mem_map_of_mem hu)
  have halike : (Session.start db).db.balances.Alike (Session.start db).db.balances := .refl _
  obtain ⟨ds, t, t', hbatch, hupserts, halike⟩ := upserts_simulate now 0 upserts hupserts halike rfl
  rw [hrecords, Nat.zero_add] at hbatch
  obtain ⟨d, hd⟩ := syncBatchRecords_run now 0 (s := .start db) hknown
  obtain ⟨rfl, rfl⟩ := EStateM.Result.ok.inj (hd.symm.trans hbatch)
  obtain ⟨trace, hrun⟩ := batch_run log hbatch
  refine ⟨_, _, trace, ds, t', hrun, rfl, hupserts, halike, rfl, rfl, ?_, ?_, ?_, ?_⟩
  · -- The last record of the key writes the row, and those after it leave it alone.
    rintro pre r post rfl hpost
    dsimp only [Connection.data_idle]
    rw [List.foldl_append, List.foldl_cons]
    obtain ⟨i, b, hb, hk, htotal, hversion⟩ := exists_ingest now
      (pre.foldl (Database.ingest now) db) r
    exact ⟨i, b, get_ingestAll hb fun q hq => hk ▸ hpost q hq, hk, htotal, hversion⟩
  · exact fun i j b b' hb hb' => (Database.balances _).unique hb hb'
  · intro i b hb
    obtain ⟨b', hb', hsame⟩ := (syncBatchRecords_ok hbatch).balances.kept i b hb
    exact ⟨b', hb', hsame.usedDays, hsame.reservedDays, hsame.version⟩
  · exact fun i b hb hne => get_ingestAll hb hne

/-- A row that is there, and a new one that a later record of the batch finds. -/
theorem batch_upserts_sample : ∃ report c trace,
    (SyncSteps.processBatchPayload 0 [⟨sampleKey, 12, "2"⟩, ⟨⟨1, "LOC1", "SICK"⟩, 5, "1"⟩,
      ⟨⟨1, "LOC1", "SICK"⟩, 4, "2"⟩]).run noFault (.idle ⟨sampleDb 10, .empty⟩) =
        ⟨.ok report, c, trace⟩ ∧ report.recordsProcessed = 3 := by
  have hknown : ∀ r ∈ [(⟨sampleKey, 12, "2"⟩ : BatchRecord), ⟨⟨1, "LOC1", "SICK"⟩, 5, "1"⟩,
      ⟨⟨1, "LOC1", "SICK"⟩, 4, "2"⟩], (sampleDb 10).Knows r := by
    simp only [List.forall_mem_cons, List.not_mem_nil, false_imp_iff, implies_true, and_true]
    exact ⟨.inr nofun, .inr nofun, .inr nofun⟩
  obtain ⟨report, c, trace, _, _, hrun, _, _, _, hprocessed, _⟩ := batch_upserts
    [(7, ⟨sampleKey, 12, "2"⟩), (8, ⟨⟨1, "LOC1", "SICK"⟩, 5, "1"⟩),
      (9, ⟨⟨1, "LOC1", "SICK"⟩, 4, "2"⟩)] rfl hknown
  exact ⟨report, c, trace, hrun, hprocessed⟩

end TimeOff
