import TimeOff.Hcm
import TimeOff.Balance

/-!
# Syncs

The three ways in which `SyncService` takes over the totals of the HCM: a
batch, which creates the balances it does not find, a webhook, and a
reconciliation, which asks the HCM for the balances it selects. Each finds a
row, tests it for a discrepancy, merges the record into its copy, and saves
the copy (`saveBalance`): the save writes every column in which the copy
differs from the row as it is by then.

What a sync reports is what it writes to its row in `sync_log`. Flagging the
requests of an employee only logs them.
-/

namespace TimeOff

open Transaction

/-- `BatchRecord`, and the payload of a webhook. -/
structure BatchRecord extends BalanceKey where
  totalDays : ℚ
  hcmVersion : String

/-- `HcmBalanceResponse` -/
structure HcmBalanceResponse where
  totalDays : ℚ
  hcmVersion : String

/-- The counts in the row of a sync in `sync_log`. -/
structure SyncReport where
  recordsProcessed : ℕ
  discrepancies : ℕ

namespace LeaveBalance

/-- The assignments of a sync to its copy of a row. -/
def merge (now : Instant) (totalDays : ℚ) (hcmVersion : String) (b : LeaveBalance) :
    LeaveBalance :=
  { b with totalDays := totalDays, hcmVersion := some hcmVersion, lastSyncedAt := some now }

/-- The columns of `row` that differ in `entity` are overwritten. The key is
    the same in both: no statement changes it. -/
def overwrite (entity row : LeaveBalance) : LeaveBalance :=
  { row with
    totalDays := if entity.totalDays ≠ row.totalDays then entity.totalDays else row.totalDays
    usedDays := if entity.usedDays ≠ row.usedDays then entity.usedDays else row.usedDays
    reservedDays :=
      if entity.reservedDays ≠ row.reservedDays then entity.reservedDays else row.reservedDays
    lastSyncedAt :=
      if entity.lastSyncedAt ≠ row.lastSyncedAt then entity.lastSyncedAt else row.lastSyncedAt
    hcmVersion := if entity.hcmVersion ≠ row.hcmVersion then entity.hcmVersion else row.hcmVersion
    version := if entity.version ≠ row.version then entity.version else row.version }

/-- Overwriting the columns that differ makes the row equal to the entity. -/
theorem overwrite_eq {entity row : LeaveBalance} (h : entity.toBalanceKey = row.toBalanceKey) :
    overwrite entity row = entity := by
  obtain ⟨key, total, used, reserved, synced, hv, v⟩ := entity
  obtain rfl : key = row.toBalanceKey := h
  simp only [overwrite, mk.injEq, true_and]
  refine ⟨?_, ?_, ?_, ?_, ?_, ?_⟩ <;> split <;> simp_all

theorem key_overwrite (entity row : LeaveBalance) :
    (overwrite entity row).toBalanceKey = row.toBalanceKey := rfl

end LeaveBalance

/-- `save(entity)`, of the row with the given id. -/
def Database.saveBalance (db : Database) (id : ℕ) (entity : LeaveBalance) : Database :=
  { db with
    balances := db.balances.updateId id (LeaveBalance.overwrite entity)
      (LeaveBalance.key_overwrite entity) }

/-- The row that a batch creates. -/
def BatchRecord.balance (now : Instant) (r : BatchRecord) : LeaveBalance :=
  { r with
    usedDays := 0
    reservedDays := 0
    lastSyncedAt := some now
    hcmVersion := some r.hcmVersion
    version := 0 }

/-- The insertion of a row whose key is free. -/
def Database.createBalance (db : Database) (b : LeaveBalance) : Database :=
  if h : db.balances.lookup b.toBalanceKey = none then
    { db with balances := db.balances.insert b h }
  else db

/-- What a sync does to the row it has found, and whether there is a
    discrepancy. -/
def syncRow (now : Instant) (id : ℕ) (b : LeaveBalance) (totalDays : ℚ) (hcmVersion : String) :
    Tx Bool := do
  execute fun db => db.saveBalance id (b.merge now totalDays hcmVersion)
  pure (detectDiscrepancy totalDays b.usedDays b.reservedDays)

/-- One record of a batch. -/
def syncBatchRecord (now : Instant) (r : BatchRecord) : Tx Bool := do
  let s ← get
  match s.db.balances.lookup r.toBalanceKey with
  | some (id, b) => syncRow now id b r.totalDays r.hcmVersion
  | none =>
    if (s.db.employees.get r.employeeId).isNone then
      throw (.foreignKey s!"employee_id {r.employeeId}")
    else do
      execute fun db => db.createBalance (r.balance now)
      pure false

/-- The loop of `processBatchPayload`, with the discrepancies so far. -/
def syncBatchRecords (now : Instant) : List BatchRecord → ℕ → Tx ℕ
  | [], discrepancies => pure discrepancies
  | r :: rs, discrepancies => do
    let isDiscrepancy ← syncBatchRecord now r
    syncBatchRecords now rs (if isDiscrepancy then discrepancies + 1 else discrepancies)

/-- The transaction of `processBatchPayload`. -/
def processBatchPayload (now : Instant) (records : List BatchRecord) : Tx SyncReport := do
  let discrepancies ← syncBatchRecords now records 0
  pure ⟨records.length, discrepancies⟩

/-- `processWebhookPayload` -/
def processWebhookPayload (now : Instant) (payload : BatchRecord) : Tx SyncReport := do
  let s ← get
  match s.db.balances.lookup payload.toBalanceKey with
  | none => throw (.notFound (s!"No balance found for employee {payload.employeeId} at " ++
      s!"{payload.locationId}/{payload.leaveType}"))
  | some (id, b) =>
    let isDiscrepancy ← syncRow now id b payload.totalDays payload.hcmVersion
    pure ⟨1, if isDiscrepancy then 1 else 0⟩

/-! ## Reconciliation -/

/-- Half an hour, in milliseconds. -/
def thirtyMinutes : ℤ := 30 * 60 * 1000

/-- `LessThan(thirtyMinutesAgo)`, which no `NULL` meets. -/
def LeaveBalance.isStale (now : Instant) (b : LeaveBalance) : Bool :=
  b.lastSyncedAt.any (· < now - thirtyMinutes)

/-- `activeEmployeeIds` -/
def activeEmployeeIds (db : Database) : List ℕ :=
  ((db.requests.rows.filter fun r =>
    r.2.status = .pending || r.2.status = .approvedPendingHcm).map (·.2.employeeId)).dedup

/-- The rows that a reconciliation asks the HCM for: the stale ones, and then
    those of the active employees that are not among them. -/
def reconciledBalances (now : Instant) (db : Database) : List (ℕ × LeaveBalance) :=
  let staleBalances := db.balances.rows.filter (·.2.isStale now)
  let activeBalances :=
    db.balances.rows.filter fun b => (activeEmployeeIds db).contains b.2.employeeId
  activeBalances.foldl
    (fun acc b => if (acc.find? (·.1 = b.1)).isNone then acc ++ [b] else acc) staleBalances

/-- What a reconciliation selects are rows. -/
theorem mem_reconciledBalances {now : Instant} {db : Database} {q : ℕ × LeaveBalance}
    (hq : q ∈ reconciledBalances now db) : db.balances.get q.1 = some q.2 := by
  have hfold : ∀ (l acc : List (ℕ × LeaveBalance)), (∀ q ∈ acc, db.balances.get q.1 = some q.2) →
      (∀ q ∈ l, db.balances.get q.1 = some q.2) → ∀ q ∈ l.foldl (fun acc b =>
        if (acc.find? (·.1 = b.1)).isNone then acc ++ [b] else acc) acc,
        db.balances.get q.1 = some q.2 := by
    intro l
    induction l with
    | nil => exact fun acc hacc _ => hacc
    | cons c l ih =>
      intro acc hacc hl
      refine ih _ (fun q hq => ?_) fun q hq => hl q (List.mem_cons_of_mem _ hq)
      change q ∈ ite _ _ _ at hq
      split at hq
      · rcases List.mem_append.1 hq with hq | hq
        · exact hacc q hq
        · obtain rfl := List.mem_singleton.1 hq
          exact hl q List.mem_cons_self
      · exact hacc q hq
  exact hfold _ _ (fun q hq => Table.mem_rows.1 (List.mem_filter.1 hq).1)
    (fun q hq => Table.mem_rows.1 (List.mem_filter.1 hq).1) q hq

/-- The loop of `triggerReconciliation`: a row whose fetch fails is skipped. -/
def reconcileBalances (now : Instant) (fetch : BalanceKey → Option HcmBalanceResponse) :
    List (ℕ × LeaveBalance) → SyncReport → Tx SyncReport
  | [], report => pure report
  | (id, b) :: rest, report =>
    match fetch b.toBalanceKey with
    | none => reconcileBalances now fetch rest report
    | some hcmData => do
      let isDiscrepancy ← syncRow now id b hcmData.totalDays hcmData.hcmVersion
      reconcileBalances now fetch rest
        ⟨report.recordsProcessed + 1,
          if isDiscrepancy then report.discrepancies + 1 else report.discrepancies⟩

/-- `triggerReconciliation` -/
def triggerReconciliation (now : Instant) (fetch : BalanceKey → Option HcmBalanceResponse) :
    Tx SyncReport := do
  let s ← get
  reconcileBalances now fetch (reconciledBalances now s.db) ⟨0, 0⟩

/-- One row of a reconciliation, if no other statement comes between the
    `find`, the fetch of `response` and the save. -/
def reconcileRow (now : Instant) (id : ℕ) (response : HcmBalanceResponse) : Tx Bool := do
  match (← get).db.balances.get id with
  | some b => syncRow now id b response.totalDays response.hcmVersion
  | none => throw (.notFound s!"Balance {id}")

/-! ## What a sync does to the balances -/

/-- `b'` is `b` up to what a sync writes. -/
structure LeaveBalance.SameCounters (b b' : LeaveBalance) : Prop where
  key : b'.toBalanceKey = b.toBalanceKey
  usedDays : b'.usedDays = b.usedDays
  reservedDays : b'.reservedDays = b.reservedDays
  version : b'.version = b.version

theorem LeaveBalance.SameCounters.refl (b : LeaveBalance) : b.SameCounters b := ⟨rfl, rfl, rfl, rfl⟩

theorem LeaveBalance.SameCounters.trans {a b c : LeaveBalance} (h : a.SameCounters b)
    (h' : b.SameCounters c) : a.SameCounters c :=
  ⟨h'.key.trans h.key, h'.usedDays.trans h.usedDays, h'.reservedDays.trans h.reservedDays,
    h'.version.trans h.version⟩

/-- The balances are the same up to what syncs write, and new ones without any
    days used or reserved. -/
structure Balances.Synced (t t' : Balances) : Prop where
  kept : ∀ i b, t.get i = some b → ∃ b', t'.get i = some b' ∧ b.SameCounters b'
  new : ∀ i b', t'.get i = some b' → t.get i = none →
    b'.usedDays = 0 ∧ b'.reservedDays = 0 ∧ t.lookup b'.toBalanceKey = none

namespace Balances.Synced

variable {t t' t'' : Balances}

theorem refl (t : Balances) : Synced t t where
  kept i b h := ⟨b, h, .refl b⟩
  new i b h h' := by rw [h] at h'; cases h'

/-- Syncs after one another are a sync. -/
theorem trans (h : Synced t t') (h' : Synced t' t'') : Synced t t'' where
  kept i b hb := by
    obtain ⟨b', hb', hsame⟩ := h.kept i b hb
    obtain ⟨b'', hb'', hsame'⟩ := h'.kept i b' hb'
    exact ⟨b'', hb'', hsame.trans hsame'⟩
  new i b'' hb'' hnone := by
    cases hb' : t'.get i with
    | some b' =>
      -- The row was new before the second sync, which keeps its counters.
      obtain ⟨hused, hreserved, hfree⟩ := h.new i b' hb' hnone
      obtain ⟨c, hc, hsame⟩ := h'.kept i b' hb'
      obtain rfl := Option.some.inj (hb''.symm.trans hc)
      exact ⟨hsame.usedDays.trans hused, hsame.reservedDays.trans hreserved, hsame.key ▸ hfree⟩
    | none =>
      obtain ⟨hused, hreserved, hfree⟩ := h'.new i b'' hb'' hb'
      refine ⟨hused, hreserved, KeyedTable.lookup_eq_none.2 fun j c hc hk => ?_⟩
      obtain ⟨c', hc', hsame⟩ := h.kept j c hc
      exact KeyedTable.lookup_eq_none.1 hfree j c' hc' (hsame.key.trans hk)

end Balances.Synced

/-- The databases are the same up to what syncs write. -/
structure Synced (db db' : Database) : Prop where
  employees : db'.employees = db.employees
  requests : db'.requests = db.requests
  outbox : db'.outbox = db.outbox
  balances : db.balances.Synced db'.balances

variable {db db' db'' : Database} {s s' : Session} {now : Instant} {id : ℕ} {b : LeaveBalance}

theorem Synced.refl (db : Database) : Synced db db := ⟨rfl, rfl, rfl, .refl _⟩

theorem Synced.trans (h : Synced db db') (h' : Synced db' db'') : Synced db db'' where
  employees := h'.employees.trans h.employees
  requests := h'.requests.trans h.requests
  outbox := h'.outbox.trans h.outbox
  balances := h.balances.trans h'.balances

/-- Only the row that is saved changes. -/
theorem get_saveBalance (hb : db.balances.get id = some b) (entity : LeaveBalance)
    (hk : entity.toBalanceKey = b.toBalanceKey) (i : ℕ) :
    (db.saveBalance id entity).balances.get i =
      if i = id then some entity else db.balances.get i := by
  rw [Database.saveBalance, KeyedTable.get_updateId]
  split
  · next hi => rw [hi, hb, Option.map_some, LeaveBalance.overwrite_eq hk]
  · rfl

/-- A row is saved with what the HCM tells, and whether that is a discrepancy is
    returned. -/
theorem syncRow_ok {totalDays : ℚ} {hcmVersion : String} {r : Bool}
    (h : (syncRow now id b totalDays hcmVersion).run s = .ok r s') :
    r = detectDiscrepancy totalDays b.usedDays b.reservedDays ∧
      s'.db = s.db.saveBalance id (b.merge now totalDays hcmVersion) := by
  rw [syncRow, bind_eq_ok] at h
  obtain ⟨_, s₁, hexec, h⟩ := h
  obtain ⟨hr, rfl⟩ := pure_eq_ok.1 h
  exact ⟨hr.symm, (execute_ok hexec).1⟩

/-- Saving a merged copy of the row as it is. -/
theorem synced_save (hb : db.balances.get id = some b) (totalDays : ℚ) (hcmVersion : String) :
    Synced db (db.saveBalance id (b.merge now totalDays hcmVersion)) where
  employees := rfl
  requests := rfl
  outbox := rfl
  balances :=
    { kept := fun i c hc => by
        rw [get_saveBalance hb (b.merge now totalDays hcmVersion) rfl]
        split
        · next hi =>
          obtain rfl : c = b := Option.some.inj (hc.symm.trans (hi ▸ hb))
          exact ⟨_, rfl, rfl, rfl, rfl, rfl⟩
        · exact ⟨c, hc, .refl c⟩
      new := fun i c hc hnone => by
        rw [get_saveBalance hb (b.merge now totalDays hcmVersion) rfl] at hc
        split at hc
        · next hi => rw [hi, hb] at hnone; cases hnone
        · rw [hc] at hnone; cases hnone }

/-- A row that is created for a new key is a part of a sync. -/
theorem synced_create (hnew : db.balances.lookup b.toBalanceKey = none) (hused : b.usedDays = 0)
    (hreserved : b.reservedDays = 0) : Synced db (db.createBalance b) := by
  rw [Database.createBalance, dif_pos hnew]
  refine ⟨rfl, rfl, rfl, fun i c hc => ⟨c, Table.get_insert_of_some hc, .refl c⟩, ?_⟩
  intro i c hc hnone
  simp only [KeyedTable.get_insert] at hc
  split at hc
  · obtain rfl := Option.some.inj hc
    exact ⟨hused, hreserved, hnew⟩
  · rw [hc] at hnone; cases hnone

/-- One record of a batch finds the row and merges into it, or creates it. -/
theorem syncBatchRecord_ok {r : BatchRecord} {d : Bool}
    (h : (syncBatchRecord now r).run s = .ok d s') : Synced s.db s'.db := by
  rw [syncBatchRecord, run_get_bind] at h
  split at h
  · next id b hl =>
    obtain ⟨hb, _⟩ := KeyedTable.lookup_eq_some.1 hl
    obtain ⟨_, hdb⟩ := syncRow_ok h
    rw [hdb]
    exact synced_save hb _ _
  · next hl =>
    split at h
    · exact absurd h throw_ne_ok
    · rw [bind_eq_ok] at h
      obtain ⟨_, s₁, hexec, h⟩ := h
      obtain ⟨_, rfl⟩ := pure_eq_ok.1 h
      rw [(execute_ok hexec).1]
      exact synced_create hl rfl rfl

/-- The records of a batch are a sync. -/
theorem syncBatchRecords_ok {rs : List BatchRecord} {n d : ℕ}
    (h : (syncBatchRecords now rs n).run s = .ok d s') : Synced s.db s'.db := by
  induction rs generalizing s n with
  | nil =>
    obtain ⟨_, rfl⟩ := pure_eq_ok.1 h
    exact .refl _
  | cons r rs ih =>
    rw [syncBatchRecords, bind_eq_ok] at h
    obtain ⟨isDiscrepancy, s₁, hrecord, h⟩ := h
    exact (syncBatchRecord_ok hrecord).trans (ih h)

/-- So is a batch. -/
theorem processBatchPayload_ok {rs : List BatchRecord} {d : SyncReport}
    (h : (processBatchPayload now rs).run s = .ok d s') : Synced s.db s'.db := by
  rw [processBatchPayload, bind_eq_ok] at h
  obtain ⟨n, s₁, hrecords, h⟩ := h
  obtain ⟨_, rfl⟩ := pure_eq_ok.1 h
  exact syncBatchRecords_ok hrecords

/-- So is a row that is reconciled. -/
theorem reconcileRow_ok {response : HcmBalanceResponse} {d : Bool}
    (h : (reconcileRow now id response).run s = .ok d s') : Synced s.db s'.db := by
  rw [reconcileRow, run_get_bind] at h
  split at h
  · next b hb =>
    obtain ⟨_, hdb⟩ := syncRow_ok h
    rw [hdb]
    exact synced_save hb _ _
  · exact absurd h throw_ne_ok

/-- So is a webhook. -/
theorem processWebhookPayload_ok {r : BatchRecord} {d : SyncReport}
    (h : (processWebhookPayload now r).run s = .ok d s') : Synced s.db s'.db := by
  rw [processWebhookPayload, run_get_bind] at h
  split at h
  · exact absurd h throw_ne_ok
  · next id b hl =>
    obtain ⟨hb, _⟩ := KeyedTable.lookup_eq_some.1 hl
    rw [bind_eq_ok] at h
    obtain ⟨_, s₁, hrow, h⟩ := h
    obtain ⟨_, rfl⟩ := pure_eq_ok.1 h
    obtain ⟨_, hdb⟩ := syncRow_ok hrow
    rw [hdb]
    exact synced_save hb _ _

end TimeOff
