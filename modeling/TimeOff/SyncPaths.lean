import TimeOff.Reconciliation
import TimeOff.SyncFailure

/-!
# Three paths for one record

An update of a row comes in as a batch, as a webhook, or as the answer of the
HCM to a reconciliation. What do they leave behind?

The same row, and the same number of discrepancies in the log. But only a batch
and a webhook flag the active requests of an employee whose total no longer
covers what has been taken and reserved. A reconciliation flags nothing, so
that the paths agree if and only if there is nothing to flag
(`paths_agree_iff`).
-/

namespace TimeOff

open Transaction Script SyncSteps

/-- The requests of the employee that the labels flag. -/
def flagged (employeeId : ℕ) (trace : List SyncLabel) : List ℕ :=
  trace.flatMap fun
    | .warn (.flagging ids n) => if n = employeeId then ids else []
    | _ => []

/-- What a sync leaves behind: the row `id`, up to `last_synced_at`, the number
    of discrepancies in the row `log` of the log, and the requests of the
    employee that it has flagged. -/
structure PathOutcome where
  row : Option LeaveBalance
  discrepancies : Option ℕ
  flagged : List ℕ

/-- The outcome of a run. -/
def outcome {α : Type} (id log employeeId : ℕ)
    (r : Result SyncLabel (Connection SyncData) ServiceError α) : PathOutcome where
  row := (r.store.data.db.balances.get id).map LeaveBalance.unsynced
  discrepancies := (r.store.data.syncLog.get log).map SyncLog.discrepancies
  flagged := flagged employeeId r.trace

/-- The request `n` is an active one of the employee. -/
def IsActive (db : Database) (employeeId n : ℕ) : Prop :=
  ∃ r, db.requests.get n = some r ∧ r.employeeId = employeeId ∧
    (r.status = .pending ∨ r.status = .approvedPendingHcm)

/-- A record for the row `id`, which holds `b`, to be told on any of the three
    paths: `d` is the state before, and `fetch` are the answers of the HCM. -/
structure Update where
  d : SyncData
  id : ℕ
  b : LeaveBalance
  record : BatchRecord
  fetch : BalanceKey → Except ServiceError HcmBalanceResponse
  /-- The instants of the batch, the webhook and the reconciliation. -/
  batchAt : Instant
  webhookAt : Instant
  reconciledAt : Instant
  found : d.db.balances.lookup record.toBalanceKey = some (id, b)
  /-- The reconciliation is about the row as well. -/
  selected : (id, b) ∈ reconciledBalances reconciledAt d.db
  /-- The HCM answers with the record. -/
  fetched : fetch record.toBalanceKey = .ok ⟨record.totalDays, record.hcmVersion⟩

namespace Update

variable (u : Update)

/-- The update arrives in a batch. -/
def batch : PathOutcome :=
  outcome u.id u.d.syncLog.nextId u.record.employeeId
    ((SyncSteps.processBatchPayload u.batchAt [u.record]).run noFault (.idle u.d))

/-- The update arrives as a webhook. -/
def webhook : PathOutcome :=
  outcome u.id u.d.syncLog.nextId u.record.employeeId
    ((SyncSteps.processWebhookPayload u.webhookAt u.record).run noFault (.idle u.d))

/-- The update is fetched by a reconciliation. -/
def reconciliation : PathOutcome :=
  outcome u.id u.d.syncLog.nextId u.record.employeeId
    ((SyncSteps.triggerReconciliation u.reconciledAt u.fetch).run noFault (.idle u.d))

/-- The total of the record is too low. -/
def discrepancy : Prop := u.record.totalDays < u.b.usedDays + u.b.reservedDays

instance : Decidable u.discrepancy := inferInstanceAs (Decidable (_ < _))

/-- The discrepancies of the other rows of the reconciliation. -/
def others : ℕ :=
  ((reconciledBalances u.reconciledAt u.d.db).filter (·.1 ≠ u.id)).countP
    (discrepant u.fetch noFault)

/-- The paths agree about the row, about the number of discrepancies, which a
    reconciliation adds to that of its other rows, and about the requests to be
    flagged if there is a discrepancy. -/
structure PathsAgree : Prop where
  row : ∃ b, u.batch.row = some b ∧ u.webhook.row = some b ∧ u.reconciliation.row = some b
  discrepancies : let n := if u.discrepancy then 1 else 0
    u.batch.discrepancies = some n ∧ u.webhook.discrepancies = some n ∧
      u.reconciliation.discrepancies = some (n + u.others)
  flagged : u.discrepancy → ∀ n,
    (n ∈ u.batch.flagged ↔ IsActive u.d.db u.record.employeeId n) ∧
    (n ∈ u.webhook.flagged ↔ IsActive u.d.db u.record.employeeId n) ∧
    (n ∈ u.reconciliation.flagged ↔ IsActive u.d.db u.record.employeeId n)

end Update

/-! ## What is flagged -/

section
variable {now : Instant} {d : SyncData} {record : BatchRecord} {id i employeeId n : ℕ}
  {b : LeaveBalance} {isDiscrepancy : Bool} {w : SyncWarning} {c : Connection SyncData}
  {l l' : List SyncLabel} {st : SyncStatement}

theorem flagged_append : flagged n (l ++ l') = flagged n l ++ flagged n l' := List.flatMap_append

@[simp] theorem flagged_nil : flagged n [] = [] := rfl

@[simp] theorem flagged_statement : flagged n (.statement st :: l) = flagged n l := rfl

theorem flagged_eq_nil (h : ∀ w, .warn w ∉ l) : flagged n l = [] := by
  refine List.flatMap_eq_nil_iff.2 fun label hlabel => ?_
  cases label with
  | statement st => rfl
  | warn w => exact absurd hlabel (h w)

/-- What is flagged for a discrepancy, the warning of which is another one. -/
theorem flagged_reportDiscrepancy (hw : flagged employeeId [.warn w] = []) :
    flagged employeeId
      ((reportDiscrepancy i employeeId isDiscrepancy w).run noFault c).trace =
      if isDiscrepancy then activeRequests c.data.db employeeId else [] := by
  cases isDiscrepancy with
  | false => rfl
  | true =>
    have hcons : ∀ l, flagged employeeId (.warn w :: l) = flagged employeeId l := fun l => by
      rw [← List.singleton_append, flagged_append, hw, List.nil_append]
    rw [reportDiscrepancy, if_pos rfl, run_bind_ok (run_warn w rfl), flagActiveRequests, run_bind,
      run_query, noFault, if_pos rfl]
    dsimp only [Option.elim_none]
    by_cases hactive : activeRequests c.data.db employeeId = []
    · rw [hactive, if_neg (not_not.2 rfl)]
      exact hcons _
    · rw [if_pos hactive, run_warn _ rfl]
      refine (hcons _).trans ?_
      simp [flagged]

/-- The active requests are those that are flagged. -/
theorem mem_activeRequests {db : Database} :
    n ∈ activeRequests db employeeId ↔ IsActive db employeeId n := by
  rw [activeRequests, List.mem_map, IsActive]
  constructor
  · rintro ⟨⟨m, r⟩, hr, rfl⟩
    obtain ⟨hr, hactive⟩ := List.mem_filter.1 hr
    exact ⟨r, Table.mem_rows.1 hr, by simpa using hactive⟩
  · rintro ⟨r, hr, hactive⟩
    exact ⟨(n, r), List.mem_filter.2 ⟨Table.mem_rows.2 hr, by simpa using hactive⟩, rfl⟩

end

/-! ## What the paths leave behind -/

/-- The outcome of a path, read off its row and its log. -/
theorem outcome_eq {α : Type} {id l employeeId : ℕ} {b : LeaveBalance} {entry : SyncLog}
    {r : Result SyncLabel (Connection SyncData) ServiceError α}
    (hrow : (r.store.data.db.balances.get id).map LeaveBalance.unsynced = some b)
    (hlog : r.store.data.syncLog.get l = some entry) :
    outcome id l employeeId r = ⟨some b, some entry.discrepancies, flagged employeeId r.trace⟩ := by
  rw [outcome, hrow, hlog]
  rfl

/-- One row, and the others. -/
theorem countP_others {l : List (ℕ × LeaveBalance)} {q : ℕ × LeaveBalance}
    (hnodup : (l.map Prod.fst).Nodup) (hq : q ∈ l) (p : ℕ × LeaveBalance → Bool) :
    l.countP p = (if p q then 1 else 0) + (l.filter (·.1 ≠ q.1)).countP p := by
  obtain ⟨s, t, rfl⟩ := List.append_of_mem hq
  rw [List.map_append, List.map_cons, List.nodup_append] at hnodup
  obtain ⟨_, ht, hdisjoint⟩ := hnodup
  have hs : ∀ x ∈ s, decide (x.1 ≠ q.1) = true := fun x hx =>
    decide_eq_true (hdisjoint x.1 (List.mem_map_of_mem hx) q.1 List.mem_cons_self)
  have ht : ∀ x ∈ t, decide (x.1 ≠ q.1) = true := fun x hx => decide_eq_true fun hxq =>
    (List.nodup_cons.1 ht).1 (hxq ▸ List.mem_map_of_mem hx)
  rw [List.filter_append, List.filter_cons_of_neg (by simp), List.filter_eq_self.2 hs,
    List.filter_eq_self.2 ht, List.countP_append, List.countP_append, List.countP_cons]
  omega

namespace Update

variable (u : Update)

theorem get_row : u.d.db.balances.get u.id = some u.b := (KeyedTable.lookup_eq_some.1 u.found).1

/-- The row that all paths save. -/
def merged : LeaveBalance :=
  { u.b with totalDays := u.record.totalDays, hcmVersion := some u.record.hcmVersion }.unsynced

theorem detectDiscrepancy_eq :
    detectDiscrepancy u.record.totalDays u.b.usedDays u.b.reservedDays = decide u.discrepancy := rfl

/-- The row after a save of what has been merged. -/
theorem get_merged (now : Instant) : ((u.d.db.saveBalance u.id
    (u.b.merge now u.record.totalDays u.record.hcmVersion)).balances.get u.id).map
      LeaveBalance.unsynced = some u.merged := by
  rw [get_saveBalance u.get_row (u.b.merge now u.record.totalDays u.record.hcmVersion) rfl,
    if_pos rfl]
  rfl

theorem run_found {c : Connection SyncData} (hc : c.data.db = u.d.db) :
    (findOne 0 u.record.toBalanceKey).run noFault c =
      ⟨.ok (some (u.id, u.b)), c, [.statement (.findOne 0)]⟩ := by
  rw [SyncSteps.run_findOne _ rfl, hc, u.found]

/-- The log rows count the discrepancy, and the requests are flagged for it. -/
def reported : PathOutcome :=
  ⟨some u.merged, some (if u.discrepancy then 1 else 0),
    if u.discrepancy then activeRequests u.d.db u.record.employeeId else []⟩

/-- A webhook merges the row, counts the discrepancy and flags the requests. -/
theorem webhook_eq : u.webhook = u.reported := by
  rw [webhook, SyncSteps.processWebhookPayload, run_bind_ok (u.run_found rfl)]
  dsimp only
  rw [run_bind_ok (run_saveBalance u.id _ rfl), run_bind_ok (run_insertLog _ rfl),
    run_reportDiscrepancy _ _ _ (fun _ => rfl) fun _ => rfl]
  refine (outcome_eq (u.get_merged u.webhookAt) (if_pos rfl)).trans ?_
  dsimp only [List.cons_append, List.nil_append]
  rw [flagged_statement, flagged_statement, flagged_statement, flagged_reportDiscrepancy rfl,
    detectDiscrepancy_eq, reported]
  simp only [decide_eq_true_eq]
  rfl

/-- The loop of a batch of the one record. -/
theorem run_processRecords (now : Instant) {c : Connection SyncData} (hc : c.data.db = u.d.db) :
    ∃ trace, (SyncSteps.processRecords now 0 [u.record] 0).run noFault c =
        ⟨.ok (if u.discrepancy then 1 else 0),
          saved u.id (u.b.merge now u.record.totalDays u.record.hcmVersion) c, trace⟩ ∧
      flagged u.record.employeeId trace = u.reported.flagged := by
  have hrecord : (SyncSteps.processRecord now 0 u.record 0).run noFault c = _ :=
    run_bind_ok (u.run_found hc)
  dsimp only at hrecord
  rw [run_bind_ok (run_reportDiscrepancy _ _ _ (fun _ => rfl) fun _ => rfl),
    run_bind_ok (run_saveBalance u.id _ rfl), detectDiscrepancy_eq] at hrecord
  simp only [decide_eq_true_eq] at hrecord
  refine ⟨_, run_bind_ok hrecord, ?_⟩
  rw [← detectDiscrepancy_eq, flagged_append, flagged_append, flagged_append, flagged_append,
    flagged_reportDiscrepancy rfl, hc, detectDiscrepancy_eq]
  simp [reported, SyncSteps.processRecords]

/-- So does a batch. -/
theorem batch_eq : u.batch = u.reported := by
  have hentry : ∀ (l : Table SyncLog) (entry : SyncLog) (f : SyncLog → SyncLog),
      ((l.insert entry).update l.nextId f).get l.nextId = some (f entry) := fun l entry f =>
    Table.get_update_self (if_pos rfl)
  obtain ⟨trace, hloop, hflagged⟩ := u.run_processRecords u.batchAt
    (c := ((Connection.idle u.d).modify
      (·.insertLog (.start .batch u.batchAt))).startTransaction) rfl
  have htry := run_tryBatch (l := u.d.syncLog.nextId) hloop rfl rfl rfl
  have hrun := run_processBatchPayload (c := .idle u.d) rfl rfl (run_tryCatch_ok htry)
  rw [batch, hrun]
  refine (outcome_eq (u.get_merged u.batchAt) (hentry _ _ _)).trans ?_
  dsimp only [List.cons_append]
  rw [flagged_statement, flagged_statement, flagged_append, hflagged]
  simp [reported, SyncLog.finish]

/-- A reconciliation merges the row and counts the discrepancy; nothing is
    flagged. -/
theorem reconciliation_eq : u.reconciliation =
    ⟨some u.merged, some ((if u.discrepancy then 1 else 0) + u.others), []⟩ := by
  have hselect : ∀ label ∈ selecting, (noFault label : Option ServiceError) = none := fun _ _ => rfl
  obtain ⟨r, trace, report, hr, hreport, htrace, hrun⟩ :=
    run_triggerReconciliation u.reconciledAt u.fetch u.d hselect rfl rfl
  -- The HCM answers for the row, so that its round updates it and decides about the
  -- discrepancy.
  have hanswer : answer u.fetch noFault u.id u.b =
      .ok ⟨u.record.totalDays, u.record.hcmVersion⟩ := by
    rw [← u.fetched, ← (KeyedTable.lookup_eq_some.1 u.found).2]
    rfl
  have hupdates : updates u.fetch noFault (u.id, u.b) = true := by
    rw [updates, hanswer]
    rfl
  have hdiscrepant : discrepant u.fetch noFault (u.id, u.b) = decide u.discrepancy := by
    rw [discrepant, hanswer]
    rfl
  have hrow := hr.updated _ u.selected _ hupdates hanswer
  have hcount : report.discrepancies = (if u.discrepancy then 1 else 0) + u.others := by
    rw [← Except.ok.inj (hr.value.symm.trans hreport)]
    dsimp only
    rw [Nat.zero_add, countP_others ids_reconciledBalances u.selected, hdiscrepant]
    simp only [decide_eq_true_eq]
    rfl
  have hlog : (r.store.data.updateLog u.d.syncLog.nextId
      (·.finish u.reconciledAt report)).syncLog.get u.d.syncLog.nextId =
        some ((SyncLog.start .scheduled u.reconciledAt).finish u.reconciledAt report) := by
    obtain ⟨db, hdb⟩ := hr.store
    rw [hdb]
    exact Table.get_update_self (if_pos rfl)
  -- The reconciliation has no call of `flagActiveRequests`.
  have hquiet : ∀ w, .warn w ∉ trace ++ .statement .insertLog ::
      (r.trace ++ [.statement .markDone]) := by
    intro w hw
    rcases List.mem_append.1 hw with hw | hw
    · have := htrace hw
      simp [selecting] at this
    · simp [hr.quiet w] at hw
  rw [reconciliation, hrun]
  refine (outcome_eq (b := u.merged) ?_ hlog).trans ?_
  · exact congrArg (Option.map LeaveBalance.unsynced) hrow
  · rw [flagged_eq_nil hquiet, ← hcount]
    rfl

end Update

/-- The paths agree if and only if they detect no discrepancy, or there is nothing
    to flag for it. -/
theorem paths_agree_iff (u : Update) : u.PathsAgree ↔
    (detectDiscrepancy u.record.totalDays u.b.usedDays u.b.reservedDays →
      ∀ n, ¬IsActive u.d.db u.record.employeeId n) := by
  rw [detectDiscrepancy, decide_eq_true_eq]
  have hflagged : u.discrepancy → ∀ n,
      n ∈ u.reported.flagged ↔ IsActive u.d.db u.record.employeeId n := fun h n => by
    rw [show u.reported.flagged = activeRequests u.d.db u.record.employeeId from if_pos h,
      mem_activeRequests]
  constructor
  · intro hagree hdiscrepancy n hactive
    have hmem := ((hagree.flagged hdiscrepancy n).2.2).2 hactive
    rw [u.reconciliation_eq] at hmem
    exact List.not_mem_nil hmem
  · refine fun h => ⟨⟨u.merged, ?_⟩, ?_, fun hdiscrepancy n => ?_⟩
    · rw [u.batch_eq, u.webhook_eq, u.reconciliation_eq]
      exact ⟨rfl, rfl, rfl⟩
    · rw [u.batch_eq, u.webhook_eq, u.reconciliation_eq]
      exact ⟨rfl, rfl, rfl⟩
    · rw [u.batch_eq, u.webhook_eq, u.reconciliation_eq]
      exact ⟨hflagged hdiscrepancy n, hflagged hdiscrepancy n,
        iff_of_false List.not_mem_nil (h hdiscrepancy n)⟩

/-- An employee has asked for 2 of the 10 days. -/
def requestedDb : Database where
  employees := (sampleDb 10).employees
  balances := KeyedTable.empty.insert { sampleBalance 10 with reservedDays := 2 }
    KeyedTable.lookup_empty
  requests := Table.empty.insert {
    toBalanceKey := sampleKey
    startDate := .ofDay 0
    endDate := .ofDay 1
    daysRequested := 2
    status := .pending
    managerId := none
    rejectionReason := none
    hcmRequestId := none
    version := 0 }
  outbox := .empty

/-- The HCM leaves them 1 day. -/
def loweringUpdate : Update where
  d := ⟨requestedDb, .empty⟩
  id := 0
  b := { sampleBalance 10 with reservedDays := 2 }
  record := ⟨sampleKey, 1, "2"⟩
  fetch _ := .ok ⟨1, "2"⟩
  batchAt := 0
  webhookAt := 0
  reconciledAt := 0
  found := KeyedTable.lookup_eq_some.2 ⟨rfl, rfl⟩
  selected := mem_reconciledBalances_iff.2 ⟨rfl, .inr (by decide +kernel)⟩
  fetched := rfl

/-- A batch and a webhook flag the request, a reconciliation does not. -/
theorem reconciliation_flags_nothing :
    loweringUpdate.batch.flagged = [0] ∧ loweringUpdate.webhook.flagged = [0] ∧
    loweringUpdate.reconciliation.discrepancies = some 1 ∧
    loweringUpdate.reconciliation.flagged = [] ∧ ¬loweringUpdate.PathsAgree := by
  have hreconciliation : loweringUpdate.reconciliation.flagged = [] := by decide +kernel
  refine ⟨by decide +kernel, by decide +kernel, by decide +kernel, hreconciliation, fun h => ?_⟩
  have hactive : IsActive loweringUpdate.d.db loweringUpdate.record.employeeId 0 :=
    ⟨_, rfl, rfl, .inl rfl⟩
  have hmem := ((h.flagged (by decide +kernel) 0).2.2).2 hactive
  rw [hreconciliation] at hmem
  exact List.not_mem_nil hmem

/-- The HCM leaves them the 2 days. -/
def coveringUpdate : Update :=
  { loweringUpdate with
    record := ⟨sampleKey, 2, "2"⟩
    fetch := fun _ => .ok ⟨2, "2"⟩
    fetched := rfl }

theorem paths_agree_iff_sample : coveringUpdate.PathsAgree ∧ ¬loweringUpdate.PathsAgree := by
  refine ⟨(paths_agree_iff coveringUpdate).2 fun hdetected => ?_, fun hagree => ?_⟩
  · exact absurd hdetected (by decide +kernel)
  · exact (paths_agree_iff loweringUpdate).1 hagree (by decide +kernel) 0 ⟨_, rfl, rfl, .inl rfl⟩

end TimeOff
