import TimeOff.Sync.Stepwise
import TimeOff.System

/-!
# Which rows a reconciliation covers

`triggerReconciliation` selects the rows that have been synced more than half
an hour ago, and those of the employees with active requests, each once, asks
the HCM for each, and saves what it is told; a fetch or a save that fails only
concerns its own row (`Reconciled`).

A row that has never been synced has no `last_synced_at` to compare with, so
that it is not selected on this account. The reconciliation covers every row
that needs it, if and only if all such rows are those of employees with active
requests (`covers_iff`).
-/

namespace TimeOff

open Transaction Script

namespace SyncSteps

variable {now : Instant} {db : Database} {fault : SyncLabel → Option ServiceError}
  {fetch : BalanceKey → Except ServiceError HcmBalanceResponse} {q : ℕ × LeaveBalance}
  {l acc rows : List (ℕ × LeaveBalance)} {report : SyncReport} {c : Connection SyncData} {id i : ℕ}

/-! ## The selection -/

/-- No row is selected twice. -/
theorem ids_addActive (hl : (l.map Prod.fst).Nodup) (hacc : (acc.map Prod.fst).Nodup) :
    ((addActive acc l).map Prod.fst).Nodup := by
  -- On the second selection: each row is added, or its id is there already.
  induction l generalizing acc with
  | nil => exact hacc
  | cons b l ih =>
    refine ih (List.nodup_cons.1 hl).2 ?_
    dsimp only
    split
    · next hnone =>
      -- The id of the new one does not stand among the others.
      have hfree : b.1 ∉ acc.map Prod.fst := by
        intro hb
        obtain ⟨p, hp, hpb⟩ := List.mem_map.1 hb
        have hnot := List.find?_eq_none.1 (Option.isNone_iff_eq_none.1 hnone) p hp
        simp [hpb] at hnot
      rw [List.map_append, List.nodup_append]
      refine ⟨hacc, List.nodup_singleton _, fun x hx y hy hxy => ?_⟩
      rw [List.map_singleton, List.mem_singleton] at hy
      exact hfree (hy ▸ hxy ▸ hx)
    · exact hacc

/-- Two rows with the same id are the same. -/
def Coherent (l : List (ℕ × LeaveBalance)) (db : Database) : Prop :=
  ∀ q ∈ l, db.balances.get q.1 = some q.2

/-- The rows of both selections are there. -/
theorem mem_addActive (hl : Coherent l db) (hacc : Coherent acc db) :
    q ∈ addActive acc l ↔ q ∈ acc ∨ q ∈ l := by
  -- On the second selection. A row with an id that is there already is the same row, since
  -- both come from one database.
  induction l generalizing acc with
  | nil => simp [addActive]
  | cons b l ih =>
    have hb := hl b List.mem_cons_self
    have hl' : Coherent l db := fun q hq => hl q (List.mem_cons_of_mem _ hq)
    rw [addActive, List.foldl_cons]
    split
    · have hacc' : Coherent (acc ++ [b]) db := fun q hq => by
        rcases List.mem_append.1 hq with hq | hq
        · exact hacc q hq
        · exact (List.mem_singleton.1 hq) ▸ hb
      refine (ih hl' hacc').trans ?_
      rw [List.mem_append, List.mem_singleton, List.mem_cons, or_assoc]
    · next hsome =>
      -- The row is there already.
      obtain ⟨p, hp⟩ := Option.ne_none_iff_exists'.1 fun hnone =>
        hsome (Option.isNone_iff_eq_none.2 hnone)
      have hpacc := List.mem_of_find?_eq_some hp
      have hid : p.1 = b.1 := by simpa using List.find?_some hp
      have hpb : p = b := Prod.ext hid (Option.some.inj ((hacc p hpacc).symm.trans (hid ▸ hb)))
      refine (ih hl' hacc).trans ?_
      rw [List.mem_cons]
      constructor
      · rintro (hq | hq)
        · exact .inl hq
        · exact .inr (.inr hq)
      · rintro (hq | rfl | hq)
        · exact .inl hq
        · exact .inl (hpb ▸ hpacc)
        · exact .inr hq

theorem coherent_rows (p : ℕ × LeaveBalance → Bool) : Coherent (db.balances.rows.filter p) db :=
  fun _ hq => Table.mem_rows.1 (List.mem_filter.1 hq).1

/-- What is selected: the stale rows and the active ones, each once. -/
theorem mem_reconciledBalances_iff : q ∈ reconciledBalances now db ↔
    db.balances.get q.1 = some q.2 ∧
      (q.2.isStale now ∨ q.2.employeeId ∈ activeEmployeeIds db) := by
  have hmem : q ∈ reconciledBalances now db ↔ _ :=
    mem_addActive (coherent_rows _) (coherent_rows _)
  rw [hmem, List.mem_filter, List.mem_filter, Table.mem_rows, List.contains_iff_mem,
    ← and_or_left]

theorem ids_reconciledBalances : ((reconciledBalances now db).map Prod.fst).Nodup :=
  ids_addActive (Table.nodup_rows.sublist (List.filter_sublist.map _))
    (Table.nodup_rows.sublist (List.filter_sublist.map _))

/-- The labels of the selection. -/
def selecting : List SyncLabel :=
  [.statement .findStale, .statement .findActiveRequests, .statement .findActiveBalances]

/-- The selection reads, and it returns the rows to be reconciled. -/
theorem run_selectBalances (now : Instant) (c : Connection SyncData)
    (hfault : ∀ label ∈ selecting, fault label = none) :
    ∃ trace ⊆ selecting, (selectBalances now).run fault c =
      ⟨.ok (reconciledBalances now c.data.db), c, trace⟩ := by
  simp only [selecting, List.forall_mem_cons] at hfault
  obtain ⟨hstale, hrequests, hbalances, _⟩ := hfault
  rw [selectBalances, run_bind, run_query, hstale]
  dsimp only [Option.elim_none]
  rw [run_bind, run_query, hrequests]
  dsimp only [Option.elim_none]
  by_cases hactive : activeEmployeeIds c.data.db = []
  · -- Without active employees their balances are not asked for.
    refine ⟨[.statement .findStale, .statement .findActiveRequests], by simp [selecting], ?_⟩
    have hnone : c.data.db.balances.rows.filter
        (fun b => (activeEmployeeIds c.data.db).contains b.2.employeeId) = [] := by
      rw [hactive]
      exact List.filter_eq_nil_iff.2 fun b _ => nofun
    have hselected : reconciledBalances now c.data.db =
        c.data.db.balances.rows.filter (·.2.isStale now) := by
      rw [reconciledBalances, hnone]
      rfl
    rw [hselected, if_neg (not_not.2 hactive)]
    rfl
  · refine ⟨selecting, fun _ h => h, ?_⟩
    rw [if_pos hactive, run_bind, run_query, hbalances]
    rfl

/-! ## The loop -/

/-- The call of the HCM for the row `id`. -/
def isCall (id : ℕ) : SyncLabel → Bool
  | .statement (.getBalance j) => j = id
  | _ => false

/-- The row is answered for, and saved. -/
def updates (fetch : BalanceKey → Except ServiceError HcmBalanceResponse)
    (fault : SyncLabel → Option ServiceError) (q : ℕ × LeaveBalance) : Bool :=
  (answer fetch fault q.1 q.2).isOk && (fault (.statement (.save q.1))).isNone

/-- The row is answered for, with too few days. -/
def discrepant (fetch : BalanceKey → Except ServiceError HcmBalanceResponse)
    (fault : SyncLabel → Option ServiceError) (q : ℕ × LeaveBalance) : Bool :=
  match answer fetch fault q.1 q.2 with
  | .ok hcmData => detectDiscrepancy hcmData.totalDays q.2.usedDays q.2.reservedDays
  | .error _ => false

/-- What the loop of a reconciliation comes to, for the rows `rows` of the
    database of `c`. -/
structure Reconciled (now : Instant) (fetch : BalanceKey → Except ServiceError HcmBalanceResponse)
    (fault : SyncLabel → Option ServiceError) (rows : List (ℕ × LeaveBalance)) (report : SyncReport)
    (c : Connection SyncData)
    (r : Result SyncLabel (Connection SyncData) ServiceError SyncReport) : Prop where
  value : r.value = .ok ⟨report.recordsProcessed + rows.countP (updates fetch fault),
    report.discrepancies + rows.countP (discrepant fetch fault)⟩
  store : ∃ db, r.store = c.modify fun d => { d with db := db }
  calls : ∀ id, r.trace.countP (isCall id) = rows.countP (·.1 = id)
  quiet : ∀ w, .warn w ∉ r.trace
  updated : ∀ q ∈ rows, ∀ hcmData, updates fetch fault q →
    answer fetch fault q.1 q.2 = .ok hcmData →
    r.store.data.db.balances.get q.1 =
      some (q.2.merge now hcmData.totalDays hcmData.hcmVersion)
  kept : ∀ i, (∀ q ∈ rows, q.1 = i → updates fetch fault q = false) →
    r.store.data.db.balances.get i = c.data.db.balances.get i

/-- One round. -/
theorem reconciled_round (hq : c.data.db.balances.get q.1 = some q.2) :
    Reconciled now fetch fault [q] report c
      ((reconcileBalance now fetch q.1 q.2 report).run fault c) := by
  rw [run_reconcileBalance]
  cases hanswer : answer fetch fault q.1 q.2 with
  | error e =>
    -- The error is logged, and the round is over.
    have hupdates : updates fetch fault q = false := by rw [updates, hanswer]; rfl
    have hdiscrepant : discrepant fetch fault q = false := by rw [discrepant, hanswer]
    refine ⟨?_, ⟨c.data.db, rfl⟩, fun id => ?_, fun w hw => ?_, fun p hp hcmData h => ?_,
      fun i _ => rfl⟩
    · rw [List.countP_singleton, List.countP_singleton, hupdates, hdiscrepant]
      rfl
    · rw [List.countP_singleton, List.countP_singleton]
      rfl
    · simp at hw
    · rw [List.mem_singleton.1 hp, hupdates] at h
      cases h
  | ok hcmData =>
    have hdiscrepant : discrepant fetch fault q =
        detectDiscrepancy hcmData.totalDays q.2.usedDays q.2.reservedDays := by
      rw [discrepant, hanswer]
    have hcount : ([q].countP (discrepant fetch fault)) =
        if detectDiscrepancy hcmData.totalDays q.2.usedDays q.2.reservedDays then 1 else 0 := by
      rw [List.countP_singleton, hdiscrepant]
    dsimp only
    cases hsave : fault (.statement (.save q.1)) with
    | some e =>
      -- A discrepancy has been counted before the save, the row is counted after it.
      have hupdates : updates fetch fault q = false := by rw [updates, hanswer, hsave]; rfl
      refine ⟨?_, ⟨c.data.db, rfl⟩, fun id => ?_, fun w hw => ?_, fun p hp hcmData h => ?_,
        fun i _ => rfl⟩
      · rw [hcount, List.countP_singleton, hupdates, SyncReport.count]
        cases detectDiscrepancy hcmData.totalDays q.2.usedDays q.2.reservedDays <;> rfl
      · rw [List.countP_cons, List.countP_singleton, List.countP_singleton]
        exact Nat.zero_add _
      · simp at hw
      · rw [List.mem_singleton.1 hp, hupdates] at h
        cases h
    | none =>
      have hupdates : updates fetch fault q = true := by rw [updates, hanswer, hsave]; rfl
      have hget := get_saveBalance hq (q.2.merge now hcmData.totalDays hcmData.hcmVersion) rfl
      refine ⟨?_, ⟨_, rfl⟩, fun id => ?_, fun w hw => ?_, fun p hp hcmData' _ h => ?_,
        fun i hi => ?_⟩
      · rw [hcount, List.countP_singleton, hupdates, SyncReport.count]
        cases detectDiscrepancy hcmData.totalDays q.2.usedDays q.2.reservedDays <;> rfl
      · rw [List.countP_cons, List.countP_singleton, List.countP_singleton]
        exact Nat.zero_add _
      · simp at hw
      · obtain rfl := List.mem_singleton.1 hp
        obtain rfl := Except.ok.inj (hanswer.symm.trans h)
        exact (hget p.1).trans (if_pos rfl)
      · refine (hget i).trans (if_neg fun hiq => ?_)
        rw [hi q (List.mem_singleton_self q) hiq.symm] at hupdates
        cases hupdates

/-- A round, and the rest of the loop. -/
theorem Reconciled.cons {r r' : Result SyncLabel (Connection SyncData) ServiceError SyncReport}
    {report' : SyncReport} (hnodup : q.1 ∉ rows.map Prod.fst)
    (h : Reconciled now fetch fault [q] report c r) (hr : r.value = .ok report')
    (h' : Reconciled now fetch fault rows report' r.store r') :
    Reconciled now fetch fault (q :: rows) report c ⟨r'.value, r'.store, r.trace ++ r'.trace⟩ where
  -- The report adds up, and so do the calls.
  value := by
    obtain rfl := Except.ok.inj (hr.symm.trans h.value)
    rw [h'.value]
    congr 1
    rw [SyncReport.mk.injEq]
    simp only [List.countP_cons, List.countP_nil]
    omega
  store := by
    obtain ⟨db, hdb⟩ := h.store
    obtain ⟨db', hdb'⟩ := h'.store
    exact ⟨db', by rw [hdb', hdb]; rfl⟩
  calls id := by
    rw [List.countP_append, h.calls, h'.calls, List.countP_singleton, List.countP_cons, add_comm]
  quiet w hw := (List.mem_append.1 hw).elim (h.quiet w) (h'.quiet w)
  updated p hp hcmData hupdates hanswer := by
    -- The row is that of the first round, or one of the rest.
    rcases List.mem_cons.1 hp with rfl | hp
    · -- The other rounds are about other rows.
      have hothers : ∀ p' ∈ rows, p'.1 = p.1 → updates fetch fault p' = false :=
        fun p' hp' hid => absurd (List.mem_map.2 ⟨p', hp', hid⟩) hnodup
      exact (h'.kept p.1 hothers).trans
        (h.updated p (List.mem_singleton_self p) hcmData hupdates hanswer)
    · exact h'.updated p hp hcmData hupdates hanswer
  kept i hi := by
    refine (h'.kept i fun p hp => hi p (List.mem_cons_of_mem _ hp)).trans (h.kept i fun p hp => ?_)
    obtain rfl := List.mem_singleton.1 hp
    exact hi p List.mem_cons_self

/-- The loop of a reconciliation. -/
theorem reconciled (hnodup : (rows.map Prod.fst).Nodup) (hrows : Coherent rows c.data.db) :
    Reconciled now fetch fault rows report c
      ((reconcileBalances now fetch rows report).run fault c) := by
  induction rows generalizing report c with
  | nil => exact ⟨rfl, ⟨c.data.db, rfl⟩, fun _ => rfl, fun _ => nofun, nofun, fun _ _ => rfl⟩
  | cons q rows ih =>
    obtain ⟨hq, hnodup⟩ := List.nodup_cons.1 hnodup
    have hround : Reconciled now fetch fault [q] report c _ :=
      reconciled_round (hrows q List.mem_cons_self)
    have hrest : Coherent rows
        ((reconcileBalance now fetch q.1 q.2 report).run fault c).store.data.db := fun p hp => by
      rw [hround.kept p.1 fun p' hp' hid => ?_]
      · exact hrows p (List.mem_cons_of_mem _ hp)
      · obtain rfl := List.mem_singleton.1 hp'
        exact absurd (List.mem_map.2 ⟨p, hp, hid.symm⟩) hq
    have hrun := hround.cons hq hround.value (ih hnodup hrest)
    rwa [reconcileBalances, run_bind_ok (show
      (reconcileBalance now fetch q.1 q.2 report).run fault c = ⟨.ok _, _, _⟩ by
        rw [← hround.value])]

/-- A reconciliation whose own statements do not fail. -/
theorem run_triggerReconciliation (now : Instant)
    (fetch : BalanceKey → Except ServiceError HcmBalanceResponse) (d : SyncData)
    (hselect : ∀ label ∈ selecting, fault label = none)
    (hlog : fault (.statement .insertLog) = none) (hdone : fault (.statement .markDone) = none) :
    ∃ r trace report, Reconciled now fetch fault (reconciledBalances now d.db) ⟨0, 0⟩
        ((Connection.idle d).modify (·.insertLog (.start .scheduled now))) r ∧
      r.value = .ok report ∧ trace ⊆ selecting ∧
      (triggerReconciliation now fetch).run fault (.idle d) =
        ⟨.ok report, r.store.modify (·.updateLog d.syncLog.nextId (·.finish now report)),
          trace ++ .statement .insertLog :: (r.trace ++ [.statement .markDone])⟩ := by
  obtain ⟨trace, htrace, hrun⟩ := run_selectBalances now (.idle d) hselect
  have hloop : Reconciled now fetch fault (reconciledBalances now d.db) ⟨0, 0⟩
      ((Connection.idle d).modify (·.insertLog (.start .scheduled now))) _ :=
    reconciled ids_reconciledBalances fun _ hq => mem_reconciledBalances hq
  refine ⟨_, trace, _, hloop, hloop.value, htrace, ?_⟩
  rw [triggerReconciliation, run_bind_ok hrun, run_bind_ok (run_insertLog _ hlog)]
  dsimp only [Connection.data_idle]
  rw [run_bind_ok (show (reconcileBalances now fetch (reconciledBalances now d.db) ⟨0, 0⟩).run fault
      ((Connection.idle d).modify (·.insertLog (.start .scheduled now))) = ⟨.ok _, _, _⟩ by
        rw [← hloop.value]), run_bind_ok (run_updateLog hdone)]
  rfl

end SyncSteps

open SyncSteps

/-- The saves of the rows for which `fails` holds are made to throw `e`. -/
def savesFailing (fails : ℕ → Bool) (e : ServiceError) : SyncLabel → Option ServiceError
  | .statement (.save id) => if fails id then some e else none
  | _ => none

/-- The run of a reconciliation on `d`: `fetch` is what the HCM answers, and
    the saves of the rows in `fails` throw. -/
def runReconciliation (now : Instant) (fetch : BalanceKey → Except ServiceError HcmBalanceResponse)
    (fails : ℕ → Bool) (e : ServiceError) (d : SyncData) :
    Result SyncLabel (Connection SyncData) ServiceError SyncReport :=
  (SyncSteps.triggerReconciliation now fetch).run (savesFailing fails e) (.idle d)

/-- The row has not been synced in the last 30 minutes, or ever, or its
    employee has an active request. -/
def needsSync (now : Instant) (db : Database) (b : LeaveBalance) : Bool :=
  b.lastSyncedAt.isNone || b.isStale now || (activeEmployeeIds db).contains b.employeeId

/-- The row `q` is to be updated: it needs it, and its fetch and its save
    succeed. -/
def toUpdate (now : Instant) (fetch : BalanceKey → Except ServiceError HcmBalanceResponse)
    (fails : ℕ → Bool) (db : Database) (q : ℕ × LeaveBalance) : Bool :=
  needsSync now db q.2 && ((fetch q.2.toBalanceKey).isOk && !fails q.1)

/-- A reconciliation covers the rows that need it: it calls the HCM once for
    each of them, and for no other; it updates them as far as this succeeds,
    and nothing else; and it counts them. -/
structure Covers (now : Instant) (fetch : BalanceKey → Except ServiceError HcmBalanceResponse)
    (fails : ℕ → Bool) (e : ServiceError) (d : SyncData) : Prop where
  called : ∀ id b, d.db.balances.get id = some b →
    (runReconciliation now fetch fails e d).trace.countP (isCall id) =
      if needsSync now d.db b then 1 else 0
  called_only : ∀ id, d.db.balances.get id = none →
    (runReconciliation now fetch fails e d).trace.countP (isCall id) = 0
  updated : ∀ id b hcmData, d.db.balances.get id = some b →
    toUpdate now fetch fails d.db (id, b) → fetch b.toBalanceKey = .ok hcmData →
    (runReconciliation now fetch fails e d).store.data.db.balances.get id =
      some { b with
        totalDays := hcmData.totalDays
        hcmVersion := some hcmData.hcmVersion
        lastSyncedAt := some now }
  kept : ∀ id b, d.db.balances.get id = some b → ¬toUpdate now fetch fails d.db (id, b) →
    (runReconciliation now fetch fails e d).store.data.db.balances.get id = some b
  no_others : ∀ id, d.db.balances.get id = none →
    (runReconciliation now fetch fails e d).store.data.db.balances.get id = none
  processed : ∃ report, (runReconciliation now fetch fails e d).value = .ok report ∧
    report.recordsProcessed = d.db.balances.rows.countP (toUpdate now fetch fails d.db)

/-! ## Every row that needs it -/

section
variable {now : Instant} {fetch : BalanceKey → Except ServiceError HcmBalanceResponse}
  {fails : ℕ → Bool} {e : ServiceError} {d : SyncData} {db : Database} {id : ℕ} {b : LeaveBalance}

variable (now fetch fails e d) in
/-- If only saves fail, then the run goes through all rows, and its log is
    written. -/
theorem run_of_savesFailing : ∃ r trace report,
    Reconciled now fetch (savesFailing fails e) (reconciledBalances now d.db) ⟨0, 0⟩
      ((Connection.idle d).modify (·.insertLog (.start .scheduled now))) r ∧
    r.value = .ok report ∧ trace ⊆ selecting ∧
    runReconciliation now fetch fails e d =
      ⟨.ok report, r.store.modify (·.updateLog d.syncLog.nextId (·.finish now report)),
        trace ++ .statement .insertLog :: (r.trace ++ [.statement .markDone])⟩ := by
  refine run_triggerReconciliation now fetch d (fun label hlabel => ?_) rfl rfl
  simp only [selecting, List.mem_cons, List.not_mem_nil, or_false] at hlabel
  rcases hlabel with rfl | rfl | rfl <;> rfl

/-- How often a reconciliation calls the HCM for a row. -/
theorem calls_eq : (runReconciliation now fetch fails e d).trace.countP (isCall id) =
    ((reconciledBalances now d.db).map Prod.fst).count id := by
  obtain ⟨r, trace, report, hr, _, htrace, hrun⟩ :=
    run_of_savesFailing now fetch fails e d
  have hselect : trace.countP (isCall id) = 0 := by
    refine List.countP_eq_zero.2 fun label hlabel => ?_
    have hmem := htrace hlabel
    simp only [selecting, List.mem_cons, List.not_mem_nil, or_false] at hmem
    rcases hmem with rfl | rfl | rfl <;> nofun
  have hothers : isCall id (.statement .insertLog) = false ∧
      isCall id (.statement .markDone) = false := ⟨rfl, rfl⟩
  rw [hrun, List.countP_append, List.countP_cons, List.countP_append, List.countP_singleton,
    hselect, hr.calls, hothers.1, hothers.2, List.count, List.countP_map]
  simp only [Bool.false_eq_true, if_false, Nat.add_zero, Nat.zero_add]
  exact List.countP_congr fun q _ => by simp

/-- The rows that are selected are those that need it, if those that have never
    been synced are of employees with active requests. -/
theorem mem_selected_iff (hnever : ∀ id b, d.db.balances.get id = some b →
      b.lastSyncedAt = none → b.employeeId ∈ activeEmployeeIds d.db) {q : ℕ × LeaveBalance} :
    q ∈ reconciledBalances now d.db ↔
      d.db.balances.get q.1 = some q.2 ∧ needsSync now d.db q.2 := by
  rw [mem_reconciledBalances_iff, needsSync, Bool.or_eq_true, Bool.or_eq_true,
    Option.isNone_iff_eq_none, List.contains_iff_mem]
  constructor
  · rintro ⟨hq, hstale | hactive⟩
    · exact ⟨hq, .inl (.inr hstale)⟩
    · exact ⟨hq, .inr hactive⟩
  · rintro ⟨hq, (hnone | hstale) | hactive⟩
    · exact ⟨hq, .inr (hnever q.1 q.2 hq hnone)⟩
    · exact ⟨hq, .inl hstale⟩
    · exact ⟨hq, .inr hactive⟩

/-- An employee is active by a request that waits for a decision or for the HCM.
    -/
theorem mem_activeEmployeeIds {n : ℕ} : n ∈ activeEmployeeIds db ↔
    ∃ i r, db.requests.get i = some r ∧ r.employeeId = n ∧
      (r.status = .pending ∨ r.status = .approvedPendingHcm) := by
  rw [activeEmployeeIds, List.mem_dedup, List.mem_map]
  constructor
  · rintro ⟨⟨i, r⟩, hr, rfl⟩
    obtain ⟨hr, hstatus⟩ := List.mem_filter.1 hr
    exact ⟨i, r, Table.mem_rows.1 hr, rfl, by simpa using hstatus⟩
  · rintro ⟨i, r, hr, rfl, hstatus⟩
    exact ⟨(i, r), List.mem_filter.2 ⟨Table.mem_rows.2 hr, by simpa using hstatus⟩, rfl⟩

theorem updates_savesFailing (q : ℕ × LeaveBalance) :
    updates fetch (savesFailing fails e) q = ((fetch q.2.toBalanceKey).isOk && !fails q.1) := by
  change ((fetch q.2.toBalanceKey).isOk && (ite _ _ _ : Option ServiceError).isNone) = _
  cases fails q.1 <;> rfl

/-- A row that needs it, and is not selected. -/
theorem not_covers (hb : d.db.balances.get id = some b) (hnone : b.lastSyncedAt = none)
    (hinactive : b.employeeId ∉ activeEmployeeIds d.db) : ¬Covers now fetch fails e d := by
  intro h
  have hcalled := h.called id b hb
  rw [calls_eq, needsSync, hnone] at hcalled
  have hmem : id ∈ (reconciledBalances now d.db).map Prod.fst :=
    List.count_pos_iff.1 (by rw [hcalled]; exact Nat.one_pos)
  obtain ⟨q, hq, rfl⟩ := List.mem_map.1 hmem
  obtain ⟨hrow, hselected⟩ := mem_reconciledBalances_iff.1 hq
  obtain rfl := Option.some.inj (hb.symm.trans hrow)
  rw [LeaveBalance.isStale, hnone] at hselected
  exact hinactive (hselected.resolve_left Bool.false_ne_true)

/-- The other rows are kept. -/
theorem get_of_not_toUpdate (hnever : ∀ id b, d.db.balances.get id = some b →
      b.lastSyncedAt = none → b.employeeId ∈ activeEmployeeIds d.db)
    (h : ∀ b, d.db.balances.get id = some b → ¬toUpdate now fetch fails d.db (id, b)) :
    (runReconciliation now fetch fails e d).store.data.db.balances.get id =
      d.db.balances.get id := by
  obtain ⟨r, trace, report, hr, _, _, hrun⟩ :=
    run_of_savesFailing now fetch fails e d
  rw [hrun]
  refine hr.kept id fun q hq hid => ?_
  subst hid
  obtain ⟨hrow, hneeds⟩ := (mem_selected_iff hnever).1 hq
  have hnot := h q.2 hrow
  rw [toUpdate, hneeds, Bool.true_and] at hnot
  rw [updates_savesFailing]
  exact eq_false_of_ne_true hnot

/-- If no row of an inactive employee has never been synced, then each row that
    needs it is reconciled. -/
theorem covers_of_never (hnever : ∀ id b, d.db.balances.get id = some b →
    b.lastSyncedAt = none → b.employeeId ∈ activeEmployeeIds d.db) :
    Covers now fetch fails e d := by
  -- What is selected is what needs it: this is where the assumption is used.
  have hids : ((reconciledBalances now d.db).map Prod.fst).Nodup := ids_reconciledBalances
  have hselected : ∀ id b, d.db.balances.get id = some b →
      (id ∈ (reconciledBalances now d.db).map Prod.fst ↔ needsSync now d.db b) := by
    intro id b hb
    rw [List.mem_map]
    constructor
    · rintro ⟨q, hq, rfl⟩
      obtain ⟨hrow, hneeds⟩ := (mem_selected_iff hnever).1 hq
      rwa [Option.some.inj (hb.symm.trans hrow)]
    · exact fun hneeds => ⟨(id, b), (mem_selected_iff hnever).2 ⟨hb, hneeds⟩, rfl⟩
  refine ⟨fun id b hb => ?_, fun id hnone => ?_, fun id b hcmData hb hupdate hfetch => ?_,
    fun id b hb hnot => ?_, fun id hnone => ?_, ?_⟩
  · -- No id is selected twice, so that it is called for once.
    rw [calls_eq]
    split
    · next hneeds => exact List.count_eq_one_of_mem hids ((hselected id b hb).2 hneeds)
    · next hneeds => exact List.count_eq_zero_of_not_mem (mt (hselected id b hb).1 hneeds)
  · rw [calls_eq]
    refine List.count_eq_zero_of_not_mem fun hmem => ?_
    obtain ⟨q, hq, rfl⟩ := List.mem_map.1 hmem
    cases hnone.symm.trans (mem_reconciledBalances hq)
  · obtain ⟨r, trace, report, hr, _, _, hrun⟩ :=
      run_of_savesFailing now fetch fails e d
    obtain ⟨hneeds, hupdates⟩ := Bool.and_eq_true_iff.1 hupdate
    rw [← updates_savesFailing (e := e) (id, b)] at hupdates
    rw [hrun]
    exact hr.updated (id, b) ((mem_selected_iff hnever).2 ⟨hb, hneeds⟩) hcmData hupdates hfetch
  · rw [get_of_not_toUpdate hnever fun b' hb' => ?_, hb]
    rwa [← Option.some.inj (hb.symm.trans hb')]
  · rw [get_of_not_toUpdate hnever fun b' hb' => ?_, hnone]
    cases hnone.symm.trans hb'
  · obtain ⟨r, trace, report, hr, hreport, _, hrun⟩ :=
      run_of_savesFailing now fetch fails e d
    refine ⟨report, by rw [hrun], ?_⟩
    have hcount : report.recordsProcessed =
        (reconciledBalances now d.db).countP (updates fetch (savesFailing fails e)) := by
      rw [← Except.ok.inj (hr.value.symm.trans hreport), Nat.zero_add]
    -- The selected rows are those that need it, in another order.
    have hperm : (reconciledBalances now d.db).Perm
        (d.db.balances.rows.filter fun q => needsSync now d.db q.2) :=
      (List.perm_ext_iff_of_nodup hids.of_map (Table.nodup_rows.of_map.filter _)).2 fun q => by
        rw [mem_selected_iff hnever, List.mem_filter, Table.mem_rows]
    rw [hcount, hperm.countP_eq, List.countP_filter]
    refine List.countP_congr fun q _ => ?_
    rw [updates_savesFailing, toUpdate, Bool.and_comm]

end

/-- A reconciliation covers every row that needs it, once, and isolates the
    faults, if and only if every row that has never been synced is of an
    employee with an active request. -/
theorem covers_iff (now : Instant) (fetch : BalanceKey → Except ServiceError HcmBalanceResponse)
    (fails : ℕ → Bool) (e : ServiceError) (d : SyncData) :
    Covers now fetch fails e d ↔
      ∀ id b, d.db.balances.get id = some b → b.lastSyncedAt = none →
        ∃ n r, d.db.requests.get n = some r ∧ r.employeeId = b.employeeId ∧
          (r.status = .pending ∨ r.status = .approvedPendingHcm) := by
  simp only [← mem_activeEmployeeIds]
  refine ⟨fun h id b hb hnone => ?_, covers_of_never⟩
  by_contra hinactive
  exact not_covers hb hnone hinactive h

/-- The HCM answers 12 days for the row of an employee without requests, which
    has never been synced: it is not asked, and the row keeps its 10. -/
theorem never_synced_not_covered :
    let fetch : BalanceKey → Except ServiceError HcmBalanceResponse := fun _ => .ok ⟨12, "2"⟩
    let r := runReconciliation 1800000 fetch (fun _ => false) .transactionNotStarted
      ⟨sampleDb 10, .empty⟩
    r.trace.countP (isCall 0) = 0 ∧
    (r.store.data.db.balances.get 0).map LeaveBalance.totalDays = some 10 ∧
    ¬Covers 1800000 fetch (fun _ => false) .transactionNotStarted ⟨sampleDb 10, .empty⟩ := by
  intro fetch r
  have hcalls : r.trace.countP (isCall 0) = 0 := by decide +kernel
  refine ⟨hcalls, by decide +kernel, fun h => ?_⟩
  exact absurd ((h.called 0 (sampleBalance 10) rfl).symm.trans hcalls) Nat.one_ne_zero

end TimeOff
