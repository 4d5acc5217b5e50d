import TimeOff.System

/-!
# Syncs that race

A webhook and a reconciliation hold copies of rows while they wait, for the
HCM or for the database, and save the copies as a whole. `SyncRace` takes them
apart: other statements take effect between the read of a copy and its save.
The save then puts back `used_days`, `reserved_days` and `version` as they were
when the copy was read, and what the statements have done to them is lost
(`reservation_lost`). Unless there is such a save, the counters of every row
are what the statements that took effect make of them (`counters_replay_iff`).

Left to itself, a sync does what `TimeOff.Sync` has it do in one go
(`webhook_uninterrupted`, `reconciliation_uninterrupted`).
-/

namespace TimeOff

open Transaction Transition

/-- A webhook or a reconciliation under way. -/
structure SyncRun where
  /-- The copy that it is about to save, with the id of its row. -/
  saving : Option (ℕ × LeaveBalance)
  /-- The copies of the rows that it has yet to ask the HCM for. -/
  rows : List (ℕ × LeaveBalance)
  report : SyncReport

namespace SyncRun

/-- A copy has been merged with what the HCM says, and is about to be saved. -/
def merged (now : Instant) (id : ℕ) (b : LeaveBalance) (totalDays : ℚ) (hcmVersion : String)
    (rest : List (ℕ × LeaveBalance)) (report : SyncReport) : SyncRun where
  saving := some (id, b.merge now totalDays hcmVersion)
  rows := rest
  report :=
    if detectDiscrepancy totalDays b.usedDays b.reservedDays then
      { report with discrepancies := report.discrepancies + 1 }
    else report

/-- The save has succeeded, or it has thrown. A reconciliation goes on. -/
def saved (ok : Bool) (t : SyncRun) : SyncRun where
  saving := none
  rows := t.rows
  report :=
    if ok then { t.report with recordsProcessed := t.report.recordsProcessed + 1 } else t.report

end SyncRun

/-- The balances, and the syncs under way. -/
structure SyncRace where
  db : Database
  now : Instant
  syncs : Table SyncRun

/-- A statement, or a step of a sync. -/
inductive SyncRace.Action
  | reserveBalance (key : BalanceKey) (days : ℚ) (currentVersion : ℕ)
  | releaseReserved (key : BalanceKey) (days : ℚ)
  | confirmDeduction (key : BalanceKey) (days : ℚ)
  /-- Time passes. -/
  | advance (ms : ℕ)
  /-- `processWebhookPayload` finds its row. -/
  | findOne (payload : BatchRecord)
  /-- `triggerReconciliation` finds its rows. -/
  | find
  /-- `getBalance` responds to the sync `n`, or throws. -/
  | fetch (n : ℕ) (hcmData : Option HcmBalanceResponse)
  /-- The sync `n` saves its copy, which may throw. -/
  | save (n : ℕ) (ok : Bool)

namespace SyncRace

/-- One step of the race. -/
def step (s : SyncRace) : Action → Option SyncRace
  | .reserveBalance key days currentVersion =>
    some { s with db := transaction (TimeOff.reserveBalance key days currentVersion) s.db }
  | .releaseReserved key days =>
    some { s with db := transaction (TimeOff.releaseReserved key days) s.db }
  | .confirmDeduction key days =>
    some { s with db := transaction (TimeOff.confirmDeduction key days) s.db }
  | .advance ms => some { s with now := s.now + ms }
  | .findOne payload =>
    match s.db.balances.lookup payload.toBalanceKey with
    | none => some s
    | some (id, b) => some { s with
        syncs := s.syncs.insert
          (.merged s.now id b payload.totalDays payload.hcmVersion [] ⟨0, 0⟩) }
  | .find =>
    some { s with syncs := s.syncs.insert ⟨none, reconciledBalances s.now s.db, ⟨0, 0⟩⟩ }
  | .fetch n hcmData =>
    match s.syncs.get n with
    | some ⟨none, (id, b) :: rest, report⟩ => some { s with
        syncs := s.syncs.update n fun _ => match hcmData with
          | none => ⟨none, rest, report⟩
          | some hcmData =>
            .merged s.now id b hcmData.totalDays hcmData.hcmVersion rest report }
    | _ => none
  | .save n ok =>
    match s.syncs.get n with
    | some ⟨some (id, entity), _, _⟩ => some { s with
        db := if ok then s.db.saveBalance id entity else s.db
        syncs := s.syncs.update n (·.saved ok) }
    | _ => none

end SyncRace

/-! ## Counters -/

/-- What the statements update in a row, and what they find it by. -/
structure Counters extends BalanceKey where
  usedDays : ℚ
  reservedDays : ℚ
  version : ℕ
  deriving DecidableEq

namespace Counters

/-- A reservation adds to the reserved days, and counts the version up. -/
def reserve (days : ℚ) (c : Counters) : Counters :=
  { c with reservedDays := c.reservedDays + days, version := c.version + 1 }

/-- A release takes from the reserved days. -/
def release (days : ℚ) (c : Counters) : Counters :=
  { c with reservedDays := max 0 (c.reservedDays - days) }

/-- A confirmation moves days from the reserved ones to those used. -/
def confirm (days : ℚ) (c : Counters) : Counters :=
  { c with reservedDays := max 0 (c.reservedDays - days), usedDays := c.usedDays + days }

end Counters

/-- The counters of a row. -/
def LeaveBalance.counters (b : LeaveBalance) : Counters := { b with }

namespace SyncRace

/-- The counters of the row `i`. -/
def counters (i : ℕ) (s : SyncRace) : Option Counters :=
  (s.db.balances.get i).map LeaveBalance.counters

/-- What the statement of a step does to the counters of a row, if it takes
    effect. A step of a sync does nothing to them. -/
def effect (x : SyncRace × Action) (c : Counters) : Counters :=
  match x.2 with
  | .reserveBalance key days currentVersion =>
    if c.toBalanceKey = key ∧
        (x.1.db.balances.lookup key).any (·.2.reservable days currentVersion) then
      c.reserve days
    else c
  | .releaseReserved key days => if c.toBalanceKey = key then c.release days else c
  | .confirmDeduction key days => if c.toBalanceKey = key then c.confirm days else c
  | _ => c

/-- The effect of a step on the counters of a row, if it is there. -/
def effectOn (x : SyncRace × Action) : Option Counters → Option Counters := Option.map (effect x)

/-- `b` has `used_days`, `reserved_days` and `version` as the copy `entity`. -/
def sameColumns (entity b : LeaveBalance) : Bool :=
  b.usedDays = entity.usedDays && b.reservedDays = entity.reservedDays &&
    b.version = entity.version

/-- If the step saves a copy of the row `i`, it finds the columns in the row as
    they are in the copy. -/
def isFresh (i : ℕ) (s : SyncRace) : Action → Bool
  | .save n true => ((s.syncs.get n).bind (·.saving)).all fun q =>
      q.1 ≠ i || (s.db.balances.get i).all (sameColumns q.2)
  | _ => true

variable {s s' s₀ : SyncRace} {a : Action} {hist : List (SyncRace × Action)} {key : BalanceKey}
  {days : ℚ} {i id currentVersion : ℕ} {b entity : LeaveBalance} {f : Counters → Counters}
  {g : LeaveBalance → LeaveBalance} {ok : SyncRace → Action → Prop}

/-! ## One step -/

theorem counters_of_balances (h : s'.db.balances = s.db.balances) :
    s'.counters i = s.counters i := by
  rw [counters, h, counters]

theorem effectOn_eq_self (h : ∀ c, effect (s, a) c = c) (o : Option Counters) :
    effectOn (s, a) o = o := by
  rw [effectOn, funext h]
  exact congrFun Option.map_id o

/-- An update by the key of a row is seen in its counters. -/
theorem counters_updateBalance {hg : ∀ b, (g b).toBalanceKey = b.toBalanceKey}
    (hdb : s'.db = s.db.updateBalance key g hg) (hcounters : ∀ b, (g b).counters = f b.counters) :
    s'.counters i = (s.counters i).map fun c => if c.toBalanceKey = key then f c else c := by
  rw [counters, hdb, Database.balances_updateBalance, KeyedTable.get_updateKey, counters,
    Option.map_map, Option.map_map]
  refine Option.map_congr fun b _ => ?_
  change LeaveBalance.counters (if b.toBalanceKey = key then g b else b) =
    if b.toBalanceKey = key then f b.counters else b.counters
  split
  · exact hcounters b
  · rfl

/-- The guarded update takes effect if the row with the key meets the guard. -/
theorem transaction_reserveBalance (db : Database) (key : BalanceKey) (days : ℚ)
    (currentVersion : ℕ) : transaction (TimeOff.reserveBalance key days currentVersion) db =
      if (db.balances.lookup key).any (·.2.reservable days currentVersion) then
        db.reserve key days
      else db := by
  change { db with balances := (db.balances.updateKeyIf key (·.reservable days currentVersion)
    (·.reserve days) (LeaveBalance.key_reserve days)).getD db.balances } = _
  rw [KeyedTable.updateKeyIf]
  cases db.balances.lookup key with
  | none => rfl
  | some q =>
    obtain ⟨i, b⟩ := q
    by_cases hguard : b.reservable days currentVersion
    · simp only [Option.any_some, hguard, if_true]
      rfl
    · simp only [Option.any_some, hguard]
      rfl

/-- A reservation has its effect on the row as it is then. -/
theorem counters_reserveBalance
    (hdb : s'.db = transaction (TimeOff.reserveBalance key days currentVersion) s.db) :
    s'.counters i = effectOn (s, .reserveBalance key days currentVersion) (s.counters i) := by
  rw [transaction_reserveBalance] at hdb
  split at hdb
  · next hguard =>
    refine (counters_updateBalance (f := Counters.reserve days) hdb fun b => rfl).trans ?_
    refine Option.map_congr fun c _ => ?_
    exact if_congr (and_iff_left hguard).symm rfl rfl
  · next hguard =>
    refine (counters_of_balances (congrArg _ hdb)).trans (effectOn_eq_self (fun c => ?_) _).symm
    exact if_neg fun hc => hguard hc.2

/-- A save puts the columns of its copy into the row. -/
theorem counters_overwrite : (entity.overwrite b).counters = { b.counters with
    usedDays := entity.usedDays
    reservedDays := entity.reservedDays
    version := entity.version } := by
  simp only [LeaveBalance.counters, LeaveBalance.overwrite, Counters.mk.injEq, true_and]
  refine ⟨?_, ?_, ?_⟩ <;> split <;> simp_all

theorem counters_overwrite_eq_iff :
    (entity.overwrite b).counters = b.counters ↔ sameColumns entity b := by
  rw [counters_overwrite, LeaveBalance.counters, Counters.mk.injEq]
  simp only [true_and, sameColumns, Bool.and_eq_true, decide_eq_true_eq, and_assoc]
  exact and_congr eq_comm (and_congr eq_comm eq_comm)

/-- A save keeps the counters if its copy has those of the row. -/
theorem counters_saveBalance (id : ℕ) (entity : LeaveBalance)
    (hdb : s'.db = s.db.saveBalance id entity) :
    s'.counters i = s.counters i ↔
      (id ≠ i || (s.db.balances.get i).all (sameColumns entity)) := by
  rw [counters, hdb, Database.saveBalance, KeyedTable.get_updateId, counters]
  by_cases hi : i = id
  · rw [if_pos hi]
    cases s.db.balances.get i with
    | none => simp
    | some b =>
      simp only [Option.map_some, Option.some.injEq, counters_overwrite_eq_iff]
      simp [hi]
  · rw [if_neg hi]
    simp [Ne.symm hi]

/-- A step changes the counters of a row by its effect, unless it saves a copy
    that has others. -/
theorem step_counters (hstep : s.step a = some s') :
    s'.counters i = effectOn (s, a) (s.counters i) ↔ isFresh i s a := by
  have hself : (∀ c, effect (s, a) c = c) → s'.db.balances = s.db.balances →
      s'.counters i = effectOn (s, a) (s.counters i) := fun heffect hdb =>
    (counters_of_balances hdb).trans (effectOn_eq_self heffect _).symm
  -- The three operations work on the row as it is. A sync that reads has no effect; one
  -- that saves writes the columns of its copy, whatever has happened to the row in between.
  cases a with
  | reserveBalance key days currentVersion =>
    obtain rfl := Option.some.inj hstep
    exact iff_of_true (counters_reserveBalance rfl) rfl
  | releaseReserved key days =>
    obtain rfl := Option.some.inj hstep
    exact iff_of_true (counters_updateBalance (g := (·.release days)) rfl fun b => rfl) rfl
  | confirmDeduction key days =>
    obtain rfl := Option.some.inj hstep
    exact iff_of_true (counters_updateBalance (g := (·.confirm days)) rfl fun b => rfl) rfl
  | advance ms | find =>
    obtain rfl := Option.some.inj hstep
    exact iff_of_true (hself (fun _ => rfl) rfl) rfl
  | findOne payload =>
    rw [step] at hstep
    split at hstep <;> obtain rfl := Option.some.inj hstep <;>
      exact iff_of_true (hself (fun _ => rfl) rfl) rfl
  | fetch n hcmData =>
    rw [step] at hstep
    split at hstep
    · obtain rfl := Option.some.inj hstep
      exact iff_of_true (hself (fun _ => rfl) rfl) rfl
    · cases hstep
  | save n ok =>
    rw [step] at hstep
    split at hstep
    · next id entity rows report hn =>
      obtain rfl := Option.some.inj hstep
      cases ok with
      | false => exact iff_of_true (hself (fun _ => rfl) rfl) rfl
      | true =>
        rw [effectOn_eq_self fun _ => rfl, counters_saveBalance id entity rfl,
          isFresh, hn]
        rfl
    · cases hstep

/-! ## Runs -/

/-- Any step may be taken. -/
def anyStep (_ : SyncRace) (_ : Action) : Prop := True

/-- **When a sync keeps what the statements do.** In every run the counters of
    a row are, all the way, those at its start changed by exactly the statements
    that have taken effect, in order, if and only if every save of a copy of the
    row finds `used_days`, `reserved_days` and `version` as the copy has them. -/
theorem counters_replay_iff (i : ℕ) (hrun : Run step anyStep s₀ hist s) :
    (∀ h₁ h₂ t, hist = h₁ ++ h₂ → Run step anyStep s₀ h₁ t →
      t.counters i = replay effectOn h₁ (s₀.counters i)) ↔
      ∀ x ∈ hist, isFresh i x.1 x.2 :=
  hrun.replay_iff fun _ _ _ => step_counters

/-- The copies that a sync holds. -/
def copies (t : SyncRun) : List (ℕ × LeaveBalance) := t.saving.toList ++ t.rows

/-- The row `id` has had the counters `c` in the course of the run. -/
def HasHad (s₀ : SyncRace) (hist : List (SyncRace × Action)) (id : ℕ) (c : Counters) : Prop :=
  ∃ h₁ h₂ t, hist = h₁ ++ h₂ ∧ Run step anyStep s₀ h₁ t ∧ t.counters id = some c

/-- The copies in a step are those there have been, or are read from rows. -/
theorem copies_step (hstep : s.step a = some s') {n : ℕ} {t' : SyncRun}
    (hn : s'.syncs.get n = some t') {q : ℕ × LeaveBalance} (hq : q ∈ copies t') :
    (∃ m t b, s.syncs.get m = some t ∧ (q.1, b) ∈ copies t ∧ b.counters = q.2.counters) ∨
      s.counters q.1 = some q.2.counters := by
  have hsame : s'.syncs = s.syncs → ∃ m t b, s.syncs.get m = some t ∧ (q.1, b) ∈ copies t ∧
      b.counters = q.2.counters := fun hsyncs => ⟨n, t', q.2, hsyncs ▸ hn, hq, rfl⟩
  -- A copy comes from a read in this step, or it was there before, perhaps not merged yet.
  cases a with
  | reserveBalance | releaseReserved | confirmDeduction | advance =>
    obtain rfl := Option.some.inj hstep
    exact .inl (hsame rfl)
  | findOne payload =>
    rw [step] at hstep
    split at hstep <;> obtain rfl := Option.some.inj hstep
    · exact .inl (hsame rfl)
    · next id b hl =>
      rcases Table.get_insert_eq_some.1 hn with ⟨_, rfl⟩ | hn
      · obtain rfl := List.mem_singleton.1 hq
        rw [counters, (KeyedTable.lookup_eq_some.1 hl).1]
        exact .inr rfl
      · exact .inl ⟨n, t', q.2, hn, hq, rfl⟩
  | find =>
    obtain rfl := Option.some.inj hstep
    rcases Table.get_insert_eq_some.1 hn with ⟨_, rfl⟩ | hn
    · rw [counters, mem_reconciledBalances hq]
      exact .inr rfl
    · exact .inl ⟨n, t', q.2, hn, hq, rfl⟩
  | fetch m hcmData =>
    rw [step] at hstep
    split at hstep
    · next id b rest report hm =>
      obtain rfl := Option.some.inj hstep
      rcases Table.get_update_eq_some.1 hn with ⟨_, _, _, rfl⟩ | ⟨_, hn⟩
      · -- The copy that is merged keeps its counters.
        cases hcmData with
        | none => exact .inl ⟨m, _, q.2, hm, List.mem_cons_of_mem _ hq, rfl⟩
        | some hcmData =>
          rcases List.mem_cons.1 hq with rfl | hq
          · exact .inl ⟨m, _, b, hm, List.mem_cons_self, rfl⟩
          · exact .inl ⟨m, _, q.2, hm, List.mem_cons_of_mem _ hq, rfl⟩
      · exact .inl ⟨n, t', q.2, hn, hq, rfl⟩
    · cases hstep
  | save m ok =>
    rw [step] at hstep
    split at hstep
    · next id entity rows report hm =>
      obtain rfl := Option.some.inj hstep
      rcases Table.get_update_eq_some.1 hn with ⟨_, t₀, ht₀, rfl⟩ | ⟨_, hn⟩
      · obtain rfl := Option.some.inj (hm.symm.trans ht₀)
        exact .inl ⟨m, _, q.2, hm, List.mem_cons_of_mem _ hq, rfl⟩
      · exact .inl ⟨n, t', q.2, hn, hq, rfl⟩
    · cases hstep

/-- A copy has the counters that its row had when it was read. So a save is
    fresh when the counters of the row are then as they were at the read. -/
theorem copies_of_run (hno : ∀ n, s₀.syncs.get n = none) (hrun : Run step anyStep s₀ hist s) :
    ∀ n t, s.syncs.get n = some t → ∀ q ∈ copies t, HasHad s₀ hist q.1 q.2.counters := by
  refine hrun.history (I := fun hist s => ∀ n t, s.syncs.get n = some t →
    ∀ q ∈ copies t, HasHad s₀ hist q.1 q.2.counters)
    (fun n t hn => absurd ((hno n).symm.trans hn) nofun) ?_
  intro hist s a s' hrun hcopies _ hnext n t hn q hq
  rcases copies_step hnext hn hq with ⟨m, t₀, b, hm, hb, hcounters⟩ | hread
  · obtain ⟨h₁, h₂, t₁, hh, hrun₁, hhad⟩ := hcopies m t₀ hm _ hb
    exact ⟨h₁, h₂ ++ [(s, a)], t₁, by rw [hh, List.append_assoc], hrun₁, hcounters ▸ hhad⟩
  · exact ⟨hist, [(s, a)], s, rfl, hrun, hread⟩

/-- The employee has ten days of leave, and no sync is under way. -/
def sample : SyncRace := ⟨sampleDb 10, 0, .empty⟩

/-- Days are reserved before a webhook finds the row, and after it has saved. -/
theorem counters_replay_iff_sample : ∃ hist s, Run step anyStep sample hist s ∧
    hist.map (·.2) = [.reserveBalance sampleKey 2 0, .findOne ⟨sampleKey, 9, "2"⟩, .save 0 true,
      .reserveBalance sampleKey 3 1, .releaseReserved sampleKey 2] ∧
    s.counters 0 = replay effectOn hist (sample.counters 0) := by
  let actions : List Action := [.reserveBalance sampleKey 2 0, .findOne ⟨sampleKey, 9, "2"⟩,
    .save 0 true, .reserveBalance sampleKey 3 1, .releaseReserved sampleKey 2]
  obtain ⟨s, hs⟩ : ∃ s, exec step sample actions = some s :=
    Option.isSome_iff_exists.1 (by decide +kernel)
  have hfresh : ∀ x ∈ trace step sample actions, isFresh 0 x.1 x.2 := by decide +kernel
  have hrun : Run step anyStep sample (trace step sample actions) s :=
    run_of_exec (fun _ _ => trivial) hs
  exact ⟨_, s, hrun, map_snd_trace hs,
    (counters_replay_iff 0 hrun).2 hfresh _ [] s (List.append_nil _).symm hrun⟩

/-- A sync finds the row, two days are reserved, and the sync saves its copy:
    they are not reserved any more, and the version is the old one. So it is
    with a webhook, and with a reconciliation half an hour after one. -/
theorem reservation_lost :
    (∃ hist s, Run step anyStep sample hist s ∧
      hist.map (·.2) = [.findOne ⟨sampleKey, 10, "2"⟩, .reserveBalance sampleKey 2 0,
        .save 0 true] ∧
      replay effectOn hist (sample.counters 0) = some ⟨sampleKey, 0, 2, 1⟩ ∧
      s.counters 0 = some ⟨sampleKey, 0, 0, 0⟩) ∧
    ∃ hist s, Run step anyStep sample hist s ∧
      hist.map (·.2) = [.findOne ⟨sampleKey, 10, "2"⟩, .save 0 true, .advance 1800001, .find,
        .reserveBalance sampleKey 2 0, .fetch 1 (some ⟨10, "2"⟩), .save 1 true] ∧
      replay effectOn hist (sample.counters 0) = some ⟨sampleKey, 0, 2, 1⟩ ∧
      s.counters 0 = some ⟨sampleKey, 0, 0, 0⟩ := by
  have hlost : ∀ actions,
      (∃ s ∈ exec step sample actions, s.counters 0 = some ⟨sampleKey, 0, 0, 0⟩) →
      replay effectOn (trace step sample actions) (sample.counters 0) =
        some ⟨sampleKey, 0, 2, 1⟩ →
      ∃ hist s, Run step anyStep sample hist s ∧ hist.map (·.2) = actions ∧
        replay effectOn hist (sample.counters 0) = some ⟨sampleKey, 0, 2, 1⟩ ∧
        s.counters 0 = some ⟨sampleKey, 0, 0, 0⟩ := by
    rintro actions ⟨s, hs, hcounters⟩ hreplay
    exact ⟨_, s, run_of_exec (fun _ _ => trivial) hs, map_snd_trace hs, hreplay, hcounters⟩
  constructor
  · exact hlost _ (by decide +kernel) (by decide +kernel)
  · exact hlost _ (by decide +kernel) (by decide +kernel)

/-! ## Syncs that nothing comes between -/

variable {payload : BatchRecord} {report report' : SyncReport} {t x : Session}
  {rows : List (ℕ × LeaveBalance)} {fetch : BalanceKey → Option HcmBalanceResponse} {n : ℕ}

/-- What the save of a copy does. -/
theorem step_save (hn : s.syncs.get n = some ⟨some (id, entity), rows, report⟩) :
    s.step (.save n true) = some { s with
      db := s.db.saveBalance id entity
      syncs := s.syncs.update n (·.saved true) } := by
  rw [step, hn]
  rfl

/-- The report after the save of a merged copy. -/
theorem saved_merged (now : Instant) (id : ℕ) (b : LeaveBalance) (totalDays : ℚ)
    (hcmVersion : String) : (SyncRun.merged now id b totalDays hcmVersion rows report).saved true =
      ⟨none, rows, report.recordsProcessed + 1,
        if detectDiscrepancy totalDays b.usedDays b.reservedDays then report.discrepancies + 1
        else report.discrepancies⟩ := by
  rw [SyncRun.merged]
  split <;> rfl

/-- A webhook that nothing comes between is the one of the sync service. -/
theorem webhook_uninterrupted
    (hrun : (processWebhookPayload s.now payload).run (.start s.db) = .ok report t) :
    ∃ s', exec step s [.findOne payload, .save s.syncs.nextId true] = some s' ∧ s'.db = t.db ∧
      s'.syncs.get s.syncs.nextId = some ⟨none, [], report⟩ := by
  rw [processWebhookPayload, run_get_bind, Session.start] at hrun
  cases hl : s.db.balances.lookup payload.toBalanceKey with
  | none =>
    rw [hl] at hrun
    exact absurd hrun throw_ne_ok
  | some q =>
    obtain ⟨id, b⟩ := q
    rw [hl] at hrun
    obtain ⟨isDiscrepancy, t', hrow, hrun⟩ := bind_eq_ok.1 hrun
    obtain ⟨rfl, rfl⟩ := pure_eq_ok.1 hrun
    obtain ⟨rfl, hdb⟩ := syncRow_ok hrow
    have hnew : (s.syncs.insert (.merged s.now id b payload.totalDays payload.hcmVersion []
        ⟨0, 0⟩)).get s.syncs.nextId = _ := (Table.get_insert).trans (if_pos rfl)
    have hstep : s.step (.findOne payload) = some { s with
        syncs := s.syncs.insert (.merged s.now id b payload.totalDays payload.hcmVersion []
          ⟨0, 0⟩) } := by
      rw [step, hl]
    rw [exec, hstep, Option.bind_some, exec, step_save hnew]
    exact ⟨_, rfl, hdb.symm,
      (Table.get_update_self hnew).trans (congrArg some (saved_merged ..))⟩

/-- The steps of a reconciliation on its rows. -/
def reconciliationSteps (n : ℕ) (fetch : BalanceKey → Option HcmBalanceResponse) :
    List (ℕ × LeaveBalance) → List Action
  | [] => []
  | (_, b) :: rest =>
    match fetch b.toBalanceKey with
    | none => .fetch n none :: reconciliationSteps n fetch rest
    | some hcmData => .fetch n (some hcmData) :: .save n true :: reconciliationSteps n fetch rest

/-- So are the rounds of a reconciliation. -/
theorem rows_uninterrupted (hn : s.syncs.get n = some ⟨none, rows, report⟩) (hdb : x.db = s.db)
    (hrun : (reconcileBalances s.now fetch rows report).run x = .ok report' t) :
    ∃ s', exec step s (reconciliationSteps n fetch rows) = some s' ∧ s'.db = t.db ∧
      s'.syncs.get n = some ⟨none, [], report'⟩ := by
  -- On the rows that are left: two steps for each of them that the HCM answers for, one for
  -- the others.
  induction rows generalizing s x report with
  | nil =>
    obtain ⟨rfl, rfl⟩ := pure_eq_ok.1 hrun
    exact ⟨s, rfl, hdb.symm, hn⟩
  | cons q rest ih =>
    obtain ⟨id, b⟩ := q
    rw [reconcileBalances] at hrun
    rw [reconciliationSteps]
    cases hfetch : fetch b.toBalanceKey with
    | none =>
      rw [hfetch] at hrun
      have hstep : s.step (.fetch n none) = some { s with
          syncs := s.syncs.update n fun _ => ⟨none, rest, report⟩ } := by rw [step, hn]
      rw [exec, hstep]
      exact ih (Table.get_update_self hn) hdb hrun
    | some hcmData =>
      rw [hfetch] at hrun
      obtain ⟨isDiscrepancy, x', hrow, hrun⟩ := bind_eq_ok.1 hrun
      obtain ⟨rfl, hdb'⟩ := syncRow_ok hrow
      have hstep : s.step (.fetch n (some hcmData)) = some { s with
          syncs := s.syncs.update n fun _ =>
            .merged s.now id b hcmData.totalDays hcmData.hcmVersion rest report } := by
        rw [step, hn]
      rw [exec, hstep, Option.bind_some, exec, step_save (Table.get_update_self hn)]
      exact ih ((Table.get_update_self (Table.get_update_self hn)).trans
        (congrArg some (saved_merged ..))) (by rw [hdb', hdb]) hrun

/-- So is a reconciliation. -/
theorem reconciliation_uninterrupted
    (hrun : (triggerReconciliation s.now fetch).run (.start s.db) = .ok report t) :
    ∃ s', exec step s (.find ::
        reconciliationSteps s.syncs.nextId fetch (reconciledBalances s.now s.db)) = some s' ∧
      s'.db = t.db ∧ s'.syncs.get s.syncs.nextId = some ⟨none, [], report⟩ := by
  rw [triggerReconciliation, run_get_bind] at hrun
  exact rows_uninterrupted (s := { s with syncs := s.syncs.insert _ })
    (Table.get_insert.trans (if_pos rfl)) rfl hrun

end SyncRace

end TimeOff
