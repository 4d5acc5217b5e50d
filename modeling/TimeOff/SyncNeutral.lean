import TimeOff.HcmBalance

/-!
# What a sync does to what is available

The total of a balance is taken over from the HCM, which has deducted the days
of the approved requests from it. The local row has them in `used_days`, too,
and `effectiveAvailable` subtracts them once more. So a sync with an HCM that
has done nothing but what it was told to is not neutral, as soon as there is an
approved request that the total of the row does not know of yet
(`sync_neutral_iff`).

`Settled` says of a row when its sync is neutral.
-/

namespace TimeOff

open Transaction Transition HcmState

/-- What the HCM client fetches for a balance, when no call fails. -/
def HcmState.fetch (hcm : HcmState) (key : BalanceKey) : Option HcmBalanceResponse :=
  match hcm.getBalance key with
  | .ok record => some ⟨record.totalDays, toString record.hcmVersion⟩
  | .error _ => none

/-- The syncs with the totals that the HCM has at `s`, for balances that are
    there. -/
inductive CurrentSync (s : State) : Tx SyncReport → Prop
  | reconciliation : CurrentSync s (triggerReconciliation s.now s.hcm.fetch)
  | webhook {i : ℕ} {b : LeaveBalance} {record : BalanceRecord} (hcmVersion : String) :
      s.db.balances.get i = some b → s.hcm.getBalance b.toBalanceKey = .ok record →
      CurrentSync s (processWebhookPayload s.now ⟨b.toBalanceKey, record.totalDays, hcmVersion⟩)
  | batch {records : List BatchRecord} :
      (∀ r ∈ records, (∃ i b, s.db.balances.get i = some b ∧ b.toBalanceKey = r.toBalanceKey) ∧
        ∃ record, s.hcm.getBalance r.toBalanceKey = .ok record ∧ r.totalDays = record.totalDays) →
      CurrentSync s (processBatchPayload s.now records)

/-- The sync reports no discrepancy, and leaves what is available of every
    balance as it is. -/
def Neutral (db : Database) (x : Tx SyncReport) : Prop :=
  ∃ report t, x.run (.start db) = .ok report t ∧ report.discrepancies = 0 ∧
    ∀ i b, db.balances.get i = some b → ∃ b', t.db.balances.get i = some b' ∧
      b'.effectiveAvailable = b.effectiveAvailable

/-- The HCM, with `hcmTotal` days, covers what is used and reserved of the row.
    The row has this total already, or nothing was available before and nothing
    is now. -/
def LeaveBalance.Settled (hcmTotal : ℚ) (b : LeaveBalance) : Prop :=
  b.usedDays + b.reservedDays ≤ hcmTotal ∧
    (b.totalDays = hcmTotal ∨
      b.totalDays ≤ b.usedDays + b.reservedDays ∧ hcmTotal = b.usedDays + b.reservedDays)

variable {cfg : Config} {s s₀ : State} {id i : ℕ} {hist : List (State × Action)}
  {b b₀ b' : LeaveBalance} {db db' db'' : Database} {hcm : HcmState} {now : Instant}
  {hcmTotal : ℚ} {hcmVersion : String} {x : Session} {record : BalanceRecord}

/-! ## Rows -/

/-- A row is settled exactly if a sync with this total is neutral for it. -/
theorem LeaveBalance.settled_iff (now : Instant) (hcmVersion : String) : b.Settled hcmTotal ↔
    detectDiscrepancy hcmTotal b.usedDays b.reservedDays = false ∧
      (b.merge now hcmTotal hcmVersion).effectiveAvailable = b.effectiveAvailable := by
  simp only [Settled, merge, effectiveAvailable, calculateEffectiveAvailable, id_eq,
    detectDiscrepancy, decide_eq_false_iff_not, not_lt]
  refine and_congr_right fun hle => ?_
  -- The new total covers what is used and reserved, so that the maximum is cut off in one only.
  rw [max_eq_right (show 0 ≤ hcmTotal - b.usedDays - b.reservedDays by linarith)]
  constructor
  · rintro (htotal | ⟨hnothing, htotal⟩)
    · rw [htotal, max_eq_right (by linarith)]
    · rw [max_eq_left (by linarith)]
      linarith
  · intro heq
    rcases le_total b.totalDays (b.usedDays + b.reservedDays) with hnothing | havailable
    · rw [max_eq_left (by linarith)] at heq
      exact .inr ⟨hnothing, by linarith⟩
    · rw [max_eq_right (by linarith)] at heq
      exact .inl (by linarith)

theorem LeaveBalance.settled_merge (hle : b.usedDays + b.reservedDays ≤ hcmTotal) :
    (b.merge now hcmTotal hcmVersion).Settled hcmTotal :=
  ⟨hle, .inl rfl⟩

/-- Every row that the HCM has a balance for is settled. -/
def AllSettled (hcm : HcmState) (db : Database) : Prop :=
  ∀ i b record, db.balances.get i = some b → hcm.balances b.hcmKey = some record →
    b.Settled record.totalDays

/-- What syncs keep, when all rows are settled: the counters, and what is
    available. -/
structure Kept (hcm : HcmState) (db db' : Database) : Prop where
  row : ∀ i b, db.balances.get i = some b → ∃ b', db'.balances.get i = some b' ∧
    b.SameCounters b' ∧ b'.effectiveAvailable = b.effectiveAvailable
  settled : AllSettled hcm db'

theorem Kept.refl (hsettled : AllSettled hcm db) : Kept hcm db db :=
  ⟨fun _ b hb => ⟨b, hb, .refl b, rfl⟩, hsettled⟩

/-- What two parts of a sync keep, one after the other. -/
theorem Kept.trans (h : Kept hcm db db') (h' : Kept hcm db' db'') : Kept hcm db db'' where
  row i b hb := by
    obtain ⟨b', hb', hsame, havailable⟩ := h.row i b hb
    obtain ⟨b'', hb'', hsame', havailable'⟩ := h'.row i b' hb'
    exact ⟨b'', hb'', hsame.trans hsame', havailable'.trans havailable⟩
  settled := h'.settled

/-- The HCM answers with the record that it has. -/
theorem getBalance_eq_ok {key : BalanceKey} :
    hcm.getBalance key = .ok record ↔ hcm.balances key.hcmKey = some record := by
  rw [getBalance]
  split
  · next hsome => rw [hsome, Except.ok.injEq, Option.some.injEq]
  · next hnone => rw [hnone]; exact ⟨nofun, nofun⟩

/-- The sync of one row, by a copy that has its counters. -/
theorem syncRow_kept (now : Instant) (hcmVersion : String) (hsettled : AllSettled hcm x.db)
    (hb : x.db.balances.get id = some b) (hsame : b₀.SameCounters b)
    (hrecord : hcm.balances b₀.hcmKey = some record) :
    ∃ t, (syncRow now id b₀ record.totalDays hcmVersion).run x = .ok false t ∧
      Kept hcm x.db t.db := by
  -- The copy may be older than the row; it has the same counters, so that the row is saved
  -- with these.
  have hkey : b₀.hcmKey = b.hcmKey := congrArg BalanceKey.hcmKey hsame.key.symm
  have hrow := hsettled id b record hb (hkey ▸ hrecord)
  obtain ⟨hno, havailable⟩ := (LeaveBalance.settled_iff now hcmVersion).1 hrow
  have hmerged : b.SameCounters (b₀.merge now record.totalDays hcmVersion) :=
    ⟨hsame.key.symm, hsame.usedDays.symm, hsame.reservedDays.symm, hsame.version.symm⟩
  refine ⟨⟨x.db.saveBalance id (b₀.merge now record.totalDays hcmVersion), x.clamped⟩, ?_,
    fun j c hc => ?_, fun j c record' hc hrecord' => ?_⟩
  · rw [← hno, hsame.usedDays, hsame.reservedDays]
    rfl
  · rw [get_saveBalance hb _ hmerged.key]
    split
    · next hj =>
      obtain rfl : b = c := Option.some.inj (hb.symm.trans (hj ▸ hc))
      refine ⟨_, rfl, hmerged, ?_⟩
      rw [← havailable, LeaveBalance.effectiveAvailable, hmerged.usedDays, hmerged.reservedDays]
      rfl
    · exact ⟨c, hc, .refl c, rfl⟩
  · rw [get_saveBalance hb _ hmerged.key] at hc
    split at hc
    · obtain rfl := Option.some.inj hc
      obtain rfl := Option.some.inj (hrecord.symm.trans hrecord')
      refine LeaveBalance.settled_merge ?_
      rw [← hsame.usedDays, ← hsame.reservedDays]
      exact hrow.1
    · exact hsettled j c record' hc hrecord'

/-! ## Syncs -/

/-- A reconciliation keeps the rows that are settled, and finds no discrepancy. -/
theorem reconcileBalances_kept (now : Instant) (rows : List (ℕ × LeaveBalance)) (n : ℕ)
    (hsettled : AllSettled hcm x.db)
    (hrows : ∀ q ∈ rows, ∃ b, x.db.balances.get q.1 = some b ∧ q.2.SameCounters b) :
    ∃ m t, (reconcileBalances now hcm.fetch rows ⟨n, 0⟩).run x = .ok ⟨m, 0⟩ t ∧
      Kept hcm x.db t.db := by
  -- On the rows that were selected: a copy still has the counters of its row, since the
  -- rounds before have kept them.
  induction rows generalizing x n with
  | nil => exact ⟨n, x, rfl, .refl hsettled⟩
  | cons q rows ih =>
    obtain ⟨id, b₀⟩ := q
    obtain ⟨b, hb, hsame⟩ := hrows (id, b₀) List.mem_cons_self
    have hrest := fun q hq => hrows q (List.mem_cons_of_mem _ hq)
    rw [reconcileBalances]
    cases hrecord : hcm.balances b₀.hcmKey with
    | none =>
      rw [fetch, getBalance, hrecord]
      exact ih n hsettled hrest
    | some record =>
      rw [fetch, getBalance, hrecord]
      obtain ⟨t, hrun, hkept⟩ := syncRow_kept now (toString record.hcmVersion) hsettled hb
        hsame hrecord
      obtain ⟨m, t', hrun', hkept'⟩ := ih (n + 1) hkept.settled fun q hq => by
        obtain ⟨c, hc, hsame⟩ := hrest q hq
        obtain ⟨c', hc', hsame', _⟩ := hkept.row _ c hc
        exact ⟨c', hc', hsame.trans hsame'⟩
      exact ⟨m, t', bind_eq_ok.2 ⟨false, t, hrun, hrun'⟩, hkept.trans hkept'⟩

/-- So does a batch with the totals that the HCM has. -/
theorem syncBatchRecords_kept (now : Instant) (records : List BatchRecord)
    (hsettled : AllSettled hcm x.db)
    (hrecords : ∀ r ∈ records,
      (∃ i b, x.db.balances.get i = some b ∧ b.toBalanceKey = r.toBalanceKey) ∧
        ∃ record, hcm.getBalance r.toBalanceKey = .ok record ∧ r.totalDays = record.totalDays) :
    ∃ t, (syncBatchRecords now records 0).run x = .ok 0 t ∧ Kept hcm x.db t.db := by
  induction records generalizing x with
  | nil => exact ⟨x, rfl, .refl hsettled⟩
  | cons r records ih =>
    obtain ⟨⟨i, b, hb, hkey⟩, record, hrecord, htotal⟩ := hrecords r List.mem_cons_self
    rw [getBalance_eq_ok, ← hkey] at hrecord
    obtain ⟨t, hrun, hkept⟩ := syncRow_kept now r.hcmVersion hsettled hb (.refl b) hrecord
    have hfirst : (syncBatchRecord now r).run x = .ok false t := by
      rw [syncBatchRecord, run_get_bind, KeyedTable.lookup_eq_some.2 ⟨hb, hkey⟩, htotal]
      exact hrun
    obtain ⟨t', hrun', hkept'⟩ := ih hkept.settled fun r' hr' => by
      obtain ⟨⟨j, c, hc, hck⟩, hcurrent⟩ := hrecords r' (List.mem_cons_of_mem _ hr')
      obtain ⟨c', hc', hsame, _⟩ := hkept.row j c hc
      exact ⟨⟨j, c', hc', hsame.key.trans hck⟩, hcurrent⟩
    exact ⟨t', bind_eq_ok.2 ⟨false, t, hfirst, hrun'⟩, hkept.trans hkept'⟩

/-- When all rows are settled, the syncs are neutral. -/
theorem neutral_of_allSettled (hsettled : AllSettled s.hcm s.db) {x : Tx SyncReport}
    (hx : CurrentSync s x) : Neutral s.db x := by
  have hneutral : ∀ {m t}, x.run (.start s.db) = .ok ⟨m, 0⟩ t → Kept s.hcm s.db t.db →
      Neutral s.db x := fun hrun hkept => ⟨_, _, hrun, rfl, fun i b hb => by
    obtain ⟨b', hb', _, havailable⟩ := hkept.row i b hb
    exact ⟨b', hb', havailable⟩⟩
  cases hx with
  | reconciliation =>
    obtain ⟨m, t, hrun, hkept⟩ := reconcileBalances_kept s.now (x := .start s.db)
      (reconciledBalances s.now s.db) 0 hsettled
      fun q hq => ⟨q.2, mem_reconciledBalances hq, .refl q.2⟩
    exact hneutral hrun hkept
  | @webhook i b record hcmVersion hb hrecord =>
    obtain ⟨t, hrun, hkept⟩ := syncRow_kept s.now hcmVersion (x := .start s.db) hsettled hb
      (.refl b) (getBalance_eq_ok.1 hrecord)
    refine hneutral (m := 1) (t := t) ?_ hkept
    rw [processWebhookPayload, run_get_bind, Session.start,
      KeyedTable.lookup_eq_some.2 ⟨hb, rfl⟩]
    exact bind_eq_ok.2 ⟨false, t, hrun, rfl⟩
  | @batch records hrecords =>
    obtain ⟨t, hrun, hkept⟩ := syncBatchRecords_kept s.now (x := .start s.db) records hsettled
      hrecords
    exact hneutral (bind_eq_ok.2 ⟨0, t, hrun, rfl⟩) hkept

/-- A webhook that is neutral has found its row settled. -/
theorem settled_of_neutral (hb : s.db.balances.get i = some b)
    (hrecord : s.hcm.balances b.hcmKey = some record)
    (hneutral : ∀ x, CurrentSync s x → Neutral s.db x) : b.Settled record.totalDays := by
  obtain ⟨report, t, hrun, hno, hrows⟩ := hneutral _ (.webhook "" hb (getBalance_eq_ok.2 hrecord))
  rw [processWebhookPayload, run_get_bind, Session.start,
    KeyedTable.lookup_eq_some.2 ⟨hb, rfl⟩] at hrun
  obtain ⟨isDiscrepancy, t', hrow, hrun⟩ := bind_eq_ok.1 hrun
  obtain ⟨hreport, rfl⟩ := pure_eq_ok.1 hrun
  obtain ⟨hdiscrepancy, hdb⟩ := syncRow_ok hrow
  have hsaved : t'.db.balances.get i = some (b.merge s.now record.totalDays "") := by
    rw [hdb]
    exact (get_saveBalance hb (b.merge s.now record.totalDays "") rfl i).trans (if_pos rfl)
  obtain ⟨b', hb', havailable⟩ := hrows i b hb
  obtain rfl := Option.some.inj (hsaved.symm.trans hb')
  refine (LeaveBalance.settled_iff s.now "").2 ⟨?_, havailable⟩
  rw [← hdiscrepancy]
  rw [← hreport] at hno
  cases isDiscrepancy with
  | false => rfl
  | true => cases hno

/-- Only when all rows are settled, the syncs are neutral. -/
theorem neutral_iff_allSettled :
    (∀ x, CurrentSync s x → Neutral s.db x) ↔ AllSettled s.hcm s.db :=
  ⟨fun hneutral _ _ _ hb hrecord => settled_of_neutral hb hrecord hneutral,
    fun hsettled _ => neutral_of_allSettled hsettled⟩

/-! ## Runs -/

/-- When all events are done, what is live are the days of the approved
    requests. -/
theorem liveDays_of_done {X : Ends} (hX : Corresponds X)
    (hdone : ∀ k m, X.outbox k = some m → m.done = true) (K : String) :
    X.liveDays anyStatus K = daysOn X.requests (· = .approved) K := by
  refine Table.sum_congr fun id r hr => if_congr ?_ rfl rfl
  constructor
  · rintro ⟨⟨k, m, d, hm, hd⟩, hK, _⟩
    obtain ⟨r', hr', hstatus⟩ := hX.approved_of_live hdone hm hd
    obtain rfl := Option.some.inj (hr.symm.trans hr')
    exact ⟨hK, decide_eq_true hstatus⟩
  · rintro ⟨hK, hstatus⟩
    obtain ⟨k, m, d, hm, hd, _⟩ := hX.deduction_of_approved hr (of_decide_eq_true hstatus)
    exact ⟨⟨k, m, d, hm, hd⟩, hK, rfl⟩

/-- What the HCM has left, when all events are done. -/
theorem allSettled_iff (hs₀ : Opening s₀) (hrun : Run (step cfg) Regular s₀ hist s)
    (hdone : ∀ k e, s.db.outbox.get k = some e → e.status = .done) :
    AllSettled s.hcm s.db ↔
      ∀ i b seed, s.db.balances.get i = some b → s₀.seeds b.hcmKey = some seed →
        b.Settled (seed - daysOn s.db.requests (· = .approved) b.hcmKey) := by
  -- Once all events are done, the HCM has taken exactly the days of the approved requests
  -- off its seed.
  have hlive := liveDays_of_done (exchanging_of_run hs₀ hrun).corresponds fun k m hm => by
    obtain ⟨e, he, rfl⟩ := Option.map_eq_some_iff.1 hm
    rw [OutboxEvent.message, hdone k e he]
    rfl
  have hbal : ∀ K, (s.hcm.balances K).map (·.totalDays) =
      (s₀.seeds K).map (· - daysOn s.db.requests (· = .approved) K) := fun K => by
    have hK := balanced_of_run hs₀ hrun K
    rwa [hlive K] at hK
  constructor
  · intro hsettled i b seed hb hseed
    have hK := hbal b.hcmKey
    rw [hseed, Option.map_some, Option.map_eq_some_iff] at hK
    obtain ⟨record, hrecord, htotal⟩ := hK
    rw [← htotal]
    exact hsettled i b record hb hrecord
  · intro hsettled i b record hb hrecord
    have hK := hbal b.hcmKey
    rw [hrecord, Option.map_some] at hK
    obtain ⟨seed, hseed, htotal⟩ := Option.map_eq_some_iff.1 hK.symm
    rw [← htotal]
    exact hsettled i b seed hb hseed

/-- The total of a row, in a run without a sync, is the seed of the HCM. -/
theorem settled_unsynced_iff (hs₀ : Opening s₀) (hagreed : Agreed s₀)
    (hrun : Run (step cfg) Unsynced s₀ hist s) (hb : s.db.balances.get i = some b) :
    s₀.seeds b.hcmKey = some b.totalDays ∧
      (b.Settled (b.totalDays - daysOn s.db.requests (· = .approved) b.hcmKey) ↔
        daysOn s.db.requests (· = .approved) b.hcmKey = 0 ∧ 0 ≤ b.totalDays) := by
  -- Without a sync the total is still the seed. The ledger says that nothing is negative,
  -- and an overdraft is excluded.
  have hledger := Ledger.of_run hs₀.calls (hagreed.ledger hs₀) hrun
  have hfunded := (funded_of_run hs₀ hagreed hrun).2
  refine ⟨seeds_of_run hs₀ hagreed hrun hb, ?_⟩
  have hused : 0 ≤ b.usedDays := by
    rw [hledger.used i b hb, zero_add]
    exact daysIn_nonneg fun id r hr _ => (hledger.positive id r hr).le
  have hreserved : 0 ≤ b.reservedDays := by
    rw [hledger.reserved i b hb]
    exact daysIn_nonneg fun id r hr _ => (hledger.positive id r hr).le
  have hdays : 0 ≤ daysOn s.db.requests (· = .approved) b.hcmKey :=
    Table.sum_nonneg fun id r hr => by
      split
      · exact (hledger.positive id r hr).le
      · exact le_rfl
  constructor
  · rintro ⟨hle, htotal' | ⟨hnothing, htotal'⟩⟩ <;> constructor <;> linarith
  · rintro ⟨hzero, htotal'⟩
    rw [hzero, sub_zero]
    refine ⟨?_, .inl rfl⟩
    rcases (add_nonneg hused hreserved).eq_or_lt with hnone | hsome
    · rwa [← hnone]
    · exact hfunded i b hb hsome

/-- **When a sync is neutral.** In every state with all events done that the
    service reaches, the syncs with the current totals of the HCM leave alone
    what is available, and report no discrepancy, if and only if the rows are
    settled with what the HCM was seeded with, less the days of the approved
    requests. If there has been no sync before, they are so if and only if
    there is no approved request for them. -/
theorem sync_neutral_iff (hs₀ : Opening s₀) (hrun : Run (step cfg) Regular s₀ hist s)
    (hdone : ∀ k e, s.db.outbox.get k = some e → e.status = .done) :
    ((∀ x, CurrentSync s x → Neutral s.db x) ↔
      ∀ i b seed, s.db.balances.get i = some b → s₀.seeds b.hcmKey = some seed →
        b.Settled (seed - daysOn s.db.requests (· = .approved) b.hcmKey)) ∧
    (Agreed s₀ → (∀ x ∈ hist, x.2.isSync = false) →
      ((∀ x, CurrentSync s x → Neutral s.db x) ↔
        ∀ i b, s.db.balances.get i = some b →
          daysOn s.db.requests (· = .approved) b.hcmKey = 0 ∧ 0 ≤ b.totalDays)) := by
  have hsettled := neutral_iff_allSettled.trans (allSettled_iff hs₀ hrun hdone)
  refine ⟨hsettled, fun hagreed hno => hsettled.trans ?_⟩
  have hrow := fun i b => settled_unsynced_iff (i := i) (b := b) hs₀ hagreed (hrun.and hno)
  constructor
  · intro hall i b hb
    obtain ⟨hseed, hiff⟩ := hrow i b hb
    exact hiff.1 (hall i b _ hb hseed)
  · intro hall i b seed hb hseed
    obtain ⟨hseed', hiff⟩ := hrow i b hb
    obtain rfl := Option.some.inj (hseed'.symm.trans hseed)
    exact hiff.2 (hall i b hb)

instance (b : LeaveBalance) : Decidable (b.Settled hcmTotal) := inferInstanceAs (Decidable (_ ∧ _))

/-- A request of two days out of ten is approved, and the total of the HCM
    taken over. The next sync is neutral. -/
theorem sync_neutral_iff_sample : ∃ hist s,
    Run (step sampleConfig) Regular (sampleStart 10) hist s ∧
    (s.db.requests.get 0).any (·.status = .approved) ∧
    ∀ x, CurrentSync s x → Neutral s.db x := by
  let actions := sampleApproval 2 ++ sampleDeduction 0 ++
    [.processWebhookPayload ⟨sampleKey, 8, "2"⟩]
  have hexec : ∃ s ∈ exec (step sampleConfig) (sampleStart 10) actions,
      AllDone s ∧ (s.db.requests.get 0).any (·.status = .approved) ∧
      ∀ i < s.db.balances.nextId, (s.db.balances.get i).all fun b =>
        b.hcmKey = sampleKey.hcmKey ∧
          b.Settled (10 - daysOn s.db.requests (· = .approved) b.hcmKey) := by decide +kernel
  have hregular : ∀ a ∈ actions, a.isRegular := by decide +kernel
  obtain ⟨s, hrun, hdone, happroved, hall⟩ := exists_run_of_exec hregular hexec
  refine ⟨_, s, hrun, happroved, (sync_neutral_iff (opening_sample 10) hrun
    fun k e => hdone.status).1.2 fun i b seed hb hseed => ?_⟩
  have hb' := hall i (Table.lt_nextId hb)
  rw [hb] at hb'
  obtain ⟨hkey, hsettled⟩ := of_decide_eq_true hb'
  -- The seed of the HCM is what the row started with.
  have hten := (agreed_sample 10).total 0 (sampleBalance 10) rfl
  obtain rfl : (10 : ℚ) = seed := Option.some.inj (hten.symm.trans (hkey ▸ hseed))
  exact hsettled

/-- A request of two days out of ten is approved, and deducted at the HCM. A
    webhook with the total of the HCM then takes the two days once more from
    what is available. -/
theorem sync_counts_twice : ∃ hist s, Run (step sampleConfig) Regular (sampleStart 10) hist s ∧
    (∀ k e, s.db.outbox.get k = some e → e.status = .done) ∧
    ∃ x, CurrentSync s x ∧ ¬Neutral s.db x := by
  let actions := sampleApproval 2 ++ sampleDeduction 0
  have hexec : ∃ s ∈ exec (step sampleConfig) (sampleStart 10) actions, AllDone s ∧
      (s.db.balances.get 0).any fun b => (s.hcm.balances b.hcmKey).any fun record =>
        ¬b.Settled record.totalDays := by decide +kernel
  have hregular : ∀ a ∈ actions, a.isRegular := by decide +kernel
  obtain ⟨s, hrun, hdone, hrow⟩ := exists_run_of_exec hregular hexec
  obtain ⟨b, hb, hrow⟩ := (Option.any_eq_true _ _).1 hrow
  obtain ⟨record, hrecord, hnot⟩ := (Option.any_eq_true _ _).1 hrow
  refine ⟨_, s, hrun, fun k e => hdone.status, ?_⟩
  by_contra hneutral
  refine of_decide_eq_true hnot (settled_of_neutral hb hrecord fun x hx => ?_)
  by_contra hnot
  exact hneutral ⟨x, hx, hnot⟩

end TimeOff
