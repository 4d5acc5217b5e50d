import TimeOff.Ingestion
import TimeOff.Ledger

/-!
# Updates out of order

The HCM numbers its updates of a balance, but no sync path looks at the number
of the row before it writes: the row has the total and the version of whatever
has been delivered last, and any other step leaves both alone
(`last_delivered_wins`). An older update that is late overwrites a newer one.
-/

namespace TimeOff

open Transaction Transition

/-- What a row has been told by the HCM. -/
def LeaveBalance.told (b : LeaveBalance) : ℚ × Option String := (b.totalDays, b.hcmVersion)

/-- What a response tells. -/
def HcmBalanceResponse.told (u : HcmBalanceResponse) : ℚ × Option String :=
  (u.totalDays, some u.hcmVersion)

/-- What a record says. -/
def BatchRecord.response (r : BatchRecord) : HcmBalanceResponse := ⟨r.totalDays, r.hcmVersion⟩

instance (db : Database) (r : BatchRecord) : Decidable (db.Knows r) :=
  inferInstanceAs (Decidable (_ ∨ _))

/-- The updates that a step delivers to the row `i`, which is for `key`. A batch
    with a record that it cannot ingest is rolled back. -/
def deliveries (i : ℕ) (key : BalanceKey) (x : State × Action) : List HcmBalanceResponse :=
  match x.2 with
  | .processBatchPayload records =>
    if ∀ r ∈ records, x.1.db.Knows r then
      (records.filter (·.toBalanceKey = key)).map BatchRecord.response
    else []
  | .processWebhookPayload payload =>
    if payload.toBalanceKey = key then [payload.response] else []
  | .reconcileRow id response => if id = i then [response] else []
  | _ => []

/-- The updates that have been delivered to the row in the history. -/
def delivered (i : ℕ) (key : BalanceKey) (hist : List (State × Action)) :
    List HcmBalanceResponse :=
  hist.flatMap (deliveries i key)

variable {cfg : Config} {s s' s₀ : State} {a : Action} {B B' : Books} {db : Database}
  {now : Instant} {i : ℕ} {b b' : LeaveBalance} {key : BalanceKey} {records : List BatchRecord}
  {r : BatchRecord} {v : ℚ × Option String} {ok : State → Action → Prop}
  {hist : List (State × Action)}

/-- The row `i` is for `key`, and has been told `v`. -/
def Told (t : Balances) (i : ℕ) (key : BalanceKey) (v : ℚ × Option String) : Prop :=
  ∃ b, t.get i = some b ∧ b.toBalanceKey = key ∧ b.told = v

/-! ## Steps that are no syncs -/

/-- What has been told is not changed by a step without a sync. -/
theorem Told.move (hmove : Move False B B') (h : Told B.balances i key v) :
    Told B'.balances i key v := by
  obtain ⟨b, hb, rfl, rfl⟩ := h
  cases hmove with
  | stay hB => exact ⟨b, hB ▸ hb, rfl, rfl⟩
  | submit _ _ _ _ hB =>
    rw [hB, Books.submit, Told]
    simp only [KeyedTable.get_updateKey, hb, Option.map_some]
    exact ⟨_, rfl, by split <;> rfl, by split <;> rfl⟩
  | transition target _ _ hB =>
    rw [hB, Books.transition, Told]
    simp only [get_settle, hb, Option.map_some]
    exact ⟨_, rfl, by split <;> simp, by split <;> cases target <;> rfl⟩
  | stamp _ _ hB => exact ⟨b, by rw [hB]; exact hb, rfl, rfl⟩
  | sync hno _ _ => exact hno.elim

/-! ## Syncs -/

/-- A record tells the row of its key, and no other. -/
theorem told_ingest (h : Told db.balances i key v) :
    Told (db.ingest now r).balances i key
      (if r.toBalanceKey = key then r.response.told else v) := by
  obtain ⟨b, hb, rfl, rfl⟩ := h
  refine ⟨_, get_ingest.2 (.inl ⟨b, hb, rfl⟩), ?_, ?_⟩
  · split <;> rfl
  · by_cases hk : b.toBalanceKey = r.toBalanceKey
    · rw [if_pos hk, if_pos hk.symm]
      rfl
    · rw [if_neg hk, if_neg (Ne.symm hk)]

/-- A batch tells a row what its last record for it says. -/
theorem told_ingestAll (h : Told db.balances i key v) :
    Told (records.foldl (Database.ingest now) db).balances i key
      (((records.filter (·.toBalanceKey = key)).map fun r => r.response.told).getLast?.getD v) := by
  induction records generalizing db v with
  | nil => exact h
  | cons r rs ih =>
    have hfirst : Told (db.ingest now r).balances i key _ := told_ingest h
    have hrest := ih hfirst
    rw [List.foldl_cons, List.filter_cons]
    split
    · next hk =>
      rw [if_pos (of_decide_eq_true hk)] at hrest
      rw [List.map_cons, List.getLast?_cons]
      exact hrest
    · next hk =>
      rwa [if_neg (mt decide_eq_true hk)] at hrest

theorem told_save (hb : db.balances.get i = some b) (u : HcmBalanceResponse) :
    Told (db.saveBalance i (b.merge now u.totalDays u.hcmVersion)).balances i b.toBalanceKey
      u.told :=
  ⟨_, (get_saveBalance hb (b.merge now u.totalDays u.hcmVersion) rfl i).trans (if_pos rfl), rfl,
    rfl⟩

/-- Nor does a save of another row. -/
theorem told_save_of_ne {j : ℕ} {c : LeaveBalance} (hc : db.balances.get j = some c) (hj : i ≠ j)
    (u : HcmBalanceResponse) (h : Told db.balances i key v) :
    Told (db.saveBalance j (c.merge now u.totalDays u.hcmVersion)).balances i key v := by
  obtain ⟨b, hb, hk, hv⟩ := h
  refine ⟨b, ?_, hk, hv⟩
  rw [get_saveBalance hc (c.merge now u.totalDays u.hcmVersion) rfl, if_neg hj, hb]

/-- A batch whose records are all known ingests them one by one. -/
theorem transaction_batch (hknown : ∀ r ∈ records, db.Knows r) :
    transaction (processBatchPayload now records) db =
      records.foldl (Database.ingest now) db := by
  obtain ⟨d, hingest⟩ := syncBatchRecords_run now 0 (s := .start db) hknown
  have hrun : (processBatchPayload now records).run (.start db) = .ok _ _ :=
    bind_eq_ok.2 ⟨_, _, hingest, rfl⟩
  rw [transaction, atomically, hrun]
  rfl

/-- A batch with a record that is not known changes nothing. -/
theorem transaction_batch_of_unknown (hr : r ∈ records) (hunknown : ¬db.Knows r) :
    transaction (processBatchPayload now records) db = db := by
  obtain ⟨e, t, herror⟩ := syncBatchRecords_error now 0 (s := .start db) hr hunknown
  have hrun : (processBatchPayload now records).run (.start db) = .error e t := by
    rw [processBatchPayload, EStateM.run_bind, herror]
  rw [transaction, atomically, hrun]
  rfl

/-- A webhook saves the row of its key, if there is one. -/
theorem transaction_webhook : transaction (processWebhookPayload now r) db =
    (db.balances.lookup r.toBalanceKey).elim db fun p =>
      db.saveBalance p.1 (p.2.merge now r.totalDays r.hcmVersion) := by
  rw [transaction, atomically, processWebhookPayload, run_get_bind]
  cases hl : db.balances.lookup r.toBalanceKey <;>
    simp only [Session.start, hl] <;> rfl

theorem transaction_reconcileRow {id : ℕ} {response : HcmBalanceResponse} :
    transaction (reconcileRow now id response) db = (db.balances.get id).elim db fun b =>
      db.saveBalance id (b.merge now response.totalDays response.hcmVersion) := by
  rw [transaction, atomically, reconcileRow, run_get_bind]
  cases hb : db.balances.get id <;> simp only [Session.start, hb] <;> rfl

/-- What a step tells a row. -/
theorem told_step (hcalls : CallsOk s) (hnext : step cfg s a = some s')
    (h : Told s.db.balances i key v) : Told s'.db.balances i key
      (((deliveries i key (s, a)).map HcmBalanceResponse.told).getLast?.getD v) := by
  have hmove := (step_stepped hnext).move hcalls
  cases a with
  | processBatchPayload records =>
    obtain rfl := Option.some.inj hnext
    rw [State.commit, deliveries]
    dsimp only
    split
    · next hknown =>
      rw [transaction_batch hknown, List.map_map]
      exact told_ingestAll h
    · next hunknown =>
      simp only [not_forall] at hunknown
      obtain ⟨r, hr, hunknown⟩ := hunknown
      rw [transaction_batch_of_unknown hr hunknown]
      exact h
  | processWebhookPayload payload =>
    obtain rfl := Option.some.inj hnext
    obtain ⟨b, hb, rfl, rfl⟩ := h
    rw [State.commit, deliveries, transaction_webhook]
    dsimp only
    split
    · next hk =>
      rw [KeyedTable.lookup_eq_some.2 ⟨hb, hk.symm⟩]
      exact told_save hb payload.response
    · next hk =>
      cases hl : s.db.balances.lookup payload.toBalanceKey with
      | none => exact ⟨b, hb, rfl, rfl⟩
      | some p =>
        -- The payload is for another row, since keys are unique.
        obtain ⟨hc, hk'⟩ := KeyedTable.lookup_eq_some.1 hl
        refine told_save_of_ne hc (fun hi => hk ?_) payload.response ⟨b, hb, rfl, rfl⟩
        rw [← hk', Option.some.inj (hc.symm.trans (hi ▸ hb))]
  | reconcileRow id response =>
    obtain rfl := Option.some.inj hnext
    rw [State.commit, deliveries, transaction_reconcileRow]
    dsimp only
    split
    · next hid =>
      subst hid
      obtain ⟨b, hb, rfl, rfl⟩ := h
      rw [hb]
      exact told_save hb response
    · next hid =>
      cases hc : s.db.balances.get id with
      | none => exact h
      | some c => exact told_save_of_ne hc (Ne.symm hid) response h
  | _ =>
    -- No other step writes the total or the version.
    exact h.move (hmove.unsynced Bool.false_ne_true)

/-- The row is a register that the deliveries write. -/
theorem told_of_run (hcalls : CallsOk s₀) (h : Told s₀.db.balances i key v)
    (hrun : Run (step cfg) ok s₀ hist s) : Told s.db.balances i key
      (((delivered i key hist).map HcmBalanceResponse.told).getLast?.getD v) := by
  -- The row is a register that the deliveries write: the last write is what is read.
  let view (s : State) : Option (ℚ × Option String) :=
    (s.db.balances.get i).map LeaveBalance.told
  let writes (x : State × Action) : List (Option (ℚ × Option String)) :=
    (deliveries i key x).map fun u => some u.told
  have hview : ∀ {s v}, Told s.db.balances i key v → view s = some v := by
    rintro s v ⟨b, hb, _, rfl⟩
    exact congrArg (Option.map _) hb
  have hregister : (CallsOk s ∧ ∃ v, Told s.db.balances i key v) ∧
      view s = ((hist.flatMap writes).getLast?).getD (view s₀) := by
    refine hrun.last_write (I := fun s => CallsOk s ∧ ∃ v, Told s.db.balances i key v)
      ⟨hcalls, v, h⟩ fun s a s' hinv _ hnext => ?_
    obtain ⟨hcalls, v, h⟩ := hinv
    have hstep := told_step hcalls hnext h
    refine ⟨⟨hcalls.step (step_stepped hnext), _, hstep⟩, ?_⟩
    rw [hview hstep, hview h, List.getLast?_map, List.getLast?_map]
    cases (deliveries i key (s, a)).getLast? <;> rfl
  obtain ⟨⟨_, v', hv'⟩, hlast⟩ := hregister
  have hwrites : hist.flatMap writes = (delivered i key hist).map fun u => some u.told :=
    List.map_flatMap.symm
  rw [hview hv', hview h, hwrites, List.getLast?_map] at hlast
  rw [List.getLast?_map]
  cases hdelivered : (delivered i key hist).getLast? with
  | none =>
    rw [hdelivered] at hlast
    rwa [← Option.some.inj hlast]
  | some u =>
    rw [hdelivered, Option.map_some, Option.getD_some] at hlast
    rwa [Option.map_some, Option.getD_some, ← Option.some.inj hlast]

/-- A row ends with the total and the version of the update that has been
    delivered to it last, or with those that it has had at first. Of updates
    with different versions, it is the one whose total and version the row has. -/
theorem last_delivered_wins (db : Database) (hcm : HcmState) (now : Instant)
    (hrun : Run (step cfg) ok (.start db hcm now) hist s) (hb : db.balances.get i = some b) :
    ∃ b', s.db.balances.get i = some b' ∧ b'.toBalanceKey = b.toBalanceKey ∧
      (b'.totalDays, b'.hcmVersion) =
        (delivered i b.toBalanceKey hist).getLast?.elim (b.totalDays, b.hcmVersion)
          (fun u => (u.totalDays, some u.hcmVersion)) ∧
      (((delivered i b.toBalanceKey hist).map HcmBalanceResponse.hcmVersion).Nodup →
        ∀ u ∈ delivered i b.toBalanceKey hist,
          (b'.totalDays = u.totalDays ∧ b'.hcmVersion = some u.hcmVersion) ↔
            (delivered i b.toBalanceKey hist).getLast? = some u) := by
  have hcalls : CallsOk (.start db hcm now) := fun n c hc => nomatch hc
  obtain ⟨b', hb', hk, htold⟩ := told_of_run hcalls ⟨b, hb, rfl, rfl⟩ hrun
  rw [List.getLast?_map] at htold
  refine ⟨b', hb', hk, ?_, fun hnodup u hu => ?_⟩
  · cases hlast : (delivered i b.toBalanceKey hist).getLast? with
    | none => rwa [hlast] at htold
    | some u => rwa [hlast] at htold
  · obtain ⟨w, hlast⟩ : ∃ w, (delivered i b.toBalanceKey hist).getLast? = some w :=
      ⟨_, List.getLast?_eq_some_getLast (List.ne_nil_of_mem hu)⟩
    rw [hlast] at htold ⊢
    obtain ⟨htotal, hversion⟩ := Prod.mk.inj htold
    constructor
    · rintro ⟨_, hu'⟩
      -- The versions tell the updates apart.
      have hw : w ∈ delivered i b.toBalanceKey hist := List.mem_of_getLast? hlast
      have hsame : w.hcmVersion = u.hcmVersion := Option.some.inj (hversion.symm.trans hu')
      rw [List.inj_on_of_nodup_map hnodup hw hu hsame]
    · rintro h
      obtain rfl := Option.some.inj h
      exact ⟨htotal, hversion⟩

/-- The update with the version 2 is there before that with the version 1, and
    is overwritten. -/
def lateUpdates : List Action :=
  [.processWebhookPayload ⟨sampleKey, 12, "2"⟩, .processWebhookPayload ⟨sampleKey, 11, "1"⟩]

/-- In the sample the later delivery has the lower version, and it wins. -/
theorem last_delivered_wins_late : ∃ s b', Run (step sampleConfig) (fun _ _ => True)
      (.start (sampleDb 10) (sampleHcm 10) 0)
      (trace (step sampleConfig) (sampleStart 10) lateUpdates) s ∧
    s.db.balances.get 0 = some b' ∧ (b'.totalDays, b'.hcmVersion) = (11, some "1") := by
  have hexec : ∃ s ∈ exec (step sampleConfig) (sampleStart 10) lateUpdates,
      s.now = 0 := by decide +kernel
  obtain ⟨s, hrun, _⟩ := exists_run_of_exec (p := fun _ => True) (fun _ _ => trivial) hexec
  have hlast : (delivered 0 sampleKey (trace (step sampleConfig) (sampleStart 10)
      lateUpdates)).getLast?.map HcmBalanceResponse.told = some (11, some "1") := by decide +kernel
  obtain ⟨u, hu, htold⟩ := Option.map_eq_some_iff.1 hlast
  obtain ⟨b', hb', _, hends, _⟩ := last_delivered_wins (sampleDb 10) (sampleHcm 10) 0 hrun
    (i := 0) (b := sampleBalance 10) rfl
  have hu' : (delivered 0 (sampleBalance 10).toBalanceKey (trace (step sampleConfig)
    (sampleStart 10) lateUpdates)).getLast? = some u := hu
  rw [hu', Option.elim_some] at hends
  exact ⟨s, b', hrun, hb', hends.trans htold⟩

/-- Whichever of the two comes last. -/
theorem older_update_overwrites : ∃ s ∈ exec (step sampleConfig) (sampleStart 10) lateUpdates,
    (s.db.balances.get 0).map LeaveBalance.told = some (11, some "1") ∧
    ∃ s' ∈ exec (step sampleConfig) (sampleStart 10) lateUpdates.reverse,
      (s'.db.balances.get 0).map LeaveBalance.told = some (12, some "2") := by
  decide +kernel

end TimeOff
