import TimeOff.ExactlyOnce
import TimeOff.Ledger

/-!
# Balances at the HCM

What the HCM has left on a balance is what it was seeded with, less the days of
the live deductions (`Balanced`). Locally, the days used and reserved are those
of the requests, and a submission keeps them within the total. So the HCM can
cover every request that is approved and not cancelled, were it not for the
deductions of cancelled requests: locally their days are released at once, at
the HCM when the reversal gets there.

* `balanced_of_run`: what is left at the HCM, after every run;
* `deduction_covered`: a deduction of a request that is not cancelled is refused
  for lack of days only while deductions of cancelled ones are live;
* `deduction_refused`: one that is refused for this reason.
-/

namespace TimeOff

open Transaction Transition HcmState

/-- The days of the requests on the HCM balance `K` whose status meets `p`. -/
def daysOn (t : Table TimeOffRequest) (p : RequestStatus → Bool) (K : String) : ℚ :=
  t.sum fun _ r => if r.hcmKey = K ∧ p r.status then r.daysRequested else 0

namespace Ends

/-- The HCM holds a deduction for the request. -/
def Live (X : Ends) (id : ℕ) : Prop :=
  ∃ k m d, (k, m) ∈ X.messages .hcmDeduct id ∧ X.deduction k = some d

noncomputable instance (X : Ends) (id : ℕ) : Decidable (X.Live id) := Classical.dec _

/-- The days of the live deductions on the HCM balance `K`, of the requests
    whose status meets `p`. -/
noncomputable def liveDays (X : Ends) (p : RequestStatus → Bool) (K : String) : ℚ :=
  X.requests.sum fun id r => if X.Live id ∧ r.hcmKey = K ∧ p r.status then r.daysRequested else 0

end Ends

/-- Any status. -/
def anyStatus (_ : RequestStatus) : Bool := true

/-- The balances at the HCM are what they were seeded with, less what is live. -/
def Balanced (T : String → Option ℚ) (X : Ends) : Prop :=
  ∀ K, (X.hcm.balances K).map (·.totalDays) = (T K).map (· - X.liveDays anyStatus K)

variable {cfg : Config} {s s' s₀ : State} {a : Action} {id i j k : ℕ} {h : Handler}
  {hist : List (State × Action)} {X X' : Ends} {m : Message} {r : TimeOffRequest} {K : String}
  {T : String → Option ℚ} {p : RequestStatus → Bool} {f : TimeOffRequest → TimeOffRequest}
  {d : DeductionRecord} {b : LeaveBalance} {t : Table TimeOffRequest} {k' : ℕ} {m' : Message}
  {n : String}

/-! ## Live days -/

namespace Ends

theorem liveDays_congr (hrequests : X'.requests = X.requests)
    (hlive : ∀ id, X'.Live id ↔ X.Live id) : X'.liveDays p K = X.liveDays p K := by
  rw [liveDays, hrequests]
  exact Table.sum_congr fun id r _ => if_congr (and_congr_left' (hlive id)) rfl rfl

/-- A message that is new, or done now, makes no difference to what is live. -/
theorem live_post (hk : (X.outbox k = none ∧ X.deduction k = none) ∨ ∃ m₀,
      X.outbox k = some m₀ ∧ m₀.eventType = m.eventType ∧ m₀.requestId = m.requestId) :
    (X.post k m).Live id ↔ X.Live id := by
  constructor
  · rintro ⟨j, n, d, hm, hd⟩
    rcases mem_messages_post.1 hm with ⟨rfl, rfl, htype, hid⟩ | ⟨_, hm⟩
    · rcases hk with ⟨_, hnone⟩ | ⟨m₀, hm₀, htype₀, hid₀⟩
      · exact absurd (hnone.symm.trans hd) nofun
      · exact ⟨j, m₀, d, ⟨hm₀, htype₀.trans htype, hid₀.trans hid⟩, hd⟩
    · exact ⟨j, n, d, hm, hd⟩
  · rintro ⟨j, n, d, hm, hd⟩
    by_cases hj : j = k
    · subst hj
      rcases hk with ⟨hnone, _⟩ | ⟨m₀, hm₀, htype₀, hid₀⟩
      · exact absurd (hnone.symm.trans hm.1) nofun
      · obtain rfl := Option.some.inj (hm.1.symm.trans hm₀)
        exact ⟨j, m, d, mem_messages_post.2
          (.inl ⟨rfl, rfl, htype₀ ▸ hm.2.1, hid₀ ▸ hm.2.2⟩), hd⟩
    · exact ⟨j, n, d, mem_messages_post.2 (.inr ⟨hj, hm⟩), hd⟩

theorem liveDays_post (hk : (X.outbox k = none ∧ X.deduction k = none) ∨ ∃ m₀,
      X.outbox k = some m₀ ∧ m₀.eventType = m.eventType ∧ m₀.requestId = m.requestId) :
    (X.post k m).liveDays p K = X.liveDays p K :=
  liveDays_congr rfl fun _ => live_post hk

theorem liveDays_finish (hm : X.outbox k = some m) :
    (X.finish k m).liveDays p K = X.liveDays p K :=
  liveDays_post (m := m.finish) (.inr ⟨m, hm, rfl, rfl⟩)

/-- Whatever its status, a request has the same days deducted. -/
theorem liveDays_updateRequest (hr : X.requests.get id = some r)
    (hkey : (f r).toBalanceKey = r.toBalanceKey) (hdays : (f r).daysRequested = r.daysRequested) :
    (X.updateRequest id f).liveDays anyStatus K = X.liveDays anyStatus K := by
  refine (Table.sum_update hr).trans ?_
  rw [hkey, hdays]
  exact sub_add_cancel _ _

/-- A request that becomes live. -/
theorem liveDays_of_live (hr : X.requests.get id = some r) (hrequests : X'.requests = X.requests)
    (hnot : ¬X.Live id) (hlive : X'.Live id)
    (hother : ∀ j, j ≠ id → (X'.Live j ↔ X.Live j)) :
    X'.liveDays anyStatus K =
      X.liveDays anyStatus K + if r.hcmKey = K then r.daysRequested else 0 := by
  rw [liveDays, hrequests, liveDays]
  refine (Table.sum_reweigh hr fun j q hj _ =>
    if_congr (and_congr_left' (hother j hj)) rfl rfl).trans ?_
  rw [if_neg fun hc => hnot hc.1, sub_zero]
  congr 1
  exact if_congr ⟨fun hc => hc.2.1, fun hK => ⟨hlive, hK, rfl⟩⟩ rfl rfl

end Ends

/-! ## The exchange keeps the balances -/

/-- What is live for a message is live for its request only. -/
theorem Corresponds.live_iff (hX : Corresponds X) (hm : (k, m) ∈ X.messages .hcmDeduct id) :
    X.Live id ↔ ∃ d, X.deduction k = some d := by
  constructor
  · rintro ⟨j, n, d, hn, hd⟩
    obtain rfl := (Prod.mk.inj (hX.subsingleton_messages id hn hm)).1
    exact ⟨d, hd⟩
  · rintro ⟨d, hd⟩
    exact ⟨k, m, d, hm, hd⟩

theorem Corresponds.not_live (hX : Corresponds X) (hnone : X.requests.get id = none) :
    ¬X.Live id := by
  rintro ⟨k, m, d, hm, _⟩
  rw [hX.messages_eq_empty hnone] at hm
  cases hm

/-- The balances are not touched. -/
theorem Balanced.of_eq (hbal : Balanced T X) (hhcm : X'.hcm.balances = X.hcm.balances)
    (hdays : ∀ K, X'.liveDays anyStatus K = X.liveDays anyStatus K) : Balanced T X' := by
  intro K
  rw [hhcm, hdays]
  exact hbal K

/-- A change of one request, with a message that is posted. -/
theorem Balanced.post (hbal : Balanced T X) (hX : Corresponds X)
    (hr : X.requests.get id = some r) (hf : r.Before (f r)) (hk : X.outbox k = none) :
    Balanced T ((X.updateRequest id f).post k m) := by
  -- What is live has been asked for, and nothing has by this id.
  have hnone : (X.updateRequest id f).deduction k = none := by
    rw [Option.eq_none_iff_forall_ne_some]
    intro d hd
    obtain ⟨j, n, hn, _, hkey⟩ := hX.asked _ d hd
    obtain rfl := idempotencyKey_injective hkey
    exact absurd (hk.symm.trans hn) nofun
  refine hbal.of_eq rfl fun K => ?_
  rw [Ends.liveDays_post (X := X.updateRequest id f) (.inl ⟨hk, hnone⟩),
    Ends.liveDays_updateRequest hr hf.key hf.days]

/-- The HCM takes the days of the request from its balance. -/
theorem Balanced.deduct (hbal : Balanced T X) (hX : Corresponds X)
    (hm : (k, m) ∈ X.messages .hcmDeduct id) (hopen : m.done = false) {q : DeductPayload}
    (hq : m.payload = some q) (hnone : X.deduction k = none) {balance : BalanceRecord}
    (hb : X.hcm.balances q.hcmKey = some balance) (now : Instant) :
    Balanced T (X.deduct k q balance now) := by
  obtain ⟨r, hr⟩ := hX.owned k m hm.1
  rw [hm.2.2] at hr
  obtain ⟨_, hpayload, _⟩ := (hX.stage id r hr).of_open hm hopen
  obtain rfl := Option.some.inj (hq.symm.trans hpayload)
  have hdeductions : (X.deduct k r.deductPayload balance now).hcm.deductions =
      Function.update X.hcm.deductions (idempotencyKey k) (some { r.deductPayload with
        hcmRequestId := X.hcm.nextRequestId now }) :=
    deductions_deduct _ (idempotencyKey_ne_empty k)
  -- The request becomes live, and no other one does.
  have hdays : ∀ K, (X.deduct k r.deductPayload balance now).liveDays anyStatus K =
      X.liveDays anyStatus K + if r.hcmKey = K then r.daysRequested else 0 := by
    intro K
    refine Ends.liveDays_of_live hr rfl (fun hlive => ?_) ⟨k, m, _, hm,
      (congrFun hdeductions _).trans (Function.update_self ..)⟩ fun j hj => ?_
    · obtain ⟨d, hd⟩ := (hX.live_iff hm).1 hlive
      exact absurd (hnone.symm.trans hd) nofun
    · refine exists_congr fun i => exists_congr fun n => exists_congr fun d =>
        and_congr_right fun hn => ?_
      rw [Ends.deduction, hdeductions, Function.update_of_ne, Ends.deduction]
      intro hi
      obtain rfl := idempotencyKey_injective hi
      exact hj (Ends.messages_inj hn hm).2.2
  intro K
  have hK := hbal K
  rw [hdays, Ends.deduct, balances_deduct, Function.update_apply]
  change (if K = r.hcmKey then _ else _ : Option BalanceRecord).map _ = _
  by_cases hkey : r.hcmKey = K
  · subst hkey
    change X.hcm.balances r.hcmKey = some balance at hb
    rw [hb] at hK
    rw [if_pos rfl, if_pos rfl, Option.map_some]
    obtain ⟨total, hT, htotal⟩ := Option.map_eq_some_iff.1 hK.symm
    rw [hT, Option.map_some]
    congr 1
    rw [← sub_sub, htotal]
    rfl
  · rw [if_neg (Ne.symm hkey), if_neg hkey, add_zero]
    exact hK

/-- The HCM gives the days of the request back. -/
theorem Balanced.reverse (hbal : Balanced T X) (hX : Corresponds X)
    (hm : (k', m') ∈ X.messages .hcmReverse id) (hr : X.requests.get id = some r)
    (hid : r.hcmRequestId = some n) {hcm : HcmState}
    (hreversed : X.hcm.reverseDeduction n = .ok hcm) : Balanced T { X with hcm := hcm } := by
  obtain ⟨q, d, balance, hd, hdid, hb, rfl⟩ := hX.hcm.reverseDeduction_ok hreversed
  -- The deduction that is reversed is that of the request, by its id.
  obtain ⟨k, m, hdeduct, _, _, _, ⟨_, d', hd', hpays, hdid'⟩ | ⟨_, hgone⟩⟩ :=
    (hX.stage id r hr).of_reversal hm hid
  swap
  · rw [← hdid, hX.hcm.indexed q d hd] at hgone
    cases hgone
  obtain rfl : q = idempotencyKey k := hX.hcm.key_unique hd hd' (hdid.trans hdid'.symm)
  obtain rfl := Option.some.inj (hd.symm.trans hd')
  have hmem := Stage.mem_messages hdeduct
  have hdays : ∀ K, X.liveDays anyStatus K = Ends.liveDays { X with
      hcm := (X.hcm.restore d balance).forget (idempotencyKey k) n } anyStatus K +
        if r.hcmKey = K then r.daysRequested else 0 := by
    intro K
    refine Ends.liveDays_of_live hr rfl (fun hlive => ?_) ⟨k, m, d, hmem, hd⟩ fun j hj => ?_
    · obtain ⟨i, n', c, hn, hc⟩ := hlive
      obtain rfl := (Prod.mk.inj (hX.subsingleton_messages id hn hmem)).1
      rw [Ends.deduction, deductions_reversed, Function.update_self] at hc
      cases hc
    · refine exists_congr fun i => exists_congr fun n' => exists_congr fun c =>
        and_congr_right fun hn => ?_
      rw [Ends.deduction, Ends.deduction, deductions_reversed, Function.update_of_ne]
      intro hi
      obtain rfl := idempotencyKey_injective hi
      exact hj (Ends.messages_inj hn hmem).2.2
  have hkey : d.hcmKey = r.hcmKey := congrArg BalanceKey.hcmKey hpays.key
  intro K
  have hK := hbal K
  rw [hdays] at hK
  rw [balances_reversed, Function.update_apply, hkey]
  by_cases hK' : r.hcmKey = K
  · subst hK'
    rw [← hkey, hb, hkey] at hK
    rw [if_pos rfl, Option.map_some]
    obtain ⟨total, hT, htotal⟩ := Option.map_eq_some_iff.1 hK.symm
    rw [if_pos rfl] at htotal
    rw [hT, Option.map_some]
    congr 1
    change total - _ = balance.totalDays at htotal
    change balance.totalDays + d.days = _
    rw [← htotal, hpays.days, ← sub_sub, sub_add_cancel]
  · rw [if_neg hK', add_zero] at hK
    rw [if_neg (Ne.symm hK')]
    exact hK

/-- Every step of the exchange keeps the balances of the HCM. -/
theorem Balanced.exchange (hbal : Balanced T X) (hX : Corresponds X) (hstep : Exchange X X') :
    Balanced T X' := by
  have hfinish : ∀ {id k m r} {f : TimeOffRequest → TimeOffRequest},
      (k, m) ∈ X.messages .hcmDeduct id → X.requests.get id = some r → r.Before (f r) →
      Balanced T ((X.updateRequest id f).finish k m) := by
    intro id k m r f hm hr hf
    refine hbal.of_eq rfl fun K => ?_
    rw [Ends.liveDays_finish (X := X.updateRequest id f) hm.1,
      Ends.liveDays_updateRequest hr hf.key hf.days]
  cases hstep with
  | stay hX' => exact hX' ▸ hbal
  | submit hX' =>
    subst hX'
    refine hbal.of_eq rfl fun K => Table.sum_insert.trans ?_
    -- There is no message for a request that has not been there.
    have hnot : ¬X.Live X.requests.nextId := hX.not_live Table.get_nextId
    rw [if_neg fun hc => hnot hc.1, add_zero]
    rfl
  | settle hr _ _ _ hX' | fail hr _ hX' =>
    subst hX'
    exact hbal.of_eq rfl fun K => Ends.liveDays_updateRequest hr rfl rfl
  | approve hr _ _ hk hX' => exact hX' ▸ hbal.post hX hr (.move _ _ _) hk
  | cancel hr _ hk hX' => exact hX' ▸ hbal.post hX hr (.move _ _ _) hk
  | deduct hm hopen hp hnone hb hX' => exact hX' ▸ hbal.deduct hX hm hopen hp hnone hb _
  | confirm hm _ _ hr _ hX' => exact hX' ▸ hfinish hm hr (.move _ _ _)
  | stamp hm _ _ hr _ hX' => exact hX' ▸ hfinish hm hr (.stamp _ _)
  | reverse hm hr hid hreversed hX' => exact hX' ▸ hbal.reverse hX hm hr hid hreversed
  | finish hm _ _ _ hX' =>
    exact hX' ▸ hbal.of_eq rfl fun K => Ends.liveDays_finish hm.1

/-! ## Runs -/

/-- What the balances at the HCM were seeded with. -/
def State.seeds (s : State) (K : String) : Option ℚ := (s.hcm.balances K).map (·.totalDays)

/-- In every regular run the balances at the HCM are what they were seeded with,
    less what is live. -/
theorem balanced_of_run (hs₀ : Opening s₀) (hrun : Run (step cfg) Regular s₀ hist s) :
    Balanced s₀.seeds s.ends := by
  refine hrun.history (I := fun _ s => Balanced s₀.seeds s.ends) (fun K => ?_) ?_
  · have hzero : s₀.ends.liveDays anyStatus K = 0 := Table.sum_eq_zero fun id r hr =>
      absurd ((hs₀.requests id).symm.trans hr) nofun
    rw [hzero]
    change s₀.seeds K = _
    cases s₀.seeds K with
    | none => rfl
    | some total => rw [Option.map_some, sub_zero]
  · intro hist s a s' hrun hbal hok hnext
    have hX := exchanging_of_run hs₀ hrun
    exact hbal.exchange hX.corresponds ((step_stepped hnext).exchange hX
      (held_of_regular hs₀ hrun) (callsOk_of_run hs₀.calls hrun) hok)

/-! ## What the requests ask of the HCM -/

/-- A manager has approved the request, and it has not been cancelled since. -/
def RequestStatus.isSent : RequestStatus → Bool
  | .approvedPendingHcm | .approved | .failed => true
  | .pending | .rejected | .cancelled => false

/-- What is live for a request that is not cancelled has been asked for by its
    approval. -/
theorem Corresponds.isSent_of_live (hX : Corresponds X) (hr : X.requests.get id = some r)
    (hlive : X.Live id) (hne : r.status ≠ .cancelled) : r.status.isSent := by
  obtain ⟨k, m, d, hm, hd⟩ := hlive
  cases hX.stage id r hr with
  | unsent hdeduct _ _ _ =>
    rw [hdeduct] at hm
    cases hm
  | sent _ _ _ _ _ hstatus _ => rcases hstatus with hstatus | hstatus <;> rw [hstatus] <;> rfl
  | confirmed _ _ _ hstatus _ _ _ => rw [hstatus]; rfl
  | cancelled _ _ _ _ _ _ hstatus _ | reversing _ _ _ _ hstatus _ _ _
  | reversed _ _ _ hstatus _ _ _ => exact absurd hstatus hne

/-- What is live is so for cancelled requests or for others. -/
theorem Ends.liveDays_split : X.liveDays anyStatus K =
    X.liveDays (· = .cancelled) K + X.liveDays (· ≠ .cancelled) K := by
  rw [liveDays, liveDays, liveDays, ← Table.sum_add]
  refine Table.sum_congr fun id r _ => ?_
  by_cases hc : X.Live id ∧ r.hcmKey = K
  · by_cases hstatus : r.status = .cancelled <;> simp [hc, hstatus, anyStatus]
  · rw [if_neg fun h => hc ⟨h.1, h.2.1⟩, if_neg fun h => hc ⟨h.1, h.2.1⟩,
      if_neg fun h => hc ⟨h.1, h.2.1⟩, add_zero]

/-- What is live, and a request that is not live yet, is asked for by requests
    that have been sent. -/
theorem Corresponds.liveDays_add_le (hX : Corresponds X)
    (hpos : ∀ id r, X.requests.get id = some r → 0 < r.daysRequested)
    (hr : X.requests.get id = some r) (hsent : r.status.isSent) (hnot : ¬X.Live id) :
    X.liveDays (· ≠ .cancelled) r.hcmKey + r.daysRequested ≤
      daysOn X.requests RequestStatus.isSent r.hcmKey := by
  let rest : ℕ → TimeOffRequest → ℚ := fun j q =>
    if (q.hcmKey = r.hcmKey ∧ q.status.isSent) ∧ ¬X.Live j then q.daysRequested else 0
  -- The days of the requests that have been sent: those of the live ones, and the rest, of
  -- which this request is one.
  have hsum : daysOn X.requests RequestStatus.isSent r.hcmKey =
      X.liveDays (· ≠ .cancelled) r.hcmKey + X.requests.sum rest := by
    rw [daysOn, Ends.liveDays, ← Table.sum_add]
    refine Table.sum_congr fun j q hq => ?_
    by_cases hlive : X.Live j
    · have hiff : q.status.isSent ↔ q.status ≠ .cancelled := by
        refine ⟨fun hs hc => ?_, hX.isSent_of_live hq hlive⟩
        rw [hc] at hs
        cases hs
      simp [rest, hlive, hiff]
    · simp [rest, hlive]
  have hle : rest id r ≤ X.requests.sum rest := by
    refine Table.le_sum (M := ℚ) (fun j q hq => ?_) hr
    change 0 ≤ ite _ _ _
    split
    · exact (hpos j q hq).le
    · exact le_rfl
  have hrest : rest id r = r.daysRequested := if_pos ⟨⟨rfl, hsent⟩, hnot⟩
  rw [hsum, ← hrest]
  exact add_le_add_right hle _

/-- The requests that have been sent are open or approved. -/
theorem daysOn_le {key : BalanceKey} (hpos : ∀ id r, t.get id = some r → 0 < r.daysRequested)
    (hkey : ∀ id r, t.get id = some r → r.hcmKey = K → r.toBalanceKey = key) :
    daysOn t RequestStatus.isSent K ≤
      daysIn t RequestStatus.isOpen key + daysIn t (· = .approved) key := by
  rw [daysOn, daysIn, daysIn, ← Table.sum_add]
  refine Table.sum_le_sum fun id r hr => ?_
  have hdays := (hpos id r hr).le
  by_cases hK : r.hcmKey = K
  · rw [if_congr (and_iff_right hK) rfl rfl, hkey id r hr hK]
    cases r.status <;> simp [RequestStatus.isSent, RequestStatus.isOpen, hdays]
  · rw [if_neg fun hc => hK hc.1]
    refine add_nonneg ?_ ?_ <;> split <;> first | exact hdays | exact le_rfl

/-! ## Runs without a sync -/

/-- The days used and reserved are within the total. -/
def Funded (B : Books) : Prop :=
  ∀ i b, B.balances.get i = some b → 0 < b.usedDays + b.reservedDays →
    b.usedDays + b.reservedDays ≤ b.totalDays

/-- The balances have the keys and the totals that they had at first. -/
def TotalsKept (B₀ B : Books) : Prop :=
  ∀ i b, B.balances.get i = some b → ∃ b₀, B₀.balances.get i = some b₀ ∧
    b₀.toBalanceKey = b.toBalanceKey ∧ b₀.totalDays = b.totalDays

variable {u₀ : BalanceKey → ℚ} {B B₀ B' : Books}

theorem LeaveBalance.totalDays_settle (target : RequestStatus) (days : ℚ) (b : LeaveBalance) :
    (b.settle target days).totalDays = b.totalDays := by
  cases target <;> rfl

/-- Without syncs, no move changes a key or a total. -/
theorem TotalsKept.move (hkept : TotalsKept B₀ B) (hmove : Move False B B') :
    TotalsKept B₀ B' := by
  intro i b' hb'
  have hmap : ∃ b, B.balances.get i = some b ∧ b'.toBalanceKey = b.toBalanceKey ∧
      b'.totalDays = b.totalDays := by
    cases hmove with
    | stay hB => exact ⟨b', hB ▸ hb', rfl, rfl⟩
    | submit _ _ _ _ hB =>
      rw [hB, Books.submit, KeyedTable.get_updateKey, Option.map_eq_some_iff] at hb'
      obtain ⟨b, hb, rfl⟩ := hb'
      exact ⟨b, hb, by split <;> rfl, by split <;> rfl⟩
    | transition target _ _ hB =>
      rw [hB, Books.transition, get_settle, Option.map_eq_some_iff] at hb'
      obtain ⟨b, hb, rfl⟩ := hb'
      exact ⟨b, hb, by split <;> simp, by split <;> simp [LeaveBalance.totalDays_settle]⟩
    | stamp _ _ hB =>
      rw [hB] at hb'
      exact ⟨b', hb', rfl, rfl⟩
    | sync hno _ _ => exact hno.elim
  obtain ⟨b, hb, hkey, htotal⟩ := hmap
  obtain ⟨b₀, hb₀, hkey₀, htotal₀⟩ := hkept i b hb
  exact ⟨b₀, hb₀, hkey₀.trans hkey.symm, htotal₀.trans htotal.symm⟩

/-- A submission is guarded, and the days of a request are never used before
    they are released. -/
theorem Funded.move (hfunded : Funded B) (hledger : Ledger u₀ B) (hmove : Move False B B') :
    Funded B' := by
  intro i b' hb' hpos
  cases hmove with
  | stay hB => exact hfunded i b' (hB ▸ hb') hpos
  | @submit dto days j c hdays hc hk havail hB =>
    rw [hB, Books.submit, KeyedTable.get_updateKey, Option.map_eq_some_iff] at hb'
    obtain ⟨b, hb, rfl⟩ := hb'
    split at hpos
    · next hkey =>
      -- The guard of the submission has looked at this row.
      obtain rfl := B.balances.unique hb hc (hkey.trans hk.symm)
      obtain rfl := Option.some.inj (hb.symm.trans hc)
      rw [if_pos hkey]
      simp only [LeaveBalance.reserve, id_eq]
      linarith
    · next hkey =>
      rw [if_neg hkey]
      exact hfunded i b hb hpos
  | @transition id r target x hr hcan hB =>
    rw [hB, Books.transition, get_settle, Option.map_eq_some_iff] at hb'
    obtain ⟨b, hb, rfl⟩ := hb'
    split at hpos
    · next hkey =>
      -- The days are moved from reserved to used, or released.
      have hopen := isOpen_of_canTransition hcan
      have hle := hledger.le_reservedDays hr hopen hb hkey
      have hdays := hledger.positive id r hr
      have hsettled : (b.settle target r.daysRequested).usedDays +
          (b.settle target r.daysRequested).reservedDays ≤ b.usedDays + b.reservedDays := by
        rw [LeaveBalance.reservedDays_settle hle, LeaveBalance.usedDays_settle]
        cases target <;> simp [RequestStatus.isOpen] <;> linarith
      rw [if_pos hkey, LeaveBalance.totalDays_settle]
      exact hsettled.trans (hfunded i b hb (hpos.trans_le hsettled))
    · next hkey =>
      rw [if_neg hkey]
      exact hfunded i b hb hpos
  | stamp _ _ hB =>
    rw [hB] at hb'
    exact hfunded i b' hb' hpos
  | sync hno _ _ => exact hno.elim

/-- The step is a regular one, and no sync. -/
def Unsynced (_ : State) (a : Action) : Prop := a.isRegular ∧ a.isSync = false

theorem Unsynced.regular (hrun : Run (step cfg) Unsynced s₀ hist s) :
    Run (step cfg) Regular s₀ hist s :=
  hrun.mono fun _ _ hok => hok.1

/-- The balances agree with the HCM, and nothing has been taken from them. -/
structure Agreed (s : State) : Prop where
  used : ∀ i b, s.db.balances.get i = some b → b.usedDays = 0
  reserved : ∀ i b, s.db.balances.get i = some b → b.reservedDays = 0
  total : ∀ i b, s.db.balances.get i = some b → s.seeds b.hcmKey = some b.totalDays

/-- What has been used at first is nothing. -/
theorem Agreed.ledger (hagreed : Agreed s₀) (hs₀ : Opening s₀) :
    Ledger (fun _ => 0) s₀.db.books := by
  have hledger := Ledger.start hs₀.requests hagreed.reserved
  refine ⟨hledger.reserved, fun i b hb => ?_, hledger.positive, hledger.covered, fun _ _ => rfl⟩
  have hnone : daysIn s₀.db.books.requests (· = .approved) b.toBalanceKey = 0 :=
    daysIn_eq_zero fun id r hr => absurd ((hs₀.requests id).symm.trans hr) nofun
  rw [hagreed.used i b hb, hnone, add_zero]

/-- So both go through runs without syncs. -/
theorem funded_of_run (hs₀ : Opening s₀) (hagreed : Agreed s₀)
    (hrun : Run (step cfg) Unsynced s₀ hist s) :
    TotalsKept s₀.db.books s.db.books ∧ Funded s.db.books := by
  refine hrun.history (I := fun _ s => TotalsKept s₀.db.books s.db.books ∧ Funded s.db.books)
    ⟨fun i b hb => ⟨b, hb, rfl, rfl⟩, fun i b hb hpos => ?_⟩ ?_
  · rw [hagreed.used i b hb, hagreed.reserved i b hb, add_zero] at hpos
    exact absurd hpos (lt_irrefl 0)
  · intro hist s a s' hrun hok hok' hnext
    have hmove := (move_of_run hs₀.calls hrun hnext).unsynced (by rw [hok'.2]; nofun)
    have hledger := Ledger.of_run hs₀.calls (hagreed.ledger hs₀) hrun
    exact ⟨hok.1.move hmove, hok.2.move hledger hmove⟩

/-- The total of a balance is what the HCM was seeded with for it. -/
theorem seeds_of_run (hs₀ : Opening s₀) (hagreed : Agreed s₀)
    (hrun : Run (step cfg) Unsynced s₀ hist s) (hb : s.db.balances.get i = some b) :
    s₀.seeds b.hcmKey = some b.totalDays := by
  obtain ⟨b₀, hb₀, hkey₀, htotal₀⟩ := (funded_of_run hs₀ hagreed hrun).1 i b hb
  rw [← hkey₀, ← htotal₀]
  exact hagreed.total i b₀ hb₀

/-- So the HCM has the total of a balance left, less what is live. -/
theorem record_of_run (hs₀ : Opening s₀) (hagreed : Agreed s₀)
    (hrun : Run (step cfg) Unsynced s₀ hist s) (hb : s.db.balances.get i = some b) :
    ∃ record, s.hcm.balances b.hcmKey = some record ∧
      record.totalDays = b.totalDays - s.ends.liveDays anyStatus b.hcmKey := by
  have hbal := balanced_of_run hs₀ (Unsynced.regular hrun) b.hcmKey
  rw [seeds_of_run hs₀ hagreed hrun hb, Option.map_some] at hbal
  exact Option.map_eq_some_iff.1 hbal

/-- If the balances have keys of their own at the HCM, so have the requests. -/
theorem key_of_hcmKey {B : Books} (hledger : Ledger u₀ B) (hkept : TotalsKept B₀ B)
    (hdistinct : ∀ i j b b', B₀.balances.get i = some b → B₀.balances.get j = some b' →
      b.hcmKey = b'.hcmKey → i = j)
    (hb : B.balances.get i = some b) (hr : B.requests.get id = some r)
    (hK : r.hcmKey = b.hcmKey) : r.toBalanceKey = b.toBalanceKey := by
  obtain ⟨j, b', hb', hbk'⟩ := hledger.covered id r hr
  obtain ⟨b₀, hb₀, hkey₀, _⟩ := hkept i b hb
  obtain ⟨b₀', hb₀', hkey₀', _⟩ := hkept j b' hb'
  obtain rfl : i = j := hdistinct i j b₀ b₀' hb₀ hb₀' (by rw [hkey₀, hkey₀', hbk', hK])
  obtain rfl := Option.some.inj (hb.symm.trans hb')
  exact hbk'.symm

/-- What is live and a request that is sent next are within the days used and
    reserved of the row, up to what is live for cancelled requests. -/
theorem Corresponds.liveDays_add_le_counters (hX : Corresponds s.ends)
    (hledger : Ledger (fun _ => 0) s.db.books) (hb : s.db.balances.get i = some b)
    (hkey : ∀ id q, s.db.requests.get id = some q → q.hcmKey = b.hcmKey →
      q.toBalanceKey = b.toBalanceKey)
    (hr : s.db.requests.get id = some r) (hK : r.hcmKey = b.hcmKey) (hsent : r.status.isSent)
    (hnot : ¬s.ends.Live id) :
    s.ends.liveDays (· ≠ .cancelled) b.hcmKey + r.daysRequested ≤
      b.usedDays + b.reservedDays := by
  have hused : b.usedDays = daysIn s.db.requests (· = .approved) b.toBalanceKey := by
    rw [hledger.used i b hb, zero_add]
    rfl
  have hreserved : b.reservedDays = daysIn s.db.requests RequestStatus.isOpen b.toBalanceKey :=
    hledger.reserved i b hb
  rw [hused, hreserved, add_comm (daysIn _ _ _), ← hK]
  exact (hX.liveDays_add_le hledger.positive hr hsent hnot).trans
    (daysOn_le hledger.positive fun id q hq hqK => hkey id q hq (hqK.trans hK))

/-! ## First sends -/

/-- A deduction appears at the HCM when its event is sent. -/
theorem Stepped.deduction (hstep : Stepped cfg s a s')
    (hd : s'.ends.deduction k = some d) :
    (∃ d, s.ends.deduction k = some d) ∨ sends k (s, a) := by
  cases hstep with
  | @handle i o t h db hcm p ht hh hstep =>
    have hhandler : s.handler i = some h := handler_eq_some.2 ⟨t, ht, hh⟩
    change hcm.deductions (idempotencyKey k) = some d at hd
    cases Handler.step_handled hstep with
    | deducted _ hphase _ hdeduct =>
      rcases deductBalance_ok (idempotencyKey_ne_empty h.id) hdeduct with
        ⟨_, _, _, rfl⟩ | ⟨_, _, _, _, _, rfl⟩
      · exact .inl ⟨d, hd⟩
      · rw [deductions_deduct _ (idempotencyKey_ne_empty h.id), PartialMap.set_eq_some] at hd
        rcases hd with ⟨hk, _⟩ | ⟨_, hd⟩
        · refine .inr ?_
          simp [sends, hhandler, hphase, idempotencyKey_injective hk]
        · exact .inl ⟨d, hd⟩
    | reversed _ _ hr =>
      obtain ⟨q, _, ⟨_, rfl⟩ | ⟨c, balance, _, _, rfl⟩⟩ := HcmState.reverseDeduction_ok hr
      all_goals
        change Function.update s.hcm.deductions q none (idempotencyKey k) = some d at hd
        exact .inl ⟨d, (PartialMap.unset_eq_some.1 hd).2⟩
    | _ => exact .inl ⟨d, hd⟩
  | _ => exact .inl ⟨d, hd⟩

/-- What is live has been sent. -/
theorem sent_of_live (hs₀ : Opening s₀) {ok : State → Action → Prop}
    (hrun : Run (step cfg) ok s₀ hist s) :
    ∀ k d, s.ends.deduction k = some d → ∃ x ∈ hist, sends k x := by
  refine hrun.history (I := fun hist s => ∀ k d, s.ends.deduction k = some d →
    ∃ x ∈ hist, sends k x) (fun k d hd => absurd ((hs₀.deductions _).symm.trans hd) nofun) ?_
  intro hist s a s' _ hsent _ hnext k d hd
  rcases (step_stepped hnext).deduction hd with ⟨d, hd⟩ | hsends
  · obtain ⟨x, hx, hsends⟩ := hsent k d hd
    exact ⟨x, List.mem_append_left _ hx, hsends⟩
  · exact ⟨_, List.mem_append_right _ (List.mem_singleton_self _), hsends⟩

/-- What is sent for the first time is not live. -/
theorem deduction_eq_none (hs₀ : Opening s₀) {ok : State → Action → Prop}
    (hrun : Run (step cfg) ok s₀ hist s) (hfirst : ∀ x ∈ hist, ¬sends k x) :
    s.ends.deduction k = none := by
  rw [Option.eq_none_iff_forall_ne_some]
  intro d hd
  obtain ⟨x, hx, hsends⟩ := sent_of_live hs₀ hrun k d hd
  exact hfirst x hx hsends

/-- The event of a handler that is about to send a deduction. -/
theorem Exchanging.mem_messages_of_sending (hX : Exchanging s) (hon : h.On s.db e)
    (hh : s.handler i = some h) (hphase : h.phase = .deductBalance) :
    (h.id, e.message) ∈ s.ends.messages .hcmDeduct h.event.requestId := by
  have hknows := hX.knows i h hh
  rw [Handler.Knows, hphase] at hknows
  exact hon.mem hknows

/-- The request of a deduction that is sent for the first time is not live. -/
theorem not_live_of_first (hs₀ : Opening s₀) (hrun : Run (step cfg) Regular s₀ hist s)
    (hh : s.handler i = some h) (hphase : h.phase = .deductBalance)
    (hfirst : ∀ x ∈ hist, ¬sends h.id x) : ¬s.ends.Live h.event.requestId := by
  have hX := exchanging_of_run hs₀ hrun
  obtain ⟨e, hon⟩ := (held_of_regular hs₀ hrun).on (hX.copied i h hh) hh
  rw [hX.corresponds.live_iff (hX.mem_messages_of_sending hon hh hphase)]
  rintro ⟨d, hd⟩
  cases (deduction_eq_none hs₀ hrun hfirst).symm.trans hd

/-- The days that the HCM still has deducted on the balance `K` for requests
    that have been cancelled. -/
noncomputable def State.cancelledDays (s : State) (K : String) : ℚ :=
  s.ends.liveDays (· = .cancelled) K

theorem cancelledDays_eq_zero (hcancelled : ∀ id r, s.db.requests.get id = some r →
    r.status = .cancelled → ¬s.ends.Live id) : s.cancelledDays K = 0 :=
  Table.sum_eq_zero fun id r hr => if_neg fun ⟨hlive, _, hstatus⟩ =>
    hcancelled id r hr (of_decide_eq_true hstatus) hlive

/-- In runs without syncs, what the HCM has left covers a request that has been
    sent and is not live, up to what is live for cancelled requests. -/
theorem covered_of_sent (hs₀ : Opening s₀) (hagreed : Agreed s₀)
    (hdistinct : ∀ i j b b', s₀.db.balances.get i = some b → s₀.db.balances.get j = some b' →
      b.hcmKey = b'.hcmKey → i = j)
    (hrun : Run (step cfg) Unsynced s₀ hist s) (hr : s.db.requests.get id = some r)
    (hsent : r.status.isSent) (hnot : ¬s.ends.Live id) :
    ∃ record, s.hcm.balances r.hcmKey = some record ∧
      r.daysRequested ≤ record.totalDays + s.cancelledDays r.hcmKey := by
  have hregular := Unsynced.regular hrun
  have hX := (exchanging_of_run hs₀ hregular).corresponds
  have hledger := Ledger.of_run hs₀.calls (hagreed.ledger hs₀) hrun
  obtain ⟨hkept, hfunded⟩ := funded_of_run hs₀ hagreed hrun
  obtain ⟨i, b, hb, hbk⟩ := hledger.covered id r hr
  have hK : r.hcmKey = b.hcmKey := congrArg BalanceKey.hcmKey hbk.symm
  have hcount := hX.liveDays_add_le_counters hledger hb
    (fun id q hq hqK => key_of_hcmKey hledger hkept hdistinct hb hq hqK) hr hK hsent hnot
  have hlive : 0 ≤ s.ends.liveDays (· ≠ .cancelled) b.hcmKey :=
    Table.sum_nonneg fun id q hq => by
      split
      · exact (hledger.positive id q hq).le
      · exact le_rfl
  have hdays := hledger.positive id r hr
  have hle := hfunded i b hb (by linarith)
  -- The HCM has what the row started with, less what is live.
  obtain ⟨record, hrecord, htotal⟩ := record_of_run hs₀ hagreed hrun hb
  rw [Ends.liveDays_split] at htotal
  rw [hK]
  refine ⟨record, hrecord, ?_⟩
  rw [htotal, State.cancelledDays]
  linarith

/-- **The HCM can cover what is approved.** Without syncs, when a deduction is
    sent for the first time and its request has not been cancelled, the HCM has
    its days left, up to those that it has deducted for cancelled requests, if
    no two balances share a key there. So it has no reason to refuse, unless
    such a deduction has yet to be reversed. -/
theorem deduction_covered (hs₀ : Opening s₀) (hagreed : Agreed s₀)
    (hdistinct : ∀ i j b b', s₀.db.balances.get i = some b → s₀.db.balances.get j = some b' →
      b.hcmKey = b'.hcmKey → i = j)
    (hrun : Run (step cfg) Unsynced s₀ hist s) (hh : s.handler i = some h)
    (hphase : h.phase = .deductBalance) (hfirst : ∀ x ∈ hist, ¬sends h.id x) :
    ∃ r, s.db.requests.get h.event.requestId = some r ∧
      h.event.payload = some r.deductPayload ∧ (r.status ≠ .cancelled →
        (∃ record, s.hcm.balances r.hcmKey = some record ∧
          r.daysRequested ≤ record.totalDays + s.cancelledDays r.hcmKey) ∧
        (s.cancelledDays r.hcmKey = 0 → ∀ message,
          s.hcm.deductBalance r.toBalanceKey r.daysRequested (some (idempotencyKey h.id)) s.now ≠
            .error (.unprocessable message))) := by
  have hregular := Unsynced.regular hrun
  have hX := exchanging_of_run hs₀ hregular
  have hnone := deduction_eq_none hs₀ hrun hfirst
  -- The request of the handler is there, and has been sent if it is not cancelled.
  obtain ⟨e, hon⟩ := (held_of_regular hs₀ hregular).on (hX.copied i h hh) hh
  have hmem := hX.mem_messages_of_sending hon hh hphase
  obtain ⟨r, hr⟩ := hX.corresponds.owned h.id e.message hmem.1
  rw [hmem.2.2] at hr
  obtain ⟨_, hpayload, _, _, hstatus⟩ := (hX.corresponds.stage _ r hr).of_open hmem hon.open
  refine ⟨r, hr, hon.payload ▸ hpayload, fun hne => ?_⟩
  have hsent : r.status.isSent := by
    rcases hstatus with ⟨_, hs | hs⟩ | ⟨hs, _⟩
    · rw [hs]; rfl
    · rw [hs]; rfl
    · exact absurd hs hne
  have hnot := not_live_of_first hs₀ hregular hh hphase hfirst
  obtain ⟨record, hrecord, hcovered⟩ := covered_of_sent hs₀ hagreed hdistinct hrun hr hsent hnot
  refine ⟨⟨record, hrecord, hcovered⟩, fun hzero message hrefused => ?_⟩
  have hlt := (deductBalance_refused_iff (idempotencyKey_ne_empty h.id) hnone hrecord).1
    ⟨message, hrefused⟩
  rw [hzero, add_zero] at hcovered
  exact absurd hcovered (not_le.2 hlt)

/-- The balance of the sample agrees with the HCM. -/
theorem agreed_sample (totalDays : ℚ) : Agreed (sampleStart totalDays) := by
  refine ⟨fun i b hb => ?_, fun i b hb => ?_, fun i b hb => ?_⟩ <;>
    obtain ⟨_, rfl⟩ := get_sampleDb hb
  · rfl
  · rfl
  · exact congrArg (Option.map _) (balances_sampleHcm totalDays)

/-- The handler `i` is about to send the event `k`. -/
def sendsFirst (i k : ℕ) (s : State) : Bool :=
  (s.handler i).any fun h => h.id = k && h.phase = .deductBalance

theorem exists_sendsFirst (hs : sendsFirst i k s) :
    ∃ h, s.handler i = some h ∧ h.id = k ∧ h.phase = .deductBalance := by
  obtain ⟨h, hh, hc⟩ := (Option.any_eq_true _ _).1 hs
  obtain ⟨hk, hphase⟩ := Bool.and_eq_true_iff.1 hc
  exact ⟨h, hh, of_decide_eq_true hk, of_decide_eq_true hphase⟩

/-- The deduction of a request of two days is sent. -/
theorem deduction_covered_sample : ∃ hist s h r,
    Run (step sampleConfig) Unsynced (sampleStart 10) hist s ∧ s.handler 0 = some h ∧
    h.phase = .deductBalance ∧ s.db.requests.get h.event.requestId = some r ∧
    (r.status ≠ .cancelled → ∃ record, s.hcm.balances r.hcmKey = some record ∧
      r.daysRequested ≤ record.totalDays + s.cancelledDays r.hcmKey) := by
  let actions := sampleApproval 2 ++ [.tick, .claim 0 .ok]
  have hexec : ∃ s ∈ exec (step sampleConfig) (sampleStart 10) actions, sendsFirst 0 0 s := by
    decide +kernel
  have hunsynced : ∀ a ∈ actions, a.isRegular ∧ a.isSync = false := by decide +kernel
  have hfirst : ∀ x ∈ trace (step sampleConfig) (sampleStart 10) actions, ¬sends 0 x := by
    decide +kernel
  obtain ⟨s, hrun, hs⟩ := exists_run_of_exec hunsynced hexec
  obtain ⟨h, hh, hk, hphase⟩ := exists_sendsFirst hs
  obtain ⟨r, hr, _, hcovered⟩ := deduction_covered (opening_sample 10) (agreed_sample 10)
    (fun i j b b' hb hb' _ => (get_sampleDb hb).1.trans (get_sampleDb hb').1.symm) hrun hh hphase
    (by rwa [hk])
  exact ⟨_, s, h, r, hrun, hh, hphase, hr, fun hne => (hcovered hne).1⟩

/-! ## First sends that are refused -/

/-- The HCM has fewer days than `r` asks for, and answers 422 to the event `k`. -/
def Refuses (s : State) (k : ℕ) (r : TimeOffRequest) : Prop :=
  (∃ record, s.hcm.balances r.hcmKey = some record ∧ record.totalDays < r.daysRequested) ∧
  ∃ message, s.hcm.deductBalance r.toBalanceKey r.daysRequested (some (idempotencyKey k)) s.now =
    .error (.unprocessable message)

/-- The handler `i` is about to send the event `k`, of a request whose status
    meets `p`, and the HCM has fewer days than it asks for. -/
def lacks (p : RequestStatus → Bool) (i k : ℕ) (s : State) : Bool :=
  sendsFirst i k s && (s.hcm.deductions (idempotencyKey k)).isNone &&
    (s.handler i).any fun h => (s.db.requests.get h.event.requestId).any fun r =>
      p r.status && (s.hcm.balances r.hcmKey).any (·.totalDays < r.daysRequested)

/-- What the test finds is refused. -/
theorem refuses_of_lacks (hs : lacks p i k s) : ∃ h r, s.handler i = some h ∧ h.id = k ∧
    h.phase = .deductBalance ∧ s.db.requests.get h.event.requestId = some r ∧ p r.status ∧
    Refuses s h.id r := by
  obtain ⟨hs, hlacks⟩ := Bool.and_eq_true_iff.1 hs
  obtain ⟨hsends, hnone⟩ := Bool.and_eq_true_iff.1 hs
  obtain ⟨h, hh, rfl, hphase⟩ := exists_sendsFirst hsends
  rw [hh, Option.any_some] at hlacks
  obtain ⟨r, hr, hlacks⟩ := (Option.any_eq_true _ _).1 hlacks
  obtain ⟨hp, hlacks⟩ := Bool.and_eq_true_iff.1 hlacks
  obtain ⟨record, hrecord, hlt⟩ := (Option.any_eq_true _ _).1 hlacks
  have hlt := of_decide_eq_true hlt
  exact ⟨h, r, hh, rfl, hphase, hr, hp, ⟨record, hrecord, hlt⟩,
    (deductBalance_refused_iff (idempotencyKey_ne_empty h.id)
      (Option.isNone_iff_eq_none.1 hnone) hrecord).2 hlt⟩

/-- The requests of the state that meet `p` are among `ids`. -/
def Database.only (p : RequestStatus → Bool) (ids : List ℕ) (db : Database) : Bool :=
  (List.range db.requests.nextId).all fun id =>
    id ∈ ids || (db.requests.get id).all fun r => !p r.status

theorem mem_of_only {ids : List ℕ} (hs : s.db.only p ids) (hr : s.db.requests.get id = some r)
    (hp : p r.status) : id ∈ ids := by
  have hid := List.all_eq_true.1 hs id (List.mem_range.2 (Table.lt_nextId hr))
  rw [hr, Option.all_some, hp, Bool.not_true, Bool.or_false] at hid
  exact of_decide_eq_true hid

/-- Two balances that have the same key at the HCM. -/
def collidingKeys : BalanceKey × BalanceKey :=
  (⟨1, "LOC1:ANNUAL", "SICK"⟩, ⟨1, "LOC1", "ANNUAL:SICK"⟩)

/-- The balance of the first key, and then that of the second. -/
def collidingDb : Database :=
  let first := sampleBalance 10
  { sampleDb 10 with
    balances := (KeyedTable.empty.insert { first with toBalanceKey := collidingKeys.1 }
      KeyedTable.lookup_empty).insert { first with toBalanceKey := collidingKeys.2 }
        (by decide +kernel) }

/-- The HCM, which has one balance for both. -/
def collidingStart : State :=
  .start collidingDb { sampleHcm 10 with
    balances := Function.update (fun _ => none) collidingKeys.1.hcmKey
      (some { collidingKeys.1 with totalDays := 10, hcmVersion := 1 }) } 0

/-- So do the two balances, each by itself. -/
theorem agreed_colliding : Agreed collidingStart := by
  have hrow : ∀ i b, collidingDb.balances.get i = some b → b.usedDays = 0 ∧ b.reservedDays = 0 ∧
      b.totalDays = 10 ∧ (b.toBalanceKey = collidingKeys.1 ∨ b.toBalanceKey = collidingKeys.2) := by
    intro i b hb
    simp only [collidingDb, KeyedTable.get_insert] at hb
    split at hb
    · obtain rfl := Option.some.inj hb
      exact ⟨rfl, rfl, rfl, .inr rfl⟩
    · split at hb
      · obtain rfl := Option.some.inj hb
        exact ⟨rfl, rfl, rfl, .inl rfl⟩
      · cases hb
  refine ⟨fun i b hb => (hrow i b hb).1, fun i b hb => (hrow i b hb).2.1, fun i b hb => ?_⟩
  obtain ⟨_, _, htotal, hkey⟩ := hrow i b hb
  rw [htotal]
  rcases hkey with hkey | hkey <;> rw [hkey] <;> decide +kernel

/-- The employee asks for `days` days of what `key` is for, as request `id`, and
    an admin approves, as call `n`. -/
def collidingApproval (key : BalanceKey) (days : ℤ) (id n : ℕ) : List Action :=
  [.submitRequest ⟨key, .ofDay 0, .ofDay (days - 1)⟩ sampleEmployee,
    .preRead .approve id ⟨0, .admin, none⟩, .transact n]

/-- A deduction is refused when it is sent first, with 422:

    * one of eight days out of ten, while the HCM has not reversed yet the six
      days of a request that has been cancelled;
    * one of ten days out of ten, with nothing cancelled, after the deduction
      for another balance that has the same key at the HCM;
    * one of six days out of ten, of a request that is cancelled before it is
      sent, after the deduction of a request of eight days that its release has
      made room for: here nothing is deducted for cancelled requests. -/
theorem deduction_refused :
    (∃ hist s h r, Run (step sampleConfig) Unsynced (sampleStart 10) hist s ∧
      s.handler 1 = some h ∧ h.phase = .deductBalance ∧ (∀ x ∈ hist, ¬sends h.id x) ∧
      s.db.requests.get h.event.requestId = some r ∧ r.status ≠ .cancelled ∧
      Refuses s h.id r) ∧
    (∃ hist s h r, Run (step sampleConfig) Unsynced collidingStart hist s ∧
      Opening collidingStart ∧ Agreed collidingStart ∧
      (∀ id q, s.db.requests.get id = some q → q.status ≠ .cancelled) ∧
      s.handler 0 = some h ∧ h.phase = .deductBalance ∧ (∀ x ∈ hist, ¬sends h.id x) ∧
      s.db.requests.get h.event.requestId = some r ∧ Refuses s h.id r) ∧
    ∃ hist s h r, Run (step sampleConfig) Unsynced (sampleStart 10) hist s ∧
      s.handler 0 = some h ∧ h.phase = .deductBalance ∧ (∀ x ∈ hist, ¬sends h.id x) ∧
      s.db.requests.get h.event.requestId = some r ∧ r.status = .cancelled ∧
      s.cancelledDays r.hcmKey = 0 ∧ Refuses s h.id r := by
  refine ⟨?_, ?_, ?_⟩
  · let actions := sampleApproval 6 ++ [.preRead .cancel 0 sampleEmployee, .transact 1, .tick,
      .claim 0 .ok, .handle 0 .ok, .handle 0 .ok, sampleSubmit 8,
      .preRead .approve 1 sampleManager, .transact 2, .tick, .claim 1 .ok, .handle 1 .ok,
      .handle 1 .throws, .handle 1 .ok, .claim 1 .ok]
    have hexec : ∃ s ∈ exec (step sampleConfig) (sampleStart 10) actions,
        lacks (· ≠ .cancelled) 1 2 s := by decide +kernel
    have hunsynced : ∀ a ∈ actions, a.isRegular ∧ a.isSync = false := by decide +kernel
    have hfirst : ∀ x ∈ trace (step sampleConfig) (sampleStart 10) actions, ¬sends 2 x := by
      decide +kernel
    obtain ⟨s, hrun, hlacks⟩ := exists_run_of_exec hunsynced hexec
    obtain ⟨h, r, hh, hk, hphase, hr, hstatus, hrefuses⟩ := refuses_of_lacks hlacks
    exact ⟨_, s, h, r, hrun, hh, hphase, by rwa [hk], hr, of_decide_eq_true hstatus, hrefuses⟩
  · let actions := collidingApproval collidingKeys.1 10 0 0 ++
      collidingApproval collidingKeys.2 10 1 1 ++
      [.tick, .claim 0 .ok, .handle 0 .ok, .handle 0 .ok, .claim 0 .ok]
    have hexec : ∃ s ∈ exec (step sampleConfig) collidingStart actions,
        lacks anyStatus 0 1 s ∧ s.db.only (· = .cancelled) [] := by
      decide +kernel
    have hunsynced : ∀ a ∈ actions, a.isRegular ∧ a.isSync = false := by decide +kernel
    have hfirst : ∀ x ∈ trace (step sampleConfig) collidingStart actions, ¬sends 1 x := by
      decide +kernel
    obtain ⟨s, hrun, hlacks, honly⟩ := exists_run_of_exec hunsynced hexec
    obtain ⟨h, r, hh, hk, hphase, hr, _, hrefuses⟩ := refuses_of_lacks hlacks
    refine ⟨_, s, h, r, hrun, ⟨fun _ => rfl, fun _ => rfl, fun _ => rfl, fun _ => rfl, rfl, rfl⟩,
      agreed_colliding, fun id q hq hc => ?_, hh, hphase, by rwa [hk], hr, hrefuses⟩
    exact List.not_mem_nil (mem_of_only honly hq (decide_eq_true hc))
  · -- The event `0` is held by the tick `0` while the other one is sent.
    let actions := sampleApproval 6 ++ [.tick, .claim 0 .ok, .preRead .cancel 0 sampleEmployee,
      .transact 1, sampleSubmit 8, .preRead .approve 1 sampleManager, .transact 2, .tick,
      .claim 1 .ok, .handle 1 .ok, .handle 1 .ok, .claim 1 .ok, .handle 1 .ok]
    have hexec : ∃ s ∈ exec (step sampleConfig) (sampleStart 10) actions,
        lacks (· = .cancelled) 0 0 s ∧ s.db.only (· = .cancelled) [0] ∧
          (s.handler 0).any (·.event.requestId = 0) := by
      decide +kernel
    have hunsynced : ∀ a ∈ actions, a.isRegular ∧ a.isSync = false := by decide +kernel
    have hfirst : ∀ x ∈ trace (step sampleConfig) (sampleStart 10) actions, ¬sends 0 x := by
      decide +kernel
    obtain ⟨s, hrun, hlacks, honly, hrequest⟩ := exists_run_of_exec hunsynced hexec
    obtain ⟨h, r, hh, hk, hphase, hr, hstatus, hrefuses⟩ := refuses_of_lacks hlacks
    rw [← hk] at hfirst
    rw [hh, Option.any_some, decide_eq_true_eq] at hrequest
    refine ⟨_, s, h, r, hrun, hh, hphase, hfirst, hr, of_decide_eq_true hstatus,
      cancelledDays_eq_zero fun id q hq hc => ?_, hrefuses⟩
    obtain rfl := List.mem_singleton.1 (mem_of_only honly hq (decide_eq_true hc))
    rw [← hrequest]
    exact not_live_of_first (opening_sample 10) (Unsynced.regular hrun) hh hphase hfirst

end TimeOff
