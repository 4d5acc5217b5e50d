import TimeOff.Hcm
import TimeOff.Lib.Reversals
import TimeOff.Lib.Rounding
import TimeOff.Lib.Run

/-!
# The HCM conserves days

What is left on a balance of the HCM is what it has been seeded with, less the
days of the deductions that have been made and not reversed. The history of the
calls says which these are: a deduction is made when it is answered with a new
id, and it is reversed when a reversal of its id succeeds.

There are runs in which this fails. A deduction without an idempotency key is
indexed by its own id, but stored under no key; so its reversal succeeds, and
gives no days back. The key of a balance joins three strings with colons, which
may be in the strings. And the empty string is no idempotency key for the HCM,
which deducts again. Where no step does any of these (`HcmCall.Sound`), and none
has to round what is left (`HcmCall.Exact`), the days are conserved (`Conserves`).
With whole and half days nothing is rounded (`exact_of_fits`).
-/

namespace TimeOff

open Transition Reversals Rounding HcmState

/-! ## Calls -/

/-- The calls that deduct days and give them back. -/
inductive HcmCall
  | deductBalance (key : BalanceKey) (days : ℚ) (idempotencyKey : Option String) (now : Instant)
  | reverseDeduction (hcmRequestId : String)

namespace HcmState

/-- The HCM as it starts. -/
def empty : HcmState := ⟨fun _ => none, fun _ => none, fun _ => none, 0⟩

/-- The HCM with these balances, seeded in turn. -/
def seeded (seeds : List (BalanceKey × ℚ)) : HcmState :=
  seeds.foldl (fun hcm s => hcm.seedBalance s.1 s.2) empty

/-- The state after a call: a call that is refused changes nothing. -/
def call (round : ℚ → ℚ) (hcm : HcmState) : HcmCall → Option HcmState
  | .deductBalance key days idempotencyKey now =>
    match hcm.deductBalance key days idempotencyKey now round with
    | .ok (_, hcm') => some hcm'
    | .error _ => some hcm
  | .reverseDeduction hcmRequestId =>
    match hcm.reverseDeduction hcmRequestId round with
    | .ok hcm' => some hcm'
    | .error _ => some hcm

end HcmState

/-- A deduction as it has been made, with the idempotency key of its call. -/
structure Deduction extends DeductionRecord where
  idempotencyKey : Option String

/-- The deduction that is made at its next id. -/
def HcmState.newDeduction (hcm : HcmState) (key : BalanceKey) (days : ℚ)
    (idempotencyKey : Option String) (now : Instant) : Deduction :=
  { key with
    days := days
    hcmRequestId := hcm.nextRequestId now
    idempotencyKey := idempotencyKey }

/-- The deduction that a step makes: one that is answered, and not with the id
    of a deduction that is live (201, not 200). -/
def madeBy (round : ℚ → ℚ) : HcmState × HcmCall → Option Deduction
  | (hcm, .deductBalance key days idempotencyKey now) =>
    match (truthy idempotencyKey).bind hcm.deductions,
      hcm.deductBalance key days idempotencyKey now round with
    | none, .ok _ => some (hcm.newDeduction key days idempotencyKey now)
    | _, _ => none
  | (_, .reverseDeduction _) => none

/-- The id that a step reverses. -/
def reversedBy (round : ℚ → ℚ) : HcmState × HcmCall → Option String
  | (_, .deductBalance _ _ _ _) => none
  | (hcm, .reverseDeduction hcmRequestId) =>
    match hcm.reverseDeduction hcmRequestId round with
    | .ok _ => some hcmRequestId
    | .error _ => none

/-- The deductions made in a run. -/
def made (round : ℚ → ℚ) (hist : List (HcmState × HcmCall)) : List Deduction :=
  hist.filterMap (madeBy round)

/-- The ids reversed in a run. -/
def reversed (round : ℚ → ℚ) (hist : List (HcmState × HcmCall)) : List String :=
  hist.filterMap (reversedBy round)

/-- The days that a deduction takes from a balance. -/
def Deduction.daysFrom (key : BalanceKey) (d : Deduction) : ℚ :=
  if d.toBalanceKey = key then d.days else 0

/-- The days of the deductions for `key` that have not been reversed. -/
def outstandingDays (M : List Deduction) (R : List String) (key : BalanceKey) : ℚ :=
  outstanding (fun d : Deduction => d.hcmRequestId) (Deduction.daysFrom key) M R

/-- The HCM conserves days: what is left on a balance is what it was seeded
    with, less what is outstanding, and is not negative; a deduction with the
    key of one that is live is answered with its id, and one that has been
    reversed is not reversed again. -/
structure Conserves (round : ℚ → ℚ) (seeds : List (BalanceKey × ℚ))
    (hist : List (HcmState × HcmCall)) (hcm : HcmState) : Prop where
  total : ∀ s ∈ seeds, ∃ balance, hcm.getBalance s.1 = .ok balance ∧
    balance.totalDays = s.2 - outstandingDays (made round hist) (reversed round hist) s.1 ∧
    0 ≤ balance.totalDays
  repeated : ∀ d ∈ made round hist, d.hcmRequestId ∉ reversed round hist →
    ∀ k, d.idempotencyKey = some k → ∀ key days now,
      hcm.deductBalance key days (some k) now round = .ok (d.hcmRequestId, hcm)
  refused : ∀ id ∈ reversed round hist, (∃ e, hcm.reverseDeduction id round = .error e) ∧
    hcm.call round (.reverseDeduction id) = some hcm

/-- A call does not deduct negative days. -/
def HcmCall.Valid : HcmCall → Prop
  | .deductBalance _ days _ _ => 0 ≤ days
  | .reverseDeduction _ => True

/-- Where days are conserved: a deduction that is made has no empty idempotency
    key, and finds the balance of its own triple; what is indexed by an id that
    is reversed, is the deduction with this id. -/
def HcmCall.Sound (hcm : HcmState) : HcmCall → Prop
  | .deductBalance key days idempotencyKey _ =>
    (truthy idempotencyKey).bind hcm.deductions = none →
      ∀ balance ∈ hcm.balances key.hcmKey, days ≤ balance.totalDays →
        idempotencyKey ≠ some "" ∧ balance.toBalanceKey = key
  | .reverseDeduction hcmRequestId =>
    ∀ k ∈ hcm.requestIndex hcmRequestId, ∃ d ∈ hcm.deductions k, d.hcmRequestId = hcmRequestId

/-- What a call leaves on a balance is not rounded. -/
def HcmCall.Exact (round : ℚ → ℚ) (hcm : HcmState) : HcmCall → Prop
  | .deductBalance key days idempotencyKey _ =>
    (truthy idempotencyKey).bind hcm.deductions = none →
      ∀ balance ∈ hcm.balances key.hcmKey, days ≤ balance.totalDays →
        round (balance.totalDays - days) = balance.totalDays - days
  | .reverseDeduction hcmRequestId =>
    ∀ k ∈ hcm.requestIndex hcmRequestId, ∀ d ∈ hcm.deductions k,
      ∀ balance ∈ hcm.balances d.hcmKey,
        round (balance.totalDays + d.days) = balance.totalDays + d.days

instance : ∀ c : HcmCall, Decidable c.Valid
  | .deductBalance _ days _ _ => inferInstanceAs (Decidable (0 ≤ days))
  | .reverseDeduction _ => inferInstanceAs (Decidable True)

instance (hcm : HcmState) : ∀ c : HcmCall, Decidable (c.Sound hcm)
  | .deductBalance key days idempotencyKey _ => inferInstanceAs (Decidable (
      (truthy idempotencyKey).bind hcm.deductions = none →
        ∀ balance ∈ hcm.balances key.hcmKey, days ≤ balance.totalDays →
          idempotencyKey ≠ some "" ∧ balance.toBalanceKey = key))
  | .reverseDeduction id => inferInstanceAs (Decidable (
      ∀ k ∈ hcm.requestIndex id, ∃ d ∈ hcm.deductions k, d.hcmRequestId = id))

instance (round : ℚ → ℚ) (hcm : HcmState) : ∀ c : HcmCall, Decidable (c.Exact round hcm)
  | .deductBalance key days idempotencyKey _ => inferInstanceAs (Decidable (
      (truthy idempotencyKey).bind hcm.deductions = none →
        ∀ balance ∈ hcm.balances key.hcmKey, days ≤ balance.totalDays →
          round (balance.totalDays - days) = balance.totalDays - days))
  | .reverseDeduction id => inferInstanceAs (Decidable (
      ∀ k ∈ hcm.requestIndex id, ∀ d ∈ hcm.deductions k, ∀ balance ∈ hcm.balances d.hcmKey,
        round (balance.totalDays + d.days) = balance.totalDays + d.days))

variable {round : ℚ → ℚ} {hcm hcm' : HcmState} {c : HcmCall} {key : BalanceKey} {days : ℚ}
  {k id : String} {now : Instant} {idempotencyKey : Option String} {balance : BalanceRecord}
  {seeds : List (BalanceKey × ℚ)} {M : List Deduction} {R : List String} {d : Deduction}
  {r : DeductionRecord} {hist : List (HcmState × HcmCall)}

/-- What a call does: nothing that counts, or it makes a deduction, or it
    reverses one. -/
theorem HcmState.call_cases (hcall : hcm.call round c = some hcm') :
    (madeBy round (hcm, c) = none ∧ reversedBy round (hcm, c) = none ∧ hcm' = hcm) ∨
    (∃ key days idempotencyKey now balance, c = .deductBalance key days idempotencyKey now ∧
      (truthy idempotencyKey).bind hcm.deductions = none ∧
      hcm.balances key.hcmKey = some balance ∧ days ≤ balance.totalDays ∧
      madeBy round (hcm, c) = some (hcm.newDeduction key days idempotencyKey now) ∧
      reversedBy round (hcm, c) = none ∧
      hcm' = hcm.deduct key days balance idempotencyKey now round) ∨
    (∃ id, c = .reverseDeduction id ∧ hcm.reverseDeduction id round = .ok hcm' ∧
      madeBy round (hcm, c) = none ∧ reversedBy round (hcm, c) = some id) := by
  -- By the call, and by what the HCM answers: a refusal leaves everything as it is, and so
  -- does the answer 200 to a key that is live.
  cases c with
  | deductBalance key days idempotencyKey now =>
    rw [call] at hcall
    split at hcall
    · next h hcm₁ hok =>
      obtain rfl := Option.some.inj hcall
      rcases deductBalance_eq_ok hok with ⟨d, hlive, -, rfl⟩ | ⟨hnone, balance, hb, hle, -, rfl⟩
      · refine .inl ⟨?_, rfl, rfl⟩
        simp only [madeBy, hlive]
      · refine .inr (.inl ⟨key, days, idempotencyKey, now, balance, rfl, hnone, hb, hle, ?_, rfl,
          rfl⟩)
        simp only [madeBy, hnone, hok]
    · next e herror =>
      obtain rfl := Option.some.inj hcall
      refine .inl ⟨?_, rfl, rfl⟩
      simp only [madeBy, herror]
      cases (truthy idempotencyKey).bind hcm.deductions <;> rfl
  | reverseDeduction id =>
    rw [call] at hcall
    split at hcall
    · next hcm₁ hok =>
      obtain rfl := Option.some.inj hcall
      exact .inr (.inr ⟨id, rfl, hok, rfl, by simp only [reversedBy, hok]⟩)
    · next e herror =>
      obtain rfl := Option.some.inj hcall
      exact .inl ⟨rfl, by simp only [reversedBy, herror], rfl⟩

/-! ## What is filed -/

/-- The deductions of a new state: the one just made is stored by its
    idempotency key, if it has one. -/
theorem HcmState.deductions_deduct_eq_some (hempty : idempotencyKey ≠ some "") :
    (hcm.deduct key days balance idempotencyKey now round).deductions k = some r ↔
      (idempotencyKey = some k ∧
        r = (hcm.newDeduction key days idempotencyKey now).toDeductionRecord) ∨
      (idempotencyKey ≠ some k ∧ hcm.deductions k = some r) := by
  cases idempotencyKey with
  | none => simp [deduct, truthy]
  | some j =>
    have hj : j ≠ "" := fun hj => hempty (congrArg some hj)
    rw [deductions_deduct _ hj, PartialMap.set_eq_some]
    simp only [ne_eq, Option.some.injEq, eq_comm (a := j), eq_comm (a := r)]
    rfl

/-- The deductions made and the ids reversed, as the HCM has them on file: the
    ids are distinct, the counter is past them, what is live is stored by its
    idempotency key, and nothing else is. -/
structure Filed (M : List Deduction) (R : List String) (hcm : HcmState) : Prop where
  nodup : (M.map fun d => d.hcmRequestId).Nodup
  issued : ∀ d ∈ M, Issued hcm.requestCounter d.hcmRequestId
  known : ∀ id ∈ R, ∃ d ∈ M, d.hcmRequestId = id
  forgotten : ∀ id ∈ R, hcm.requestIndex id = none
  live : ∀ d ∈ M, d.hcmRequestId ∉ R → ∀ k, d.idempotencyKey = some k →
    k ≠ "" ∧ hcm.deductions k = some d.toDeductionRecord
  stored : ∀ k r, hcm.deductions k = some r →
    ∃ d ∈ M, d.hcmRequestId ∉ R ∧ d.idempotencyKey = some k ∧ d.toDeductionRecord = r

namespace Filed

/-- Deductions with the same id are the same. -/
theorem eq_of_id (hf : Filed M R hcm) {d' : Deduction} (hd : d ∈ M) (hd' : d' ∈ M)
    (hid : d.hcmRequestId = d'.hcmRequestId) : d = d' :=
  List.inj_on_of_nodup_map hf.nodup hd hd' hid

/-- The next id is none that has been given out, and so none reversed. -/
theorem fresh (hf : Filed M R hcm) (now : Instant) :
    (∀ d ∈ M, d.hcmRequestId ≠ hcm.nextRequestId now) ∧ hcm.nextRequestId now ∉ R := by
  have hM : ∀ d ∈ M, d.hcmRequestId ≠ hcm.nextRequestId now := fun d hd heq =>
    hcm.nextRequestId_not_issued now (heq ▸ hf.issued d hd)
  refine ⟨hM, fun hR => ?_⟩
  obtain ⟨d, hd, hid⟩ := hf.known _ hR
  exact hM d hd hid

/-- A deduction that is made is filed, under its key if it has one. -/
theorem deduct (hf : Filed M R hcm) (hempty : idempotencyKey ≠ some "")
    (hnone : (truthy idempotencyKey).bind hcm.deductions = none) (balance : BalanceRecord) :
    Filed (M ++ [hcm.newDeduction key days idempotencyKey now]) R
      (hcm.deduct key days balance idempotencyKey now round) := by
  obtain ⟨hM, hR⟩ := hf.fresh now
  -- The key of a deduction that is stored is not that of the one just made.
  have hkey : ∀ k r, k ≠ "" → hcm.deductions k = some r → idempotencyKey ≠ some k := by
    rintro k r hk hr rfl
    rw [truthy_some hk, Option.bind_some, hr] at hnone
    cases hnone
  have hnew : hcm.newDeduction key days idempotencyKey now ∈
      M ++ [hcm.newDeduction key days idempotencyKey now] := List.mem_concat_self
  refine ⟨?_, ?_, fun id hid => ?_, fun id hid => ?_, ?_, fun k r hr => ?_⟩
  · rw [List.map_append, List.map_singleton]
    refine List.nodup_append.2 ⟨hf.nodup, List.nodup_singleton _, ?_⟩
    exact List.forall_mem_map.2 fun d hd => List.forall_mem_singleton.2 (hM d hd)
  · exact List.forall_mem_append.2 ⟨fun d hd => (hf.issued d hd).mono (Nat.le_succ _),
      List.forall_mem_singleton.2 (hcm.nextRequestId_issued now)⟩
  · obtain ⟨d, hd, hid⟩ := hf.known id hid
    exact ⟨d, List.mem_append_left _ hd, hid⟩
  · have hne : id ≠ hcm.nextRequestId now := fun heq => hR (heq ▸ hid)
    exact (Function.update_of_ne hne ..).trans (hf.forgotten id hid)
  · refine List.forall_mem_append.2 ⟨fun d hd hlive k hk => ?_,
      List.forall_mem_singleton.2 fun _ k hk => ?_⟩ <;> rw [deductions_deduct_eq_some hempty]
    · obtain ⟨hne, hr⟩ := hf.live d hd hlive k hk
      exact ⟨hne, .inr ⟨hkey k _ hne hr, hr⟩⟩
    · exact ⟨fun hk' => hempty (hk' ▸ hk), .inl ⟨hk, rfl⟩⟩
  · rcases (deductions_deduct_eq_some hempty).1 hr with ⟨hk, rfl⟩ | ⟨_, hr⟩
    · exact ⟨_, hnew, hR, hk, rfl⟩
    · obtain ⟨d, hd, hlive⟩ := hf.stored k r hr
      exact ⟨d, List.mem_append_left _ hd, hlive⟩

/-- A deduction with a key that is reversed is not on file any more. -/
theorem reverse (hf : Filed M R hcm) (hd : d ∈ M) (hlive : d.hcmRequestId ∉ R)
    (hk : d.idempotencyKey = some k) (balance : BalanceRecord) :
    Filed M (R ++ [d.hcmRequestId])
      ((hcm.restore d.toDeductionRecord balance round).forget k d.hcmRequestId) := by
  have hmem : ∀ id, id ∈ R ++ [d.hcmRequestId] ↔ id ∈ R ∨ id = d.hcmRequestId := fun id => by
    rw [List.mem_append, List.mem_singleton]
  refine ⟨hf.nodup, hf.issued, fun id hid => ?_, fun id hid => ?_, fun d' hd' hlive' j hj => ?_,
    fun j r hr => ?_⟩
  · rcases (hmem id).1 hid with hid | rfl
    · exact hf.known id hid
    · exact ⟨d, hd, rfl⟩
  · rw [requestIndex_reversed, Function.update_apply]
    split
    · rfl
    · next hne => exact hf.forgotten id (((hmem id).1 hid).resolve_right hne)
  · rw [hmem, not_or] at hlive'
    obtain ⟨hne, hr⟩ := hf.live d' hd' hlive'.1 j hj
    refine ⟨hne, PartialMap.unset_eq_some.2 ⟨?_, hr⟩⟩
    rintro rfl
    -- The ids on file are unique, so that no other deduction is forgotten.
    have hsame := Option.some.inj (hr.symm.trans (hf.live d hd hlive j hk).2)
    exact hlive'.2 (congrArg DeductionRecord.hcmRequestId hsame)
  · obtain ⟨hj, hr⟩ := PartialMap.unset_eq_some.1 hr
    obtain ⟨d', hd', hlive', hk', hrecord⟩ := hf.stored j r hr
    refine ⟨d', hd', fun hid => ?_, hk', hrecord⟩
    rcases (hmem _).1 hid with hid | hid
    · exact hlive' hid
    · obtain rfl := hf.eq_of_id hd' hd hid
      exact hj (Option.some.inj (hk'.symm.trans hk))

/-- What a reversal gives back is the deduction with this id, if that is what
    the index leads to. -/
theorem reverseDeduction_ok (hf : Filed M R hcm)
    (hsound : (HcmCall.reverseDeduction id).Sound hcm)
    (hr : hcm.reverseDeduction id round = .ok hcm') :
    ∃ d ∈ M, d.hcmRequestId = id ∧ d.hcmRequestId ∉ R ∧ ∃ k, d.idempotencyKey = some k ∧
      hcm.requestIndex id = some k ∧ hcm.deductions k = some d.toDeductionRecord ∧
      ∃ balance, hcm.balances d.hcmKey = some balance ∧
        hcm' = (hcm.restore d.toDeductionRecord balance round).forget k id := by
  obtain ⟨k, hindex, hcases⟩ := HcmState.reverseDeduction_ok hr
  obtain ⟨r, hdeduction, hid⟩ := hsound k hindex
  obtain ⟨d, hd, hlive, hk, rfl⟩ := hf.stored k r hdeduction
  refine ⟨d, hd, hid, hlive, k, hk, hindex, hdeduction, ?_⟩
  rcases hcases with ⟨hnone, _⟩ | ⟨r, balance, hr, hb, hhcm⟩
  · rw [hdeduction] at hnone
    cases hnone
  · obtain rfl := Option.some.inj (hr.symm.trans hdeduction)
    exact ⟨balance, hb, hhcm⟩

end Filed

/-! ## What is left -/

/-- The balances with the deductions made and the ids reversed: what has been
    seeded is there, less what is outstanding, and no deduction is for a triple
    whose key is that of another one that has been seeded. -/
structure Tallied (seeds : List (BalanceKey × ℚ)) (M : List Deduction) (R : List String)
    (hcm : HcmState) : Prop where
  nonneg : ∀ d ∈ M, 0 ≤ d.days
  own : ∀ d ∈ M, ∀ s ∈ seeds, s.1.hcmKey = d.hcmKey → s.1 = d.toBalanceKey
  covered : ∀ K balance, hcm.balances K = some balance → 0 ≤ balance.totalDays
  total : ∀ s ∈ seeds, ∃ balance, hcm.balances s.1.hcmKey = some balance ∧
    balance.toBalanceKey = s.1 ∧ balance.totalDays = s.2 - outstandingDays M R s.1

namespace Tallied

/-- One balance changes by the days that the outstanding days change by. -/
theorem total_update (ha : Tallied seeds M R hcm) {M' : List Deduction} {R' : List String}
    {balance' : BalanceRecord} {change : ℚ}
    (hown : ∀ s ∈ seeds, s.1.hcmKey = key.hcmKey → s.1 = key)
    (hb : hcm.balances key.hcmKey = some balance)
    (hkey : balance'.toBalanceKey = balance.toBalanceKey)
    (hdays : balance'.totalDays = balance.totalDays - change)
    (hout : ∀ K, outstandingDays M' R' K =
      outstandingDays M R K + if key = K then change else 0) :
    ∀ s ∈ seeds, ∃ b, Function.update hcm.balances key.hcmKey (some balance') s.1.hcmKey = some b ∧
      b.toBalanceKey = s.1 ∧ b.totalDays = s.2 - outstandingDays M' R' s.1 := by
  intro s hs
  obtain ⟨b, hb', hkey', htotal⟩ := ha.total s hs
  rw [hout]
  by_cases hjoined : s.1.hcmKey = key.hcmKey
  · rw [hjoined, hb] at hb'
    obtain rfl := Option.some.inj hb'
    refine ⟨balance', ?_, hkey.trans hkey', ?_⟩
    · rw [hjoined, Function.update_self]
    · rw [if_pos (hown s hs hjoined).symm, hdays, htotal, sub_sub]
  · have hne : key ≠ s.1 := fun heq => hjoined (heq ▸ rfl)
    rw [Function.update_of_ne hjoined, if_neg hne, add_zero]
    exact ⟨b, hb', hkey', htotal⟩

/-- A balance that is written covers its days, and the others did before. -/
theorem covered_update (ha : Tallied seeds M R hcm) {joined : String}
    (hpos : 0 ≤ balance.totalDays) (K : String) (b : BalanceRecord)
    (hb : Function.update hcm.balances joined (some balance) K = some b) : 0 ≤ b.totalDays := by
  rcases PartialMap.set_eq_some.1 hb with ⟨_, rfl⟩ | ⟨_, hb⟩
  · exact hpos
  · exact ha.covered K b hb

/-- What a deduction takes from its own balance is outstanding from now on. -/
theorem deduct (ha : Tallied seeds M R hcm) (hdays : 0 ≤ days)
    (hb : hcm.balances key.hcmKey = some balance) (hkey : balance.toBalanceKey = key)
    (hle : days ≤ balance.totalDays) (hnew : hcm.nextRequestId now ∉ R)
    (hexact : round (balance.totalDays - days) = balance.totalDays - days) :
    Tallied seeds (M ++ [hcm.newDeduction key days idempotencyKey now]) R
      (hcm.deduct key days balance idempotencyKey now round) := by
  -- The balance found is that of a seed with the same joined key.
  have hown : ∀ s ∈ seeds, s.1.hcmKey = key.hcmKey → s.1 = key := by
    intro s hs hjoined
    obtain ⟨balance', hb', hkey', _⟩ := ha.total s hs
    rw [hjoined, hb] at hb'
    obtain rfl := Option.some.inj hb'
    exact hkey'.symm.trans hkey
  refine ⟨?_, ?_, ha.covered_update (hexact.symm ▸ sub_nonneg.2 hle), ?_⟩
  · exact List.forall_mem_append.2 ⟨ha.nonneg, List.forall_mem_singleton.2 hdays⟩
  · exact List.forall_mem_append.2 ⟨ha.own, List.forall_mem_singleton.2 hown⟩
  · exact ha.total_update hown hb rfl hexact fun K => outstanding_snoc _ _ hnew

/-- What a reversal gives back to its balance was outstanding. -/
theorem reverse (ha : Tallied seeds M R hcm) (hf : Filed M R hcm) (hd : d ∈ M)
    (hlive : d.hcmRequestId ∉ R) (hb : hcm.balances d.hcmKey = some balance)
    (hexact : round (balance.totalDays + d.days) = balance.totalDays + d.days) :
    Tallied seeds M (R ++ [d.hcmRequestId])
      ((hcm.restore d.toDeductionRecord balance round).forget k d.hcmRequestId) := by
  have hout : ∀ K, outstandingDays M (R ++ [d.hcmRequestId]) K =
      outstandingDays M R K + if d.toBalanceKey = K then -d.days else 0 := by
    intro K
    rw [outstandingDays, outstanding_reverse _ _ hf.nodup hd hlive, Deduction.daysFrom,
      sub_eq_add_neg, apply_ite Neg.neg, neg_zero, outstandingDays]
  have hpos := add_nonneg (ha.covered _ _ hb) (ha.nonneg d hd)
  exact ⟨ha.nonneg, ha.own, ha.covered_update (hexact.symm ▸ hpos),
    ha.total_update (ha.own d hd) hb rfl (hexact.trans (sub_neg_eq_add _ _).symm) hout⟩

end Tallied

/-! ## Runs -/

theorem made_snoc (hist : List (HcmState × HcmCall)) (x : HcmState × HcmCall) :
    made round (hist ++ [x]) = made round hist ++ (madeBy round x).toList :=
  filterMap_snoc (madeBy round) hist x

theorem reversed_snoc (hist : List (HcmState × HcmCall)) (x : HcmState × HcmCall) :
    reversed round (hist ++ [x]) = reversed round hist ++ (reversedBy round x).toList :=
  filterMap_snoc (reversedBy round) hist x

/-- What holds along a run: what has happened is filed and tallied. -/
theorem filed_and_tallied_step
    (hI : Filed (made round hist) (reversed round hist) hcm ∧
      Tallied seeds (made round hist) (reversed round hist) hcm)
    (hvalid : c.Valid) (hsound : c.Sound hcm) (hexact : c.Exact round hcm)
    (hcall : hcm.call round c = some hcm') :
    Filed (made round (hist ++ [(hcm, c)])) (reversed round (hist ++ [(hcm, c)])) hcm' ∧
      Tallied seeds (made round (hist ++ [(hcm, c)]))
        (reversed round (hist ++ [(hcm, c)])) hcm' := by
  obtain ⟨hf, ha⟩ := hI
  rw [made_snoc, reversed_snoc]
  rcases call_cases hcall with ⟨hmade, hreversed, rfl⟩ |
    ⟨key, days, idempotencyKey, now, balance, rfl, hnone, hb, hle, hmade, hreversed, rfl⟩ |
    ⟨id, rfl, hok, hmade, hreversed⟩
  · simp only [hmade, hreversed, Option.toList_none, List.append_nil]
    exact ⟨hf, ha⟩
  · rw [hmade, hreversed, Option.toList_some, Option.toList_none, List.append_nil]
    obtain ⟨hempty, hkey⟩ := hsound hnone balance hb hle
    exact ⟨hf.deduct hempty hnone balance,
      ha.deduct hvalid hb hkey hle (hf.fresh now).2 (hexact hnone balance hb hle)⟩
  · rw [hmade, hreversed, Option.toList_none, Option.toList_some, List.append_nil]
    obtain ⟨d, hd, rfl, hlive, k, hk, hindex, hdeduction, balance, hb, rfl⟩ :=
      hf.reverseDeduction_ok hsound hok
    exact ⟨hf.reverse hd hlive hk balance,
      ha.reverse hf hd hlive hb (hexact k hindex _ hdeduction balance hb)⟩

/-- Days are conserved where what has happened is filed and tallied. -/
theorem conserves_of_tallied (hf : Filed (made round hist) (reversed round hist) hcm)
    (ha : Tallied seeds (made round hist) (reversed round hist) hcm) :
    Conserves round seeds hist hcm := by
  refine ⟨fun s hs => ?_, fun d hd hlive k hk key days now => ?_, fun id hid => ?_⟩
  · obtain ⟨balance, hb, _, htotal⟩ := ha.total s hs
    exact ⟨balance, by rw [getBalance, hb], htotal, ha.covered _ _ hb⟩
  · obtain ⟨hne, hr⟩ := hf.live d hd hlive k hk
    rw [deductBalance, truthy_some hne, Option.bind_some, hr]
  · have herror : hcm.reverseDeduction id round = .error (.notFound "HCM request not found") := by
      rw [reverseDeduction, hf.forgotten id hid]
      rfl
    exact ⟨⟨_, herror⟩, by rw [call, herror]⟩

/-! ## What is seeded -/

theorem seeded_snoc (seeds : List (BalanceKey × ℚ)) (s : BalanceKey × ℚ) :
    seeded (seeds ++ [s]) = (seeded seeds).seedBalance s.1 s.2 := by
  rw [seeded, List.foldl_append, List.foldl_cons, List.foldl_nil, seeded]

/-- Seeding makes no deductions. -/
theorem deductions_seeded (seeds : List (BalanceKey × ℚ)) (k : String) :
    (seeded seeds).deductions k = none := by
  induction seeds using List.reverseRecOn with
  | nil => rfl
  | append_singleton seeds s ih => rwa [seeded_snoc]

theorem filed_seeded (seeds : List (BalanceKey × ℚ)) : Filed [] [] (seeded seeds) := by
  refine ⟨List.nodup_nil, List.forall_mem_nil _, List.forall_mem_nil _, List.forall_mem_nil _,
    List.forall_mem_nil _, fun k r hr => ?_⟩
  rw [deductions_seeded] at hr
  cases hr

/-- What has been seeded is there, if the joined keys are distinct. -/
theorem tallied_seeded (hdistinct : (seeds.map fun s => s.1.hcmKey).Nodup)
    (hpos : ∀ s ∈ seeds, 0 ≤ s.2) : Tallied seeds [] [] (seeded seeds) := by
  induction seeds using List.reverseRecOn with
  | nil =>
    refine ⟨List.forall_mem_nil _, List.forall_mem_nil _, fun K b hb => ?_, List.forall_mem_nil _⟩
    cases hb
  | append_singleton seeds s ih =>
    rw [List.map_append, List.map_singleton, List.nodup_append] at hdistinct
    obtain ⟨hdistinct, _, hnew⟩ := hdistinct
    have ha := ih hdistinct fun t ht => hpos t (List.mem_append_left _ ht)
    have hs : 0 ≤ s.2 := hpos s (List.mem_append_right _ (List.mem_singleton_self s))
    rw [seeded_snoc]
    refine ⟨List.forall_mem_nil _, List.forall_mem_nil _, ha.covered_update hs, fun t ht => ?_⟩
    rcases List.mem_append.1 ht with ht | ht
    · obtain ⟨b, hb, hrest⟩ := ha.total t ht
      refine ⟨b, ?_, hrest⟩
      have hne := hnew _ (List.mem_map_of_mem ht) _ (List.mem_singleton_self s.1.hcmKey)
      exact (Function.update_of_ne hne ..).trans hb
    · obtain rfl := List.mem_singleton.1 ht
      refine ⟨_, Function.update_self .., rfl, ?_⟩
      rw [outstandingDays, outstanding_nil, sub_zero]

/-- Days are conserved in every run whose steps are all sound and exact, from
    balances that are not negative and whose joined keys are distinct. -/
theorem hcm_conserves (hdistinct : (seeds.map fun s => s.1.hcmKey).Nodup)
    (hpos : ∀ s ∈ seeds, 0 ≤ s.2)
    (hrun : Run (call round) (fun hcm c => c.Valid ∧ c.Sound hcm ∧ c.Exact round hcm)
      (seeded seeds) hist hcm) :
    Conserves round seeds hist hcm := by
  have hI := hrun.history (I := fun hist hcm => Filed (made round hist) (reversed round hist) hcm ∧
    Tallied seeds (made round hist) (reversed round hist) hcm)
    ⟨filed_seeded seeds, tallied_seeded hdistinct hpos⟩
    fun hist hcm c hcm' _ hI hok hcall =>
      filed_and_tallied_step hI hok.1 hok.2.1 hok.2.2 hcall
  exact conserves_of_tallied hI.1 hI.2

/-- A balance of ten days. -/
def sampleSeeds : List (BalanceKey × ℚ) := [(⟨1, "LOC1", "ANNUAL"⟩, 10)]

/-- A deduction that is repeated, another one without a key, and two reversals
    of the first one. -/
def sampleCalls : List HcmCall :=
  [.deductBalance ⟨1, "LOC1", "ANNUAL"⟩ 4.5 (some "outbox-0") 0,
    .deductBalance ⟨1, "LOC1", "ANNUAL"⟩ 4.5 (some "outbox-0") 1,
    .deductBalance ⟨1, "LOC1", "ANNUAL"⟩ 3 none 2,
    .reverseDeduction "hcm-1-0", .reverseDeduction "hcm-1-0"]

/-- Of ten days three are taken; four and a half have been taken and given back.
    -/
theorem hcm_conserves_sample : ∃ hcm, Conserves binary64 sampleSeeds
    (trace (call binary64) (seeded sampleSeeds) sampleCalls) hcm ∧
      (hcm.balances "1:LOC1:ANNUAL").any (·.totalDays = 7) := by
  have hexec : ∃ hcm ∈ exec (call binary64) (seeded sampleSeeds) sampleCalls,
      (hcm.balances "1:LOC1:ANNUAL").any (·.totalDays = 7) := by decide +kernel
  obtain ⟨hcm, hexec, hleft⟩ := hexec
  have hok : ∀ x ∈ trace (call binary64) (seeded sampleSeeds) sampleCalls,
      x.2.Valid ∧ x.2.Sound x.1 ∧ x.2.Exact binary64 x.1 := by decide +kernel
  exact ⟨hcm, hcm_conserves (by decide +kernel) (by decide +kernel) (run_of_exec hok hexec), hleft⟩

/-- On half days every call is exact. -/
theorem exact_of_fits (hbalances : ∀ K b, hcm.balances K = some b → Fits 1 52 b.totalDays)
    (hdeductions : ∀ k d, hcm.deductions k = some d → Fits 1 52 d.days) :
    (Fits 1 52 days → (HcmCall.deductBalance key days idempotencyKey now).Exact binary64 hcm) ∧
      (HcmCall.reverseDeduction id).Exact binary64 hcm := by
  refine ⟨fun hdays _ b hb _ => ?_, fun k _ d hd b hb => ?_⟩
  · exact ((hbalances _ b hb).sub hdays).binary64 (by decide) le_rfl
  · exact ((hbalances _ b hb).add (hdeductions k d hd)).binary64 (by decide) le_rfl

/-! ## Days that are lost -/

/-- What is left on a balance, where days are conserved. -/
theorem Conserves.left (hc : Conserves round seeds hist hcm) {s : BalanceKey × ℚ} (hs : s ∈ seeds) :
    (hcm.balances s.1.hcmKey).map (·.totalDays) =
      some (s.2 - outstandingDays (made round hist) (reversed round hist) s.1) := by
  obtain ⟨balance, hb, htotal, _⟩ := hc.total s hs
  rw [getBalance] at hb
  split at hb
  · next b hget =>
    obtain rfl := Except.ok.inj hb
    rw [hget, Option.map_some, htotal]
  · cases hb

/-- Calls after which days are not conserved. -/
def Unconserved (seeds : List (BalanceKey × ℚ)) (calls : List HcmCall) : Prop :=
  ∃ hcm, Run (call binary64) (fun _ c => c.Valid) (seeded seeds)
      (trace (call binary64) (seeded seeds) calls) hcm ∧
    ¬Conserves binary64 seeds (trace (call binary64) (seeded seeds) calls) hcm

/-- They are not, if something else is left. -/
theorem unconserved_of_left {s : BalanceKey × ℚ} {calls : List HcmCall} {q : ℚ}
    (hs : s ∈ seeds) (hvalid : ∀ c ∈ calls, c.Valid)
    (hexec : ∃ hcm ∈ exec (call binary64) (seeded seeds) calls,
      (hcm.balances s.1.hcmKey).map (·.totalDays) = some q)
    (hne : q ≠ s.2 - outstandingDays (made binary64 (trace (call binary64) (seeded seeds) calls))
      (reversed binary64 (trace (call binary64) (seeded seeds) calls)) s.1) :
    Unconserved seeds calls := by
  obtain ⟨hcm, hrun, hleft⟩ := exists_run_of_exec (p := HcmCall.Valid) hvalid hexec
  exact ⟨hcm, hrun, fun hc => hne (Option.some.inj (hleft.symm.trans (hc.left hs)))⟩

/-- Days are lost by the reversal of a deduction without a key, and where two
    triples have the same joined key; with an empty key, a deduction is made
    again; and a tenth of a day is rounded. -/
theorem hcm_loses_days :
    Unconserved sampleSeeds
      [.deductBalance ⟨1, "LOC1", "ANNUAL"⟩ 4 none 0, .reverseDeduction "hcm-1-0"] ∧
    Unconserved [(⟨1, "A:B", "C"⟩, 10), (⟨1, "A", "B:C"⟩, 5)] [] ∧
    Unconserved sampleSeeds [.deductBalance ⟨1, "LOC1", "ANNUAL"⟩ 4 (some "") 0] ∧
    Unconserved sampleSeeds
      [.deductBalance ⟨1, "LOC1", "ANNUAL"⟩ (binary64 0.1) (some "outbox-0") 0] := by
  refine ⟨?_, ?_, ?_, ?_⟩
  · exact unconserved_of_left (q := 6) List.mem_cons_self (by decide) (by decide +kernel)
      (by decide +kernel)
  · exact unconserved_of_left (q := 5) List.mem_cons_self (by decide) (by decide +kernel)
      (by decide +kernel)
  · have hexec : ∃ hcm ∈ exec (call binary64) (seeded sampleSeeds)
        [.deductBalance ⟨1, "LOC1", "ANNUAL"⟩ 4 (some "") 0],
        ∃ d ∈ made binary64 (trace (call binary64) (seeded sampleSeeds)
          [.deductBalance ⟨1, "LOC1", "ANNUAL"⟩ 4 (some "") 0]),
          d.idempotencyKey = some "" ∧
          ((hcm.deductBalance ⟨1, "LOC1", "ANNUAL"⟩ 4 (some "") 1 binary64).toOption.map
            Prod.fst) ≠ some d.hcmRequestId := by decide +kernel
    obtain ⟨hcm, hrun, d, hd, hk, hnew⟩ :=
      exists_run_of_exec (p := HcmCall.Valid) (by decide) hexec
    refine ⟨hcm, hrun, fun hc => hnew ?_⟩
    rw [hc.repeated d hd List.not_mem_nil "" hk]
    rfl
  · exact unconserved_of_left (q := binary64 (10 - binary64 0.1)) List.mem_cons_self
      (by decide +kernel) (by decide +kernel) (by decide +kernel)

end TimeOff
