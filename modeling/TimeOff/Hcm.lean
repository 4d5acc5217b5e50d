import Mathlib.Algebra.Order.Field.Rat
import Mathlib.Logic.Function.Basic
import TimeOff.Entities

/-!
# The HCM

The store of the HCM and the operations on it that the service calls, as
`HcmState` and `HcmService` of the mock HCM have them: balances by a key that
joins employee, location and leave type; the live deductions by idempotency
key; and an index from the id of a deduction to its idempotency key. A reversal
forgets both, so the same key deducts again afterwards.

The version of a balance is a decimal counter, here a number. Sums and
differences of days may be rounded; they are exact by default.
-/

namespace TimeOff

/-- `BalanceRecord` -/
structure BalanceRecord extends BalanceKey where
  totalDays : ℚ
  hcmVersion : ℕ

/-- `DeductionRecord` -/
structure DeductionRecord extends BalanceKey where
  days : ℚ
  hcmRequestId : String

/-- `HcmState`, with its maps as partial functions. -/
structure HcmState where
  balances : String → Option BalanceRecord
  deductions : String → Option DeductionRecord
  requestIndex : String → Option String
  requestCounter : ℕ

/-- The errors of `HcmService`: 404 and 422. -/
inductive HcmError
  | notFound (message : String)
  | unprocessable (message : String)
  deriving DecidableEq

/-- `balanceKey` -/
def BalanceKey.hcmKey (k : BalanceKey) : String :=
  s!"{k.employeeId}:{k.locationId}:{k.leaveType}"

namespace HcmState

/-- `nextRequestId`, for the next value of the counter. -/
def nextRequestId (hcm : HcmState) (now : Instant) : String :=
  s!"hcm-{hcm.requestCounter + 1}-{now}"

/-- `getBalance` -/
def getBalance (hcm : HcmState) (key : BalanceKey) : Except HcmError BalanceRecord :=
  match hcm.balances key.hcmKey with
  | some record => .ok record
  | none => .error (.notFound "Balance not found")

/-- `seedBalance` -/
def seedBalance (hcm : HcmState) (key : BalanceKey) (totalDays : ℚ) : HcmState :=
  { hcm with
    balances := Function.update hcm.balances key.hcmKey
      (some { key with totalDays := totalDays, hcmVersion := 1 }) }

/-- A string as a condition: neither absent nor empty. -/
def truthy (s : Option String) : Option String := s.filter (· ≠ "")

/-- What a new deduction writes. -/
def deduct (hcm : HcmState) (key : BalanceKey) (days : ℚ) (balance : BalanceRecord)
    (idempotencyKey : Option String) (now : Instant) (round : ℚ → ℚ := id) : HcmState where
  balances := Function.update hcm.balances key.hcmKey (some { balance with
    totalDays := round (balance.totalDays - days)
    hcmVersion := balance.hcmVersion + 1 })
  deductions :=
    match truthy idempotencyKey with
    | some k => Function.update hcm.deductions k
        (some { key with days := days, hcmRequestId := hcm.nextRequestId now })
    | none => hcm.deductions
  requestIndex := Function.update hcm.requestIndex (hcm.nextRequestId now)
    (some (idempotencyKey.getD (hcm.nextRequestId now)))
  requestCounter := hcm.requestCounter + 1

/-- `deductBalance`: the id of the deduction, and the state after it. -/
def deductBalance (hcm : HcmState) (key : BalanceKey) (days : ℚ)
    (idempotencyKey : Option String) (now : Instant) (round : ℚ → ℚ := id) :
    Except HcmError (String × HcmState) :=
  match (truthy idempotencyKey).bind hcm.deductions with
  | some existing => .ok (existing.hcmRequestId, hcm)
  | none =>
    match hcm.balances key.hcmKey with
    | none => .error (.notFound "Balance not found")
    | some balance =>
      if balance.totalDays < days then .error (.unprocessable "Insufficient balance")
      else .ok (hcm.nextRequestId now, hcm.deduct key days balance idempotencyKey now round)

/-- What the reversal of a live deduction restores. -/
def restore (hcm : HcmState) (deduction : DeductionRecord) (balance : BalanceRecord)
    (round : ℚ → ℚ := id) : HcmState :=
  { hcm with
    balances := Function.update hcm.balances deduction.hcmKey (some { balance with
      totalDays := round (balance.totalDays + deduction.days)
      hcmVersion := balance.hcmVersion + 1 }) }

/-- What a reversal forgets. -/
def forget (hcm : HcmState) (idemKey hcmRequestId : String) : HcmState :=
  { hcm with
    deductions := Function.update hcm.deductions idemKey none
    requestIndex := Function.update hcm.requestIndex hcmRequestId none }

/-- `reverseDeduction` -/
def reverseDeduction (hcm : HcmState) (hcmRequestId : String) (round : ℚ → ℚ := id) :
    Except HcmError HcmState :=
  match truthy (hcm.requestIndex hcmRequestId) with
  | none => .error (.notFound "HCM request not found")
  | some idemKey =>
    match hcm.deductions idemKey with
    | none => .ok (hcm.forget idemKey hcmRequestId)
    | some deduction =>
      match hcm.balances deduction.hcmKey with
      | none => .error (.notFound "Balance not found")
      | some balance => .ok ((hcm.restore deduction balance round).forget idemKey hcmRequestId)

/-! ## What they do -/

variable {hcm hcm' : HcmState} {key : BalanceKey} {days : ℚ} {k h : String} {now : Instant}
  {round : ℚ → ℚ}

theorem truthy_some (hk : k ≠ "") : truthy (some k) = some k := by
  rw [truthy, Option.filter_some, if_pos (by simpa using hk)]

theorem truthy_eq_some {o : Option String} : truthy o = some k ↔ o = some k ∧ k ≠ "" := by
  rw [truthy, Option.filter_eq_some_iff, decide_eq_true_eq]

/-- A deduction that succeeds is live already, or is made now, from a balance
    that covers it. -/
theorem deductBalance_eq_ok {idempotencyKey : Option String}
    (hd : hcm.deductBalance key days idempotencyKey now round = .ok (h, hcm')) :
    (∃ d, (truthy idempotencyKey).bind hcm.deductions = some d ∧ h = d.hcmRequestId ∧
      hcm' = hcm) ∨
      ((truthy idempotencyKey).bind hcm.deductions = none ∧
        ∃ balance, hcm.balances key.hcmKey = some balance ∧
          days ≤ balance.totalDays ∧ h = hcm.nextRequestId now ∧
          hcm' = hcm.deduct key days balance idempotencyKey now round) := by
  rw [deductBalance] at hd
  split at hd
  · next existing hlive =>
    obtain ⟨rfl, rfl⟩ := Prod.mk.inj (Except.ok.inj hd)
    exact .inl ⟨existing, hlive, rfl, rfl⟩
  · next hnone =>
    split at hd
    · cases hd
    · next balance hbal =>
      split at hd
      · cases hd
      · next hlt =>
        obtain ⟨rfl, rfl⟩ := Prod.mk.inj (Except.ok.inj hd)
        exact .inr ⟨hnone, balance, hbal, not_lt.1 hlt, rfl, rfl⟩

/-- A deduction with a key is answered with the one that is live, or made. -/
theorem deductBalance_ok (hk : k ≠ "")
    (hd : hcm.deductBalance key days (some k) now = .ok (h, hcm')) :
    (∃ d, hcm.deductions k = some d ∧ h = d.hcmRequestId ∧ hcm' = hcm) ∨
      (hcm.deductions k = none ∧ ∃ balance, hcm.balances key.hcmKey = some balance ∧
        days ≤ balance.totalDays ∧ h = hcm.nextRequestId now ∧
        hcm' = hcm.deduct key days balance (some k) now) := by
  have hcases := deductBalance_eq_ok hd
  rwa [truthy_some hk, Option.bind_some] at hcases

/-- A deduction that is not live is refused if the balance does not cover it. -/
theorem deductBalance_refused_iff {balance : BalanceRecord} (hk : k ≠ "")
    (hnone : hcm.deductions k = none) (hbal : hcm.balances key.hcmKey = some balance) :
    (∃ message, hcm.deductBalance key days (some k) now = .error (.unprocessable message)) ↔
      balance.totalDays < days := by
  rw [deductBalance, truthy_some hk, Option.bind_some, hnone]
  simp only [hbal]
  split
  · next hlt => exact iff_of_true ⟨_, rfl⟩ hlt
  · next hle => exact iff_of_false (fun ⟨_, hr⟩ => by cases hr) hle

section
variable (balance : BalanceRecord) (d : DeductionRecord)

theorem deductions_deduct (hk : k ≠ "") :
    (hcm.deduct key days balance (some k) now round).deductions = Function.update hcm.deductions k
      (some { key with days := days, hcmRequestId := hcm.nextRequestId now }) := by
  rw [deduct, truthy_some hk]

@[simp] theorem requestIndex_deduct :
    (hcm.deduct key days balance (some k) now).requestIndex =
      Function.update hcm.requestIndex (hcm.nextRequestId now) (some k) := rfl

@[simp] theorem balances_deduct {idempotencyKey : Option String} :
    (hcm.deduct key days balance idempotencyKey now).balances =
      Function.update hcm.balances key.hcmKey (some { balance with
        totalDays := balance.totalDays - days
        hcmVersion := balance.hcmVersion + 1 }) := rfl

@[simp] theorem deductions_reversed : ((hcm.restore d balance round).forget k h).deductions =
    Function.update hcm.deductions k none := rfl

@[simp] theorem requestIndex_reversed : ((hcm.restore d balance round).forget k h).requestIndex =
    Function.update hcm.requestIndex h none := rfl

@[simp] theorem balances_reversed : ((hcm.restore d balance).forget k h).balances =
    Function.update hcm.balances d.hcmKey (some { balance with
      totalDays := balance.totalDays + d.days
      hcmVersion := balance.hcmVersion + 1 }) := rfl

end

/-- A reversal that succeeds has found the id in the index, and forgets it. -/
theorem reverseDeduction_ok (hr : hcm.reverseDeduction h round = .ok hcm') :
    ∃ k, hcm.requestIndex h = some k ∧
      ((hcm.deductions k = none ∧ hcm' = hcm.forget k h) ∨
      ∃ d balance, hcm.deductions k = some d ∧ hcm.balances d.hcmKey = some balance ∧
        hcm' = (hcm.restore d balance round).forget k h) := by
  rw [reverseDeduction] at hr
  split at hr
  · cases hr
  · next k hidx =>
    refine ⟨k, (truthy_eq_some.1 hidx).1, ?_⟩
    split at hr
    · next hnone => exact .inl ⟨hnone, (Except.ok.inj hr).symm⟩
    · next d hsome =>
      split at hr
      · cases hr
      · next balance hbal => exact .inr ⟨d, balance, hsome, hbal, (Except.ok.inj hr).symm⟩

end HcmState

/-! ## Ids -/

/-- The idempotency key of an outbox event. -/
def idempotencyKey (eventId : ℕ) : String := s!"outbox-{eventId}"

theorem toDigits_injective : Function.Injective (Nat.toDigits 10) := fun a b h => by
  have hval := congrArg (fun ds => Nat.ofDigitChars 10 ds 0) h
  simpa using hval

theorem toList_toString (n : ℕ) : (toString n).toList = Nat.toDigits 10 n := Nat.toList_repr

/-- Events have keys of their own. -/
theorem idempotencyKey_injective : Function.Injective idempotencyKey := fun a b h => by
  have hlist := congrArg String.toList h
  rw [idempotencyKey, idempotencyKey, String.toList_append, String.toList_append] at hlist
  have hdigits := List.append_cancel_left hlist
  rw [toList_toString, toList_toString] at hdigits
  exact toDigits_injective hdigits

theorem idempotencyKey_ne_empty (eventId : ℕ) : idempotencyKey eventId ≠ "" := by
  simp [idempotencyKey]

/-- The ids that a counter up to `n` has given out. -/
def Issued (n : ℕ) (h : String) : Prop := ∃ c t, c ≤ n ∧ h = s!"hcm-{c}-{(t : Instant)}"

theorem Issued.mono {n m : ℕ} {h : String} (hi : Issued n h) (hle : n ≤ m) : Issued m h := by
  obtain ⟨c, t, hc, rfl⟩ := hi
  exact ⟨c, t, hc.trans hle, rfl⟩

/-- The counter can be read off an id: its digits end at the next dash. -/
theorem requestId_inj {a b : ℕ} {t u : Instant} (h : s!"hcm-{a}-{t}" = s!"hcm-{b}-{u}") :
    a = b := by
  have hdash : ∀ (n : ℕ) (l : List Char),
      (Nat.toDigits 10 n ++ ('-' :: l)).takeWhile Char.isDigit = Nat.toDigits 10 n := by
    intro n l
    rw [List.takeWhile_append_of_pos fun c hc =>
        Nat.isDigit_of_mem_toDigits (by omega) (by omega) hc,
      List.takeWhile_cons_of_neg (by decide), List.append_nil]
  have hsep : (toString "-").toList = ['-'] := by decide
  have hlist := congrArg String.toList h
  simp only [String.toList_append, List.append_assoc] at hlist
  have hrest := List.append_cancel_left hlist
  rw [hsep, toList_toString, toList_toString] at hrest
  have hdigits := congrArg (List.takeWhile Char.isDigit) hrest
  rw [List.singleton_append, List.singleton_append, hdash, hdash] at hdigits
  exact toDigits_injective hdigits

/-- A new id differs from all that have been given out. -/
theorem HcmState.nextRequestId_not_issued (hcm : HcmState) (now : Instant) :
    ¬Issued hcm.requestCounter (hcm.nextRequestId now) := by
  rintro ⟨c, t, hc, h⟩
  have := requestId_inj h
  omega

theorem HcmState.nextRequestId_issued (hcm : HcmState) (now : Instant) :
    Issued (hcm.requestCounter + 1) (hcm.nextRequestId now) :=
  ⟨_, now, le_rfl, rfl⟩

/-! ## The index of the live deductions -/

namespace HcmState

/-- The index leads to the live deductions, and to nothing else: a deduction
    that is live can be reversed. -/
structure WellFormed (hcm : HcmState) : Prop where
  key : ∀ k d, hcm.deductions k = some d → k ≠ ""
  indexed : ∀ k d, hcm.deductions k = some d → hcm.requestIndex d.hcmRequestId = some k
  issued : ∀ k d, hcm.deductions k = some d → Issued hcm.requestCounter d.hcmRequestId
  covered : ∀ k d, hcm.deductions k = some d → ∃ b, hcm.balances d.hcmKey = some b
  live : ∀ h k, hcm.requestIndex h = some k → ∃ d, hcm.deductions k = some d ∧ d.hcmRequestId = h

namespace WellFormed

variable {hcm hcm' : HcmState} {key : BalanceKey} {days : ℚ} {k h : String} {now : Instant}
  {balance : BalanceRecord} {d : DeductionRecord}

/-- Without deductions there is nothing to index. -/
theorem of_empty (hdeductions : ∀ k, hcm.deductions k = none)
    (hindex : ∀ h, hcm.requestIndex h = none) : hcm.WellFormed := by
  have hno : ∀ k d, hcm.deductions k ≠ some d := fun k d hd => by
    rw [hdeductions] at hd
    cases hd
  refine ⟨fun k d hd => absurd hd (hno k d), fun k d hd => absurd hd (hno k d),
    fun k d hd => absurd hd (hno k d), fun k d hd => absurd hd (hno k d), fun h k hh => ?_⟩
  rw [hindex] at hh
  cases hh

/-- The key of a live deduction is determined by its id. -/
theorem key_unique (hwf : hcm.WellFormed) {k' : String} {d' : DeductionRecord}
    (hd : hcm.deductions k = some d) (hd' : hcm.deductions k' = some d')
    (hid : d.hcmRequestId = d'.hcmRequestId) : k = k' := by
  have hk := hwf.indexed k d hd
  rw [hid, hwf.indexed k' d' hd'] at hk
  exact (Option.some.inj hk).symm

/-- A new deduction is indexed by an id that no other one has. -/
theorem deduct (hwf : hcm.WellFormed) (hk : k ≠ "") (hnone : hcm.deductions k = none)
    (balance : BalanceRecord) :
    (hcm.deduct key days balance (some k) now).WellFormed := by
  -- The counter goes into the id.
  have hnew : ∀ j d, hcm.deductions j = some d → d.hcmRequestId ≠ hcm.nextRequestId now :=
    fun j d hd heq => hcm.nextRequestId_not_issued now (heq ▸ hwf.issued j d hd)
  -- A deduction of the new state is one that was live, under another key, or the new one.
  have hcases : ∀ j d, (hcm.deduct key days balance (some k) now).deductions j = some d →
      (j ≠ k ∧ hcm.deductions j = some d) ∨
      (j = k ∧ d = { key with days := days, hcmRequestId := hcm.nextRequestId now }) := by
    intro j d hd
    rw [deductions_deduct _ hk, PartialMap.set_eq_some] at hd
    rcases hd with ⟨hj, hd⟩ | ⟨hj, hd⟩
    · exact .inr ⟨hj, hd.symm⟩
    · exact .inl ⟨hj, hd⟩
  refine ⟨fun j d hd => ?_, fun j d hd => ?_, fun j d hd => ?_, fun j d hd => ?_,
    fun h j hh => ?_⟩
  · rcases hcases j d hd with ⟨_, hd⟩ | ⟨rfl, _⟩
    · exact hwf.key j d hd
    · exact hk
  · rcases hcases j d hd with ⟨_, hd⟩ | ⟨rfl, rfl⟩
    · rw [requestIndex_deduct, Function.update_of_ne (hnew j d hd)]
      exact hwf.indexed j d hd
    · rw [requestIndex_deduct, Function.update_self]
  · rcases hcases j d hd with ⟨_, hd⟩ | ⟨rfl, rfl⟩
    · exact (hwf.issued j d hd).mono (Nat.le_succ _)
    · exact hcm.nextRequestId_issued now
  · rw [balances_deduct, Function.update_apply]
    split
    · exact ⟨_, rfl⟩
    · next hne =>
      rcases hcases j d hd with ⟨_, hd⟩ | ⟨rfl, rfl⟩
      · exact hwf.covered j d hd
      · exact absurd rfl hne
  · rw [requestIndex_deduct, PartialMap.set_eq_some] at hh
    rw [deductions_deduct _ hk]
    rcases hh with ⟨hid, rfl⟩ | ⟨_, hh⟩
    · exact ⟨_, Function.update_self .., hid.symm⟩
    · obtain ⟨d, hd, hid⟩ := hwf.live h j hh
      refine ⟨d, ?_, hid⟩
      rw [Function.update_of_ne, hd]
      rintro rfl
      rw [hnone] at hd
      cases hd

/-- A deduction is reversed with its index entry. -/
theorem reversed (hwf : hcm.WellFormed) (hd : hcm.deductions k = some d)
    (balance : BalanceRecord) :
    ((hcm.restore d balance).forget k d.hcmRequestId).WellFormed := by
  have hcases : ∀ j c, ((hcm.restore d balance).forget k d.hcmRequestId).deductions j = some c →
      j ≠ k ∧ hcm.deductions j = some c := by
    intro j c hc
    rwa [deductions_reversed, PartialMap.unset_eq_some] at hc
  refine ⟨fun j c hc => hwf.key j c (hcases j c hc).2, fun j c hc => ?_,
    fun j c hc => hwf.issued j c (hcases j c hc).2, fun j c hc => ?_, fun h j hh => ?_⟩
  · obtain ⟨hj, hc⟩ := hcases j c hc
    rw [requestIndex_reversed, Function.update_of_ne fun hid => hj (hwf.key_unique hc hd hid)]
    exact hwf.indexed j c hc
  · rw [balances_reversed, Function.update_apply]
    split
    · exact ⟨_, rfl⟩
    · exact hwf.covered j c (hcases j c hc).2
  · rw [requestIndex_reversed, PartialMap.unset_eq_some] at hh
    obtain ⟨hid, hh⟩ := hh
    obtain ⟨c, hc, rfl⟩ := hwf.live h j hh
    refine ⟨c, ?_, rfl⟩
    rw [deductions_reversed, Function.update_of_ne, hc]
    rintro rfl
    exact hid (congrArg _ (Option.some.inj (hc.symm.trans hd)))

/-- A reversal that succeeds has found a live deduction with this id. -/
theorem reverseDeduction_ok (hwf : hcm.WellFormed) (hr : hcm.reverseDeduction h = .ok hcm') :
    ∃ k d balance, hcm.deductions k = some d ∧ d.hcmRequestId = h ∧
      hcm.balances d.hcmKey = some balance ∧ hcm' = (hcm.restore d balance).forget k h := by
  obtain ⟨k, hindex, ⟨hnone, _⟩ | ⟨d, balance, hd, hb, hhcm⟩⟩ := HcmState.reverseDeduction_ok hr
  · obtain ⟨d, hd, _⟩ := hwf.live h k hindex
    rw [hnone] at hd
    cases hd
  · obtain ⟨d', hd', hid⟩ := hwf.live h k hindex
    obtain rfl := Option.some.inj (hd.symm.trans hd')
    exact ⟨k, d, balance, hd, hid, hb, hhcm⟩

/-- A reversal that fails has not found the id: the 404 for a balance that is
    missing does not come up. -/
theorem reverseDeduction_error (hwf : hcm.WellFormed) {e : HcmError}
    (hr : hcm.reverseDeduction h = .error e) : hcm.requestIndex h = none := by
  rw [Option.eq_none_iff_forall_ne_some]
  intro k hindex
  obtain ⟨d, hd, rfl⟩ := hwf.live h k hindex
  obtain ⟨balance, hb⟩ := hwf.covered k d hd
  rw [reverseDeduction, hindex, truthy_some (hwf.key k d hd)] at hr
  simp only [hd, hb] at hr
  cases hr

end WellFormed

end HcmState

end TimeOff
