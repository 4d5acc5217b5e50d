import Mathlib.Algebra.Order.Ring.Abs
import Mathlib.Data.Rat.Floor
import Mathlib.Tactic.FieldSimp

/-!
# Rounding

Doubles as rational numbers. What an operation on doubles gives is the exact
result, rounded to a double (`binary64`): to the nearest multiple of the
`spacing` of the doubles around it and, of two that are equally near, to the
even one.

Sums and differences of multiples of the same power of two are such multiples,
and all of these are doubles that have no more than 53 bits (`Fits.binary64`). So
nothing is rounded where whole numbers are added, or halves. There are no
infinities here: a number is never too large.
-/

namespace Rounding

/-- The nearest whole number, and of two the even one. -/
def roundHalfEven (x : ℚ) : ℤ :=
  if x - ⌊x⌋ < 1 / 2 ∨ (x - ⌊x⌋ = 1 / 2 ∧ Even ⌊x⌋) then ⌊x⌋ else ⌊x⌋ + 1

/-- All doubles are multiples of `1 / scale`. -/
def scale : ℕ := 2 ^ 1074

/-- How far apart the doubles are around `n / scale`, in the same unit: they
    have 53 significant bits. -/
def spacing (n : ℕ) : ℕ := 2 ^ (n.log2 - 52)

/-- The double next to a number. -/
def binary64 (x : ℚ) : ℚ :=
  let s := spacing ⌊|x| * scale⌋₊
  roundHalfEven (x * scale / s) * s / scale

theorem scale_ne_zero : (scale : ℚ) ≠ 0 := by
  rw [scale, Nat.cast_pow]
  exact pow_ne_zero _ (Nat.cast_ne_zero.2 two_ne_zero)

theorem roundHalfEven_intCast (n : ℤ) : roundHalfEven n = n := by
  rw [roundHalfEven, Int.floor_intCast, sub_self, if_pos (.inl (by norm_num))]

/-- Numbers of at most 53 bits, shifted, are multiples of their spacing. -/
theorem spacing_dvd {n j : ℕ} (hn : n < 2 ^ 53) : spacing (n * 2 ^ j) ∣ 2 ^ j := by
  refine pow_dvd_pow 2 (Nat.sub_le_iff_le_add'.2 ?_)
  rcases Nat.eq_zero_or_pos n with rfl | hpos
  · rw [Nat.zero_mul, Nat.log2_zero]
    exact Nat.zero_le _
  · have hlt : n * 2 ^ j < 2 ^ (53 + j) := by
      rw [pow_add]
      exact Nat.mul_lt_mul_of_pos_right hn (Nat.two_pow_pos j)
    have hlog := (Nat.log2_lt (Nat.mul_pos hpos (Nat.two_pow_pos j)).ne').2 hlt
    omega

/-- A multiple of the spacing is not rounded. -/
theorem binary64_eq_self {x : ℚ} {n : ℤ} (hx : x * scale = n * spacing ⌊|x| * scale⌋₊) :
    binary64 x = x := by
  have hspacing : (spacing ⌊|x| * scale⌋₊ : ℚ) ≠ 0 :=
    Nat.cast_ne_zero.2 (Nat.two_pow_pos _).ne'
  rw [binary64, hx, mul_div_cancel_right₀ _ hspacing, roundHalfEven_intCast, ← hx,
    mul_div_cancel_right₀ _ scale_ne_zero]

/-- Multiples of a power of two with 53 bits are not rounded. -/
theorem binary64_div_two_pow {n : ℤ} {k : ℕ} (hn : n.natAbs < 2 ^ 53) (hk : k ≤ 1074) :
    binary64 (n / 2 ^ k) = n / 2 ^ k := by
  have hpow : (2 : ℚ) ^ k ≠ 0 := pow_ne_zero k two_ne_zero
  have hscale : (scale : ℚ) = 2 ^ (1074 - k) * 2 ^ k := by
    rw [← pow_add, Nat.sub_add_cancel hk, scale, Nat.cast_pow, Nat.cast_ofNat]
  have habs : |(n / 2 ^ k : ℚ)| * scale = ((n.natAbs * 2 ^ (1074 - k) : ℕ) : ℚ) := by
    rw [hscale, abs_div, abs_pow, abs_two, Nat.cast_mul, Nat.cast_natAbs, Int.cast_abs,
      Nat.cast_pow, Nat.cast_ofNat]
    field_simp
  obtain ⟨m, hm⟩ := spacing_dvd (j := 1074 - k) hn
  refine binary64_eq_self (n := n * m) ?_
  rw [habs, Nat.floor_natCast, hscale, Int.cast_mul, Int.cast_natCast, mul_assoc, ← Nat.cast_mul,
    mul_comm m, ← hm]
  field_simp
  push_cast
  ring

example : binary64 (binary64 (14 / 10) - binary64 (4 / 10)) < 1 := by decide +kernel

/-- A multiple of `1 / 2 ^ k` with `m` bits. -/
def Fits (k m : ℕ) (x : ℚ) : Prop := ∃ n : ℤ, n.natAbs < 2 ^ m ∧ x = n / 2 ^ k

namespace Fits

variable {k m : ℕ} {x y : ℚ}

theorem binary64 (hx : Fits k m x) (hk : k ≤ 1074) (hm : m ≤ 53) :
    Rounding.binary64 x = x := by
  obtain ⟨n, hn, rfl⟩ := hx
  exact binary64_div_two_pow (hn.trans_le (Nat.pow_le_pow_right two_pos hm)) hk

theorem mono (hx : Fits k m x) : Fits k (m + 1) x := by
  obtain ⟨n, hn, rfl⟩ := hx
  exact ⟨n, hn.trans (Nat.pow_lt_pow_succ one_lt_two), rfl⟩

/-- A sum needs one bit more. -/
theorem add (hx : Fits k m x) (hy : Fits k m y) : Fits k (m + 1) (x + y) := by
  obtain ⟨n, hn, rfl⟩ := hx
  obtain ⟨l, hl, rfl⟩ := hy
  refine ⟨n + l, ?_, by rw [Int.cast_add, add_div]⟩
  have hle := Int.natAbs_add_le n l
  rw [pow_succ]
  omega

theorem neg (hx : Fits k m x) : Fits k m (-x) := by
  obtain ⟨n, hn, rfl⟩ := hx
  exact ⟨-n, by rwa [Int.natAbs_neg], by rw [Int.cast_neg, neg_div]⟩

theorem sub (hx : Fits k m x) (hy : Fits k m y) : Fits k (m + 1) (x - y) :=
  sub_eq_add_neg x y ▸ hx.add hy.neg

end Fits

end Rounding
