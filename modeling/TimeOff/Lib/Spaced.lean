import Mathlib.Data.Int.Init
import Mathlib.Data.List.Basic

/-!
# Times that are spaced

The times `ts` of something that happens again and again, where the next time
is at least `gap n` after the `n`th (`Spaced`). The first and the last of them
are at least as far apart as all the gaps together (`Spaced.span`).
-/

/-- Between the `n`th time and the next, counted from `1`, there is a gap of
    `gap n` at least. -/
def Spaced (gap : ℕ → ℤ) (ts : List ℤ) : Prop :=
  ∀ n t t', ts[n]? = some t → ts[n + 1]? = some t' → t + gap (n + 1) ≤ t'

/-- The first `n` gaps together. -/
def totalGap (gap : ℕ → ℤ) : ℕ → ℤ
  | 0 => 0
  | n + 1 => totalGap gap n + gap (n + 1)

namespace Spaced

variable {gap : ℕ → ℤ} {ts : List ℤ} {t t' u : ℤ} {n : ℕ}

theorem nil : Spaced gap [] := by
  intro n t t' ht
  cases ht

/-- One more time, that keeps its distance to the last. -/
theorem snoc (h : Spaced gap ts) (hu : ∀ t ∈ ts.getLast?, t + gap ts.length ≤ u) :
    Spaced gap (ts ++ [u]) := by
  intro n t t' ht ht'
  have hlt : n < ts.length := by
    have hlen := (List.getElem?_eq_some_iff.1 ht').1
    rw [List.length_append, List.length_singleton] at hlen
    omega
  rw [List.getElem?_append_left hlt] at ht
  by_cases hnext : n + 1 < ts.length
  · rw [List.getElem?_append_left hnext] at ht'
    exact h n t t' ht ht'
  · -- The `n`th time has been the last one.
    have hlast : ts.length = n + 1 := by omega
    have hmem : ts.getLast? = some t := by
      rw [List.getLast?_eq_getElem?, hlast, Nat.add_sub_cancel, ht]
    rw [List.getElem?_append_right (by omega), hlast, Nat.sub_self] at ht'
    obtain rfl : u = t' := Option.some.inj ht'
    rw [← hlast]
    exact hu t hmem

/-- From the first time to a later one, all the gaps between have passed. -/
theorem span (h : Spaced gap ts) (ht : ts[0]? = some t) (ht' : ts[n]? = some t') :
    t + totalGap gap n ≤ t' := by
  induction n generalizing t' with
  | zero =>
    obtain rfl := Option.some.inj (ht.symm.trans ht')
    rw [totalGap]
    omega
  | succ n ih =>
    have hlt : n < ts.length := Nat.lt_of_succ_lt (List.getElem?_eq_some_iff.1 ht').1
    have hgap := h n ts[n] t' (List.getElem?_eq_getElem hlt) ht'
    have hspan := ih (List.getElem?_eq_getElem hlt)
    rw [totalGap]
    omega

end Spaced
