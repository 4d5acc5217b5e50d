import Mathlib.Data.Nat.Basic

/-!
# Work that drains

A service works in rounds on items that each need a number of turns. A round
gives turns to `capacity` items, or to all of them if there are fewer, and no
item is added. It does not matter which items it chooses: a round that does not
get to all items takes `capacity` off the turns that are needed in total
(`work`), and one that does takes one off what any item needs (`within`). So
there is nothing left to do after `work / capacity` rounds and as many as an
item needs at most (`Drains.drained`).
-/

/-- The rounds `next`, with the parameters that meet `ok`, drain the work: from
    states that satisfy `I`, of which `within n` says that every item needs at
    most `n` turns. -/
structure Drains {σ α : Type*} (next : σ → α → σ) (ok : α → Prop) (I : σ → Prop)
    (work : σ → ℕ) (within : ℕ → σ → Prop) (capacity : ℕ) : Prop where
  keeps : ∀ s a, I s → ok a → I (next s a)
  idle : ∀ s a, I s → ok a → within 0 s → within 0 (next s a)
  round : ∀ n s a, I s → ok a → within (n + 1) s →
    (within (n + 1) (next s a) ∧ work (next s a) + capacity ≤ work s) ∨
      (within n (next s a) ∧ work (next s a) ≤ work s)

namespace Drains

variable {σ α : Type*} {next : σ → α → σ} {ok : α → Prop} {I : σ → Prop} {work : σ → ℕ}
  {within : ℕ → σ → Prop} {capacity n : ℕ} {s : σ} {rounds : List α}

/-- The invariant holds after any rounds that are fit. -/
theorem invariant (h : Drains next ok I work within capacity) (hs : I s)
    (hok : ∀ a ∈ rounds, ok a) : I (rounds.foldl next s) := by
  induction rounds generalizing s with
  | nil => exact hs
  | cons a rounds ih =>
    exact ih (h.keeps s a hs (hok a List.mem_cons_self))
      fun b hb => hok b (List.mem_cons_of_mem _ hb)

/-- Where nothing is left, nothing is added. -/
theorem idle_foldl (h : Drains next ok I work within capacity) (hs : I s) (hidle : within 0 s)
    (hok : ∀ a ∈ rounds, ok a) : within 0 (rounds.foldl next s) := by
  induction rounds generalizing s with
  | nil => exact hidle
  | cons a rounds ih =>
    have ha := hok a List.mem_cons_self
    exact ih (h.keeps s a hs ha) (h.idle s a hs ha hidle)
      fun b hb => hok b (List.mem_cons_of_mem _ hb)

/-- After so many rounds, there is nothing left to do. -/
theorem drained (h : Drains next ok I work within capacity) (hcapacity : 0 < capacity) (hs : I s)
    (hn : within n s) (hok : ∀ a ∈ rounds, ok a)
    (hlen : work s / capacity + n ≤ rounds.length) : within 0 (rounds.foldl next s) := by
  -- On the rounds, with any bound `n`: a round that is not full lowers the bound, and a full
  -- one takes `capacity` off the work.
  induction rounds generalizing s n with
  | nil =>
    obtain rfl : n = 0 := Nat.le_zero.1 (Nat.le_trans (Nat.le_add_left _ _) hlen)
    exact hn
  | cons a rounds ih =>
    have ha := hok a List.mem_cons_self
    have hs' := h.keeps s a hs ha
    have hok' : ∀ b ∈ rounds, ok b := fun b hb => hok b (List.mem_cons_of_mem _ hb)
    rw [List.length_cons] at hlen
    rw [List.foldl_cons]
    cases n with
    | zero => exact h.idle_foldl hs' (h.idle s a hs ha hn) hok'
    | succ n =>
      rcases h.round n s a hs ha hn with ⟨hn', hwork⟩ | ⟨hn', hwork⟩
      · refine ih hs' hn' hok' ?_
        have hdiv : work (next s a) / capacity + 1 ≤ work s / capacity := by
          rw [← Nat.add_div_right _ hcapacity]
          exact Nat.div_le_div_right hwork
        omega
      · refine ih hs' hn' hok' ?_
        have hdiv : work (next s a) / capacity ≤ work s / capacity := Nat.div_le_div_right hwork
        omega

end Drains
