import Mathlib.Algebra.BigOperators.Group.List.Basic
import Mathlib.Data.List.Nodup

/-!
# Entries and reversals

A book is kept by two lists that only grow: the entries that have been made,
each with an id, and the ids that have been reversed. What an entry weighs is
*outstanding* until its id is reversed. Two lemmas say how the total changes:
by one more entry, and by one more reversal.
-/

namespace Reversals

variable {α ι M : Type*} [DecidableEq ι] [AddCommGroup M]
  (id : α → ι) (w : α → M) {made : List α} {reversed : List ι} {e : α}

/-- The weights of the entries that have not been reversed, in total. -/
def outstanding (made : List α) (reversed : List ι) : M :=
  ((made.filter fun e => id e ∉ reversed).map w).sum

@[simp] theorem outstanding_nil : outstanding id w [] reversed = 0 := by
  simp [outstanding]

/-- What is outstanding of a list: of its first entry, and of the rest. -/
theorem outstanding_cons : outstanding id w (e :: made) reversed =
    (if id e ∈ reversed then 0 else w e) + outstanding id w made reversed := by
  rw [outstanding, List.filter_cons]
  by_cases he : id e ∈ reversed
  · simp [outstanding, he]
  · simp [outstanding, he]

/-- An entry that is new counts at once. -/
theorem outstanding_snoc (hnew : id e ∉ reversed) :
    outstanding id w (made ++ [e]) reversed = outstanding id w made reversed + w e := by
  simp [outstanding, List.filter_append, hnew]

/-- The reversal of an id that no entry has makes no difference. -/
theorem outstanding_reverse_of_notMem {i : ι} (hi : i ∉ made.map id) :
    outstanding id w made (reversed ++ [i]) = outstanding id w made reversed := by
  have hfilter : made.filter (fun e => id e ∉ reversed ++ [i]) =
      made.filter fun e => id e ∉ reversed := by
    refine List.filter_congr fun e he => ?_
    have hne : id e ≠ i := fun heq => hi (heq ▸ List.mem_map_of_mem he)
    simp [hne]
  rw [outstanding, hfilter, outstanding]

/-- The reversal of an entry takes it out, once. -/
theorem outstanding_reverse (hnodup : (made.map id).Nodup) (he : e ∈ made)
    (hlive : id e ∉ reversed) :
    outstanding id w made (reversed ++ [id e]) = outstanding id w made reversed - w e := by
  induction made with
  | nil => cases he
  | cons a made ih =>
    rw [List.map_cons, List.nodup_cons] at hnodup
    obtain ⟨hfresh, hnodup⟩ := hnodup
    rw [outstanding_cons, outstanding_cons]
    rcases List.mem_cons.1 he with rfl | he
    · rw [outstanding_reverse_of_notMem id w hfresh, if_pos (by simp), if_neg hlive, zero_add,
        add_sub_cancel_left]
    · -- The ids are distinct, so this is not the entry that is reversed.
      have hne : id a ≠ id e := fun heq => hfresh (heq ▸ List.mem_map_of_mem he)
      have hmem : id a ∈ reversed ++ [id e] ↔ id a ∈ reversed := by simp [hne]
      rw [ih hnodup he, if_congr hmem rfl rfl, add_sub_assoc]

end Reversals
