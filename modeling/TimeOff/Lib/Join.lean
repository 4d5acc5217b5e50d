import Mathlib.Data.List.Basic

/-!
# Joins

The inner join of two lists of rows: each row of the one, in order, with each
row of the other that it matches. A row without a match is dropped, and one
with several matches comes several times; where every row has exactly one
match, the join is the rows again, each with its match (`map_fst_innerJoin`).
-/

variable {α β : Type*}

/-- `INNER JOIN ... ON` -/
def innerJoin (on : α → β → Bool) (l : List α) (m : List β) : List (α × β) :=
  l.flatMap fun a => (m.filter (on a)).map (a, ·)

variable {on : α → β → Bool} {l : List α} {m : List β}

@[simp] theorem innerJoin_nil : innerJoin on [] m = [] := rfl

@[simp] theorem innerJoin_cons {a : α} :
    innerJoin on (a :: l) m = (m.filter (on a)).map (a, ·) ++ innerJoin on l m :=
  List.flatMap_cons

/-- The rows of a join: pairs of rows that meet the condition. -/
theorem mem_innerJoin {x : α × β} :
    x ∈ innerJoin on l m ↔ x.1 ∈ l ∧ x.2 ∈ m ∧ on x.1 x.2 := by
  obtain ⟨a, b⟩ := x
  simp only [innerJoin, List.mem_flatMap, List.mem_map, List.mem_filter, Prod.mk.injEq]
  constructor
  · rintro ⟨a, ha, b, ⟨hb, hab⟩, rfl, rfl⟩
    exact ⟨ha, hb, hab⟩
  · rintro ⟨ha, hb, hab⟩
    exact ⟨a, ha, b, ⟨hb, hab⟩, rfl, rfl⟩

/-- Rows with exactly one match each are neither dropped nor duplicated. -/
theorem map_fst_innerJoin (h : ∀ a ∈ l, ∃ b, m.filter (on a) = [b]) :
    (innerJoin on l m).map Prod.fst = l := by
  induction l with
  | nil => rfl
  | cons a l ih =>
    obtain ⟨b, hb⟩ := h a List.mem_cons_self
    rw [innerJoin_cons, hb, List.map_append, ih fun a ha => h a (List.mem_cons_of_mem _ ha)]
    rfl
