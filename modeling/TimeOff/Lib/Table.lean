import Mathlib.Algebra.BigOperators.Group.Finset.Basic
import Mathlib.Algebra.BigOperators.Intervals
import Mathlib.Algebra.Order.BigOperators.Group.Finset

/-!
# Tables

A table of rows with an autoincrement primary key: a partial map from ids to
rows, and the next id to be given out, above all ids in use (`Table`). Rows
are inserted at the next id, updated by id or by a condition, and summed over.
`PartialMap` has what an entry is after another one is set or removed.

A `KeyedTable` has a `UNIQUE` key besides: two rows with the same key are the
same row. The constraint is a field, so that an operation on keyed tables has
to preserve the key (or, for an insertion, to check that it is free).

Conditional updates (`updateIf`, `updateKeyIf`) are `none` when they affect no
row, which is what their caller asks the database for.
-/

variable {α : Type*}

namespace PartialMap

variable {ι : Type*} [DecidableEq ι] {g : ι → Option α} {i j : ι} {a b : α}

/-- An entry of a partial map of which one entry is set. -/
theorem set_eq_some :
    Function.update g i (some a) j = some b ↔ (j = i ∧ a = b) ∨ (j ≠ i ∧ g j = some b) := by
  rw [Function.update_apply]
  split
  · next hj => simp [hj]
  · next hj => simp [hj]

/-- An entry of a partial map of which one entry is removed. -/
theorem unset_eq_some :
    Function.update g i none j = some b ↔ j ≠ i ∧ g j = some b := by
  rw [Function.update_apply]
  split
  · next hj => simp [hj]
  · next hj => simp [hj]

end PartialMap

/-- A table: its rows by id, and the next id. -/
structure Table (α : Type*) where
  /-- The id of the next row to be inserted. -/
  nextId : ℕ
  /-- The row with the given id. -/
  get : ℕ → Option α
  get_of_le : ∀ i, nextId ≤ i → get i = none

namespace Table

/-- The table without rows. -/
def empty : Table α := ⟨0, fun _ => none, fun _ _ => rfl⟩

/-- `INSERT`: the new row gets the next id. -/
def insert (t : Table α) (a : α) : Table α where
  nextId := t.nextId + 1
  get i := if i = t.nextId then some a else t.get i
  get_of_le i hi := by rw [if_neg (by omega)]; exact t.get_of_le i (by omega)

/-- `UPDATE ... WHERE`, for the rows that meet `p`. -/
def updateWhere (t : Table α) (p : α → Bool) (f : α → α) : Table α where
  nextId := t.nextId
  get i := (t.get i).map fun a => if p a then f a else a
  get_of_le i hi := by rw [t.get_of_le i hi]; rfl

/-- `UPDATE ... WHERE id = i`. -/
def update (t : Table α) (i : ℕ) (f : α → α) : Table α where
  nextId := t.nextId
  get j := if j = i then (t.get j).map f else t.get j
  get_of_le j hj := by rw [t.get_of_le j hj]; exact ite_self _

/-- `DELETE ... WHERE id = i`. -/
def erase (t : Table α) (i : ℕ) : Table α where
  nextId := t.nextId
  get j := if j = i then none else t.get j
  get_of_le j hj := by rw [t.get_of_le j hj]; exact ite_self _

/-- `UPDATE ... WHERE id = i AND p`, or `none` if this affects no row. -/
def updateIf (t : Table α) (i : ℕ) (p : α → Bool) (f : α → α) : Option (Table α) :=
  match t.get i with
  | some a => if p a then some (t.update i f) else none
  | none => none

/-- The rows with their ids, in the order of the ids. -/
def rows (t : Table α) : List (ℕ × α) :=
  (List.range t.nextId).filterMap fun i => (t.get i).map (i, ·)

variable {t t' : Table α} {i j : ℕ} {a b : α} {p : α → Bool} {f : α → α}

/-- Tables with the same rows and the same next id are the same. -/
theorem ext_get (hid : t.nextId = t'.nextId) (hget : t.get = t'.get) : t = t' := by
  obtain ⟨n, g, _⟩ := t
  obtain ⟨n', g', _⟩ := t'
  obtain rfl : n = n' := hid
  obtain rfl : g = g' := hget
  rfl

theorem lt_nextId (h : t.get i = some a) : i < t.nextId := by
  by_contra hlt
  rw [t.get_of_le i (by omega)] at h
  cases h

@[simp] theorem get_empty : (empty : Table α).get i = none := rfl

@[simp] theorem get_insert :
    (t.insert a).get i = if i = t.nextId then some a else t.get i := rfl

@[simp] theorem get_update :
    (t.update i f).get j = if j = i then (t.get j).map f else t.get j := rfl

theorem get_update_self (h : t.get i = some a) : (t.update i f).get i = some (f a) := by
  rw [get_update, if_pos rfl, h, Option.map_some]

theorem get_update_of_ne (h : j ≠ i) : (t.update i f).get j = t.get j := by
  rw [get_update, if_neg h]

@[simp] theorem get_updateWhere :
    (t.updateWhere p f).get i = (t.get i).map fun a => if p a then f a else a := rfl

@[simp] theorem get_erase :
    (t.erase i).get j = if j = i then none else t.get j := rfl

@[simp] theorem nextId_insert : (t.insert a).nextId = t.nextId + 1 := rfl
@[simp] theorem nextId_update : (t.update i f).nextId = t.nextId := rfl
@[simp] theorem nextId_updateWhere : (t.updateWhere p f).nextId = t.nextId := rfl
@[simp] theorem nextId_erase : (t.erase i).nextId = t.nextId := rfl

@[simp] theorem get_nextId : t.get t.nextId = none := t.get_of_le _ le_rfl

/-- A row that is there stays where it is when another one is inserted. -/
theorem get_insert_of_some (h : t.get i = some b) : (t.insert a).get i = some b := by
  rw [get_insert, if_neg (lt_nextId h).ne, h]

/-- A row after an insertion is the new one, or has been there. -/
theorem get_insert_eq_some :
    (t.insert a).get i = some b ↔ (i = t.nextId ∧ a = b) ∨ t.get i = some b := by
  constructor
  · intro h
    rw [get_insert] at h
    split at h
    · next hi => exact .inl ⟨hi, Option.some.inj h⟩
    · exact .inr h
  · rintro (⟨rfl, rfl⟩ | h)
    · exact if_pos rfl
    · exact get_insert_of_some h

/-- A row after an update is the one that is updated, or another. -/
theorem get_update_eq_some : (t.update i f).get j = some b ↔
    (j = i ∧ ∃ a, t.get i = some a ∧ f a = b) ∨ (j ≠ i ∧ t.get j = some b) := by
  rw [get_update]
  split
  · next hj => simp [hj]
  · next hj => simp [hj]

/-- Two updates that make the same of the row. -/
theorem update_congr {g : α → α} (h : t.get i = some a) (hfg : f a = g a) :
    t.update i f = t.update i g := by
  refine ext_get rfl (funext fun j => ?_)
  rw [get_update, get_update]
  split
  · next hj =>
    subst hj
    rw [h, Option.map_some, Option.map_some, hfg]
  · rfl

/-- A row of a table into which one has been inserted is a row from before, or
    this one. -/
theorem exists_insert {P : α → Prop} :
    (∃ j b, (t.insert a).get j = some b ∧ P b) ↔ (∃ j b, t.get j = some b ∧ P b) ∨ P a := by
  constructor
  · rintro ⟨j, b, hb, hp⟩
    rcases get_insert_eq_some.1 hb with ⟨_, rfl⟩ | hb
    · exact .inr hp
    · exact .inl ⟨j, b, hb, hp⟩
  · rintro (⟨j, b, hb, hp⟩ | hp)
    · exact ⟨j, b, get_insert_of_some hb, hp⟩
    · exact ⟨t.nextId, a, if_pos rfl, hp⟩

/-- What holds of all rows, and of the one that is inserted, holds of all rows
    afterwards. -/
theorem forall_insert {P : ℕ → α → Prop} (ha : P t.nextId a)
    (h : ∀ j b, t.get j = some b → P j b) : ∀ j b, (t.insert a).get j = some b → P j b := by
  intro j b hb
  rcases get_insert_eq_some.1 hb with ⟨rfl, rfl⟩ | hb
  · exact ha
  · exact h j b hb

/-- What holds of all rows, and of the one that is updated as it is then, holds
    of all rows afterwards. -/
theorem forall_update {P : ℕ → α → Prop} (hf : ∀ a, t.get i = some a → P i (f a))
    (h : ∀ j b, t.get j = some b → P j b) : ∀ j b, (t.update i f).get j = some b → P j b := by
  intro j b hb
  rcases get_update_eq_some.1 hb with ⟨rfl, a, ha, rfl⟩ | ⟨_, hb⟩
  · exact hf a ha
  · exact h j b hb

/-- A guarded update needs its row. -/
theorem updateIf_eq_some :
    t.updateIf i p f = some t' ↔ ∃ a, t.get i = some a ∧ p a ∧ t' = t.update i f := by
  rw [updateIf]
  constructor
  · intro h
    split at h
    · next a hi =>
      split at h
      · next hp => exact ⟨a, hi, hp, (Option.some.inj h).symm⟩
      · cases h
    · cases h
  · rintro ⟨a, hi, hp, rfl⟩
    rw [hi]
    exact if_pos hp

/-- The list of the rows has those of the table. -/
theorem mem_rows : (i, a) ∈ t.rows ↔ t.get i = some a := by
  constructor
  · intro h
    obtain ⟨j, _, hj⟩ := List.mem_filterMap.1 h
    obtain ⟨b, hb, he⟩ := Option.map_eq_some_iff.1 hj
    obtain ⟨rfl, rfl⟩ := Prod.mk.inj he
    exact hb
  · intro h
    exact List.mem_filterMap.2 ⟨i, List.mem_range.2 (lt_nextId h), by rw [h]; rfl⟩

/-- The rows stand in the order of their ids. -/
theorem pairwise_rows : t.rows.Pairwise (·.1 < ·.1) := by
  rw [rows, List.pairwise_filterMap]
  refine List.pairwise_lt_range.imp fun {i j} hij x hx y hy => ?_
  obtain ⟨a, _, rfl⟩ := Option.map_eq_some_iff.1 hx
  obtain ⟨b, _, rfl⟩ := Option.map_eq_some_iff.1 hy
  exact hij

/-- Every id stands in the rows once. -/
theorem nodup_rows : (t.rows.map Prod.fst).Nodup :=
  List.pairwise_map.2 (pairwise_rows.imp fun hij => hij.ne)

/-- The only row that meets a condition. -/
theorem filter_rows {q : ℕ × α → Bool} (hi : t.get i = some a) (hq : q (i, a))
    (hunique : ∀ j b, t.get j = some b → q (j, b) → j = i) : t.rows.filter q = [(i, a)] := by
  have hmem : (i, a) ∈ t.rows.filter q := List.mem_filter.2 ⟨mem_rows.2 hi, hq⟩
  have hnodup : (t.rows.filter q).Nodup := (List.Nodup.of_map _ nodup_rows).filter q
  refine List.perm_singleton.1 ((List.perm_ext_iff_of_nodup hnodup (by simp)).2 fun x => ?_)
  rw [List.mem_singleton]
  constructor
  · intro hx
    obtain ⟨hx, hqx⟩ := List.mem_filter.1 hx
    obtain rfl := hunique x.1 x.2 (mem_rows.1 hx) hqx
    exact Prod.ext rfl (Option.some.inj ((mem_rows.1 hx).symm.trans hi))
  · rintro rfl
    exact hmem

/-! ## Rows seen through a function -/

/-- The table, with every row seen through `g`. -/
def mapRows {β : Type*} (t : Table α) (g : ℕ → α → β) : Table β where
  nextId := t.nextId
  get i := (t.get i).map (g i)
  get_of_le i hi := by rw [t.get_of_le i hi]; rfl

section
variable {β : Type*} {g g' : ℕ → α → β} {u : β → β}

@[simp] theorem get_mapRows : (t.mapRows g).get i = (t.get i).map (g i) := rfl

/-- The row that has been inserted is updated. -/
theorem update_insert : (t.insert a).update t.nextId f = t.insert (f a) := by
  refine ext_get rfl (funext fun j => ?_)
  rw [get_update, get_insert, get_insert]
  split
  · rfl
  · rfl

/-- A map that changes no row changes nothing. -/
theorem mapRows_eq_self {g : ℕ → α → α} (h : ∀ i a, t.get i = some a → g i a = a) :
    t.mapRows g = t := by
  refine ext_get rfl (funext fun i => ?_)
  rw [get_mapRows]
  cases hi : t.get i with
  | none => rfl
  | some a => rw [Option.map_some, h i a hi]

/-- A row that is inserted is mapped as well. -/
theorem mapRows_insert : (t.insert a).mapRows g = (t.mapRows g).insert (g t.nextId a) := by
  refine ext_get rfl (funext fun i => ?_)
  rw [get_mapRows, get_insert, get_insert]
  change Option.map (g i) _ = if i = t.nextId then _ else _
  split
  · next hi => rw [hi, Option.map_some]
  · rfl

/-- A row that is changed, and perhaps seen otherwise afterwards. -/
theorem mapRows_update (hg : ∀ j, j ≠ i → g' j = g j)
    (hi : ∀ a, t.get i = some a → g' i (f a) = u (g i a)) :
    (t.update i f).mapRows g' = (t.mapRows g).update i u := by
  refine ext_get rfl (funext fun j => ?_)
  rw [get_mapRows, get_update, get_update, get_mapRows]
  split
  · next hj =>
    subst hj
    cases hrow : t.get j with
    | none => rfl
    | some a => simp only [Option.map_some, hi a hrow]
  · next hj => rw [hg j hj]

theorem update_id : t.update i id = t := by
  refine ext_get rfl (funext fun j => ?_)
  rw [get_update, Option.map_id_fun, id, ite_self]

/-- A row that is only seen otherwise. -/
theorem mapRows_change (hg : ∀ j, j ≠ i → g' j = g j)
    (hi : ∀ a, t.get i = some a → g' i a = u (g i a)) :
    t.mapRows g' = (t.mapRows g).update i u := by
  have hupdate := mapRows_update (f := id) hg hi
  rwa [update_id] at hupdate

end

/-! ## Sums -/

variable {M : Type*}

/-- The sum of a weight over the rows. -/
def sum [AddCommMonoid M] (t : Table α) (w : ℕ → α → M) : M :=
  ∑ i ∈ Finset.range t.nextId, (t.get i).elim 0 (w i)

/-- A sum depends on the rows that are there only. -/
theorem sum_congr [AddCommMonoid M] {w w' : ℕ → α → M}
    (h : ∀ i a, t.get i = some a → w i a = w' i a) : t.sum w = t.sum w' := by
  refine Finset.sum_congr rfl fun i _ => ?_
  cases hi : t.get i with
  | none => rfl
  | some a => exact h i a hi

@[simp] theorem sum_empty [AddCommMonoid M] {w : ℕ → α → M} : (empty : Table α).sum w = 0 := rfl

/-- Nothing adds up to nothing. -/
theorem sum_eq_zero [AddCommMonoid M] {w : ℕ → α → M} (h : ∀ i a, t.get i = some a → w i a = 0) :
    t.sum w = 0 := by
  refine Finset.sum_eq_zero fun i _ => ?_
  cases hi : t.get i with
  | none => rfl
  | some a => exact h i a hi

/-- A sum of sums. -/
theorem sum_add [AddCommMonoid M] {w w' : ℕ → α → M} :
    (t.sum fun i a => w i a + w' i a) = t.sum w + t.sum w' := by
  rw [sum, sum, sum, ← Finset.sum_add_distrib]
  refine Finset.sum_congr rfl fun i _ => ?_
  cases t.get i with
  | none => exact (add_zero 0).symm
  | some a => rfl

/-- The row that is inserted is added. -/
theorem sum_insert [AddCommMonoid M] {w : ℕ → α → M} :
    (t.insert a).sum w = t.sum w + w t.nextId a := by
  rw [sum, sum, nextId_insert, Finset.sum_range_succ, get_insert, if_pos rfl]
  congr 1
  refine Finset.sum_congr rfl fun i hi => ?_
  rw [get_insert, if_neg (Finset.mem_range.1 hi).ne]

/-- Two sums, over tables with the same ids, that only differ at the row `i`. -/
theorem sum_change [AddCommGroup M] {w w' : ℕ → α → M} (hid : t'.nextId = t.nextId)
    (hi : t.get i = some a) (hi' : t'.get i = some b)
    (hne : ∀ j, j ≠ i → (t'.get j).elim 0 (w' j) = (t.get j).elim 0 (w j)) :
    t'.sum w' = t.sum w - w i a + w' i b := by
  have hmem : i ∈ Finset.range t.nextId := Finset.mem_range.2 (lt_nextId hi)
  rw [sum, sum, hid, ← Finset.add_sum_erase _ _ hmem, ← Finset.add_sum_erase _ _ hmem, hi, hi']
  rw [Finset.sum_congr rfl fun j hj => hne j (Finset.ne_of_mem_erase hj)]
  rw [Option.elim_some, Option.elim_some, add_sub_cancel_left, add_comm]

theorem sum_update [AddCommGroup M] {w : ℕ → α → M} (h : t.get i = some a) :
    (t.update i f).sum w = t.sum w - w i a + w i (f a) :=
  sum_change rfl h (by rw [get_update, if_pos rfl, h]; rfl) fun j hj => by
    rw [get_update, if_neg hj]

/-- The same row, weighed differently. -/
theorem sum_reweigh [AddCommGroup M] {w w' : ℕ → α → M} (h : t.get i = some a)
    (hne : ∀ j b, j ≠ i → t.get j = some b → w' j b = w j b) :
    t.sum w' = t.sum w - w i a + w' i a :=
  sum_change rfl h h fun j hj => by
    cases hb : t.get j with
    | none => rfl
    | some b => exact hne j b hj hb

/-- A sum to which only one row contributes. -/
theorem sum_eq_single [AddCommMonoid M] {w : ℕ → α → M} (h : t.get i = some a)
    (hne : ∀ j b, j ≠ i → t.get j = some b → w j b = 0) : t.sum w = w i a := by
  rw [sum, Finset.sum_eq_single_of_mem i (Finset.mem_range.2 (lt_nextId h)), h]
  · rfl
  · intro j _ hj
    cases hb : t.get j with
    | none => rfl
    | some b => exact hne j b hj hb

/-- The rows of a table that refers to another one are summed up row by row of
    that one. Those that refer to none must not count. -/
theorem sum_fiberwise [AddCommMonoid M] {β : Type*} {u : Table β} (key : β → ℕ)
    {w : ℕ → β → M}
    (h : ∀ k b, u.get k = some b → w k b = 0 ∨ ∃ a, t.get (key b) = some a) :
    u.sum w = t.sum fun i _ => u.sum fun k b => if key b = i then w k b else 0 := by
  have hrow : ∀ i, (t.get i).elim 0 (fun _ => u.sum fun k b => if key b = i then w k b else 0) =
      u.sum fun k b => if key b = i then w k b else 0 := by
    intro i
    cases hi : t.get i with
    | some a => rfl
    | none =>
      refine (sum_eq_zero fun k b hb => ?_).symm
      split
      · next hkey =>
        rcases h k b hb with hzero | ⟨a, ha⟩
        · exact hzero
        · rw [hkey, hi] at ha
          cases ha
      · rfl
  -- Every row of `u` that counts belongs to one `i`; the sums may be exchanged, and where
  -- `t` has no row `i` nothing is left to add.
  calc u.sum w
      = u.sum fun k b => ∑ i ∈ Finset.range t.nextId, if key b = i then w k b else 0 := by
        refine sum_congr fun k b hb => ?_
        rw [Finset.sum_ite_eq]
        rcases h k b hb with hzero | ⟨a, ha⟩
        · rw [hzero, ite_self]
        · rw [if_pos (Finset.mem_range.2 (lt_nextId ha))]
    _ = ∑ i ∈ Finset.range t.nextId, u.sum fun k b => if key b = i then w k b else 0 := by
        simp only [sum]
        rw [Finset.sum_comm]
        refine Finset.sum_congr rfl fun k _ => ?_
        cases u.get k with
        | none => exact Finset.sum_const_zero.symm
        | some b => rfl
    _ = t.sum fun i _ => u.sum fun k b => if key b = i then w k b else 0 :=
        Finset.sum_congr rfl fun i _ => (hrow i).symm

/-- The rows that meet `p`, counted. -/
theorem countP_rows (t : Table α) (p : α → Bool) :
    (t.rows.countP fun q => p q.2) = t.sum fun _ a => if p a then 1 else 0 := by
  have hcount : ∀ l : List ℕ, (l.filterMap fun i => (t.get i).map (i, ·)).countP (fun q => p q.2) =
      (l.map fun i => (t.get i).elim 0 fun a => if p a then 1 else 0).sum := by
    intro l
    induction l with
    | nil => rfl
    | cons i l ih =>
      rw [List.map_cons, List.sum_cons, ← ih, List.filterMap_cons]
      cases t.get i with
      | none => exact (Nat.zero_add _).symm
      | some a => exact List.countP_cons.trans (Nat.add_comm _ _)
  rw [rows, hcount]
  rfl

variable [AddCommMonoid M] [PartialOrder M] [IsOrderedAddMonoid M]

/-- Sums are monotone. -/
theorem sum_le_sum {w w' : ℕ → α → M} (h : ∀ i a, t.get i = some a → w i a ≤ w' i a) :
    t.sum w ≤ t.sum w' := by
  refine Finset.sum_le_sum fun i _ => ?_
  cases hi : t.get i with
  | none => exact le_rfl
  | some a => exact h i a hi

theorem sum_nonneg {w : ℕ → α → M} (h : ∀ i a, t.get i = some a → 0 ≤ w i a) : 0 ≤ t.sum w := by
  refine Finset.sum_nonneg fun i _ => ?_
  cases hi : t.get i with
  | none => exact le_rfl
  | some a => exact h i a hi

/-- A row weighs at most as much as all rows. -/
theorem le_sum {w : ℕ → α → M} (h : ∀ i a, t.get i = some a → 0 ≤ w i a)
    (hi : t.get i = some a) : w i a ≤ t.sum w := by
  have hle := Finset.single_le_sum (f := fun j => (t.get j).elim 0 (w j))
    (fun j _ => ?_) (Finset.mem_range.2 (lt_nextId hi))
  · rwa [hi] at hle
  · cases hj : t.get j with
    | none => exact le_rfl
    | some b => exact h j b hj

/-- The rows of a table that refer to different rows of another one, all of which
    meet `p`, are no more than these. -/
theorem countP_rows_le {β : Type*} {u : Table β} (key : β → ℕ) (p : α → Bool) (q : β → Bool)
    (hkey : ∀ k b, u.get k = some b → q b → ∃ a, t.get (key b) = some a ∧ p a)
    (hinj : ∀ j k b c, u.get j = some b → u.get k = some c → q b → q c → key b = key c → j = k) :
    (u.rows.countP fun r => q r.2) ≤ t.rows.countP fun r => p r.2 := by
  -- Each row of `t` has at most one of the rows of `u` that are counted, and it is counted
  -- itself if it has.
  have hfibers := sum_fiberwise (t := t) (u := u) key
    (w := fun _ b => if q b then 1 else 0) fun k b hb => by
      by_cases hq : q b
      · obtain ⟨a, ha, _⟩ := hkey k b hb hq
        exact .inr ⟨a, ha⟩
      · exact .inl (if_neg hq)
  rw [countP_rows, countP_rows, hfibers]
  refine sum_le_sum fun i a ha => ?_
  by_cases hsome : ∃ k b, u.get k = some b ∧ q b ∧ key b = i
  · obtain ⟨k, b, hb, hq, rfl⟩ := hsome
    obtain ⟨a', ha', hp⟩ := hkey k b hb hq
    obtain rfl := Option.some.inj (ha.symm.trans ha')
    rw [sum_eq_single hb, if_pos rfl, if_pos hq, if_pos hp]
    intro j c hj hc
    split
    · next hc' => exact if_neg fun hq' => hj (hinj j k c b hc hb hq' hq hc')
    · rfl
  · refine (sum_eq_zero fun k b hb => ?_).trans_le (Nat.zero_le _)
    split
    · next hkey' => exact if_neg fun hq => hsome ⟨k, b, hb, hq, hkey'⟩
    · rfl

/-- Rows that get lighter by one at least, and others that do not get heavier. -/
theorem sum_add_length_le {w : ℕ → α → ℕ} {ids : List ℕ} (hnodup : ids.Nodup)
    (hid : t'.nextId = t.nextId) (hlt : ∀ j ∈ ids, j < t.nextId)
    (hmem : ∀ j ∈ ids, (t'.get j).elim 0 (w j) + 1 ≤ (t.get j).elim 0 (w j))
    (hle : ∀ j, j ∉ ids → (t'.get j).elim 0 (w j) ≤ (t.get j).elim 0 (w j)) :
    t'.sum w + ids.length ≤ t.sum w := by
  have hcard : ids.length = ∑ j ∈ Finset.range t.nextId, if j ∈ ids.toFinset then 1 else 0 := by
    rw [Finset.sum_ite_mem, Finset.inter_eq_right.2 fun j hj =>
      Finset.mem_range.2 (hlt j (List.mem_toFinset.1 hj)), ← Finset.card_eq_sum_ones,
      List.toFinset_card_of_nodup hnodup]
  rw [sum, sum, hid, hcard, ← Finset.sum_add_distrib]
  refine Finset.sum_le_sum fun j _ => ?_
  split
  · next hj => exact hmem j (List.mem_toFinset.1 hj)
  · next hj => exact hle j fun h => hj (List.mem_toFinset.2 h)

end Table

/-! ## Unique keys -/

/-- A table with a unique key. -/
structure KeyedTable (α : Type*) {κ : Type*} (key : α → κ) extends Table α where
  unique : ∀ {i j a b}, get i = some a → get j = some b → key a = key b → i = j

namespace KeyedTable

variable {κ : Type*} [DecidableEq κ] {key : α → κ}

omit [DecidableEq κ] in
/-- The keyed table without rows. -/
def empty : KeyedTable α key where
  toTable := .empty
  unique hi := by cases hi

/-- The row with the key `k`, and its id. -/
def lookup (t : KeyedTable α key) (k : κ) : Option (ℕ × α) :=
  t.rows.find? fun r => key r.2 = k

variable {t t' : KeyedTable α key} {i : ℕ} {a : α} {k : κ} {p : α → Bool} {f : α → α}

/-- The row that is found has the key, and no other one does. -/
theorem lookup_eq_some : t.lookup k = some (i, a) ↔ t.get i = some a ∧ key a = k := by
  constructor
  · intro h
    exact ⟨Table.mem_rows.1 (List.mem_of_find?_eq_some h), by simpa using List.find?_some h⟩
  · rintro ⟨hi, rfl⟩
    cases hl : t.lookup (key a) with
    | none =>
      have := List.find?_eq_none.1 hl (i, a) (Table.mem_rows.2 hi)
      simp at this
    | some r =>
      obtain ⟨j, b⟩ := r
      have hj := Table.mem_rows.1 (List.mem_of_find?_eq_some hl)
      have hb : key b = key a := by simpa using List.find?_some hl
      obtain rfl := t.unique hj hi hb
      rw [Option.some.inj (hj.symm.trans hi)]

/-- None is found if none has the key. -/
theorem lookup_eq_none : t.lookup k = none ↔ ∀ i a, t.get i = some a → key a ≠ k := by
  constructor
  · intro h i a hi hk
    rw [lookup_eq_some.2 ⟨hi, hk⟩] at h
    cases h
  · intro h
    cases hl : t.lookup k with
    | none => rfl
    | some r => exact absurd (lookup_eq_some.1 hl).2 (h _ _ (lookup_eq_some.1 hl).1)

theorem lookup_empty : (empty : KeyedTable α key).lookup k = none := rfl

/-- `INSERT` of a row whose key is free. -/
def insert (t : KeyedTable α key) (a : α) (h : t.lookup (key a) = none) : KeyedTable α key where
  toTable := t.toTable.insert a
  unique {i j b c} hi hj hk := by
    rw [Table.get_insert] at hi hj
    split at hi <;> split at hj
    · omega
    · obtain rfl := Option.some.inj hi
      exact absurd hk.symm (lookup_eq_none.1 h _ _ hj)
    · obtain rfl := Option.some.inj hj
      exact absurd hk (lookup_eq_none.1 h _ _ hi)
    · exact t.unique hi hj hk

/-- `UPDATE ... WHERE key = k`. -/
def updateKey (t : KeyedTable α key) (k : κ) (f : α → α) (hf : ∀ a, key (f a) = key a) :
    KeyedTable α key where
  toTable := t.toTable.updateWhere (fun a => key a = k) f
  unique {i j b c} hi hj hk := by
    obtain ⟨b', hb', rfl⟩ := Option.map_eq_some_iff.1 hi
    obtain ⟨c', hc', rfl⟩ := Option.map_eq_some_iff.1 hj
    refine t.unique hb' hc' ?_
    split at hk <;> split at hk <;> simpa [hf] using hk

/-- `UPDATE ... WHERE id = i`, of columns outside the key. -/
def updateId (t : KeyedTable α key) (i : ℕ) (f : α → α) (hf : ∀ a, key (f a) = key a) :
    KeyedTable α key where
  toTable := t.toTable.update i f
  unique {j l b c} hj hl hk := by
    rw [Table.get_update] at hj hl
    obtain ⟨b', hb', hkb⟩ : ∃ b', t.get j = some b' ∧ key b' = key b := by
      split at hj
      · obtain ⟨b', hb', rfl⟩ := Option.map_eq_some_iff.1 hj
        exact ⟨b', hb', (hf b').symm⟩
      · exact ⟨b, hj, rfl⟩
    obtain ⟨c', hc', hkc⟩ : ∃ c', t.get l = some c' ∧ key c' = key c := by
      split at hl
      · obtain ⟨c', hc', rfl⟩ := Option.map_eq_some_iff.1 hl
        exact ⟨c', hc', (hf c').symm⟩
      · exact ⟨c, hl, rfl⟩
    exact t.unique hb' hc' (by rw [hkb, hkc, hk])

/-- `UPDATE ... WHERE key = k AND p`, or `none` if this affects no row. -/
def updateKeyIf (t : KeyedTable α key) (k : κ) (p : α → Bool) (f : α → α)
    (hf : ∀ a, key (f a) = key a) : Option (KeyedTable α key) :=
  match t.lookup k with
  | some (_, a) => if p a then some (t.updateKey k f hf) else none
  | none => none

@[simp] theorem get_insert {h : t.lookup (key a) = none} :
    (t.insert a h).get i = if i = t.nextId then some a else t.get i := rfl

@[simp] theorem get_updateKey {hf : ∀ a, key (f a) = key a} :
    (t.updateKey k f hf).get i = (t.get i).map fun a => if key a = k then f a else a := by
  rw [updateKey, Table.get_updateWhere]
  simp only [decide_eq_true_eq]

omit [DecidableEq κ] in
@[simp] theorem get_updateId {hf : ∀ a, key (f a) = key a} {j : ℕ} :
    (t.updateId i f hf).get j = if j = i then (t.get j).map f else t.get j := rfl

omit [DecidableEq κ] in
theorem ext_toTable (h : t.toTable = t'.toTable) : t = t' := by
  obtain ⟨t, _⟩ := t
  obtain ⟨t', _⟩ := t'
  obtain rfl : t = t' := h
  rfl

/-- The keyed table, with every row seen through `g`, which keeps the key. -/
def mapRows (t : KeyedTable α key) (g : α → α) (hg : ∀ a, key (g a) = key a) :
    KeyedTable α key where
  toTable := t.toTable.mapRows fun _ => g
  unique {i j b c} hi hj hk := by
    obtain ⟨b', hb', rfl⟩ := Option.map_eq_some_iff.1 hi
    obtain ⟨c', hc', rfl⟩ := Option.map_eq_some_iff.1 hj
    exact t.unique hb' hc' (by rwa [hg, hg] at hk)

omit [DecidableEq κ] in
@[simp] theorem get_mapRows {g : α → α} {hg : ∀ a, key (g a) = key a} :
    (t.mapRows g hg).get i = (t.get i).map g := rfl

/-- The row with a key, seen through `g`. -/
theorem lookup_mapRows {g : α → α} {hg : ∀ a, key (g a) = key a} :
    (t.mapRows g hg).lookup k = (t.lookup k).map (Prod.map id g) := by
  cases hl : t.lookup k with
  | none =>
    refine lookup_eq_none.2 fun j b hb => ?_
    obtain ⟨a, ha, rfl⟩ := Option.map_eq_some_iff.1 hb
    rw [hg]
    exact lookup_eq_none.1 hl j a ha
  | some q =>
    obtain ⟨hq, hk⟩ := lookup_eq_some.1 hl
    exact lookup_eq_some.2 ⟨congrArg (Option.map g) hq, (hg q.2).trans hk⟩

/-- An update of a key that no row has. -/
theorem updateKey_of_lookup_eq_none {hf : ∀ a, key (f a) = key a} (h : t.lookup k = none) :
    t.updateKey k f hf = t := by
  refine ext_toTable (Table.ext_get rfl (funext fun i => ?_))
  rw [get_updateKey]
  cases hi : t.get i with
  | none => rfl
  | some a => rw [Option.map_some, if_neg (lookup_eq_none.1 h i a hi)]

/-- A guarded update by a key needs a row that has the key and meets the guard. -/
theorem updateKeyIf_eq_some {hf : ∀ a, key (f a) = key a} :
    t.updateKeyIf k p f hf = some t' ↔
      ∃ i a, t.get i = some a ∧ key a = k ∧ p a ∧ t' = t.updateKey k f hf := by
  constructor
  · rw [updateKeyIf]
    intro h
    split at h
    · next i a hl =>
      split at h
      · next hp =>
        obtain ⟨hi, hk⟩ := lookup_eq_some.1 hl
        exact ⟨i, a, hi, hk, hp, (Option.some.inj h).symm⟩
      · cases h
    · cases h
  · rintro ⟨i, a, hi, hk, hp, rfl⟩
    rw [updateKeyIf, lookup_eq_some.2 ⟨hi, hk⟩]
    exact if_pos hp

end KeyedTable
