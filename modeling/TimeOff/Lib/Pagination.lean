import Mathlib.Data.Finset.Card
import Mathlib.Data.List.Pairwise
import Mathlib.Order.Defs.LinearOrder

/-!
# Pagination by a cursor

Rows with distinct keys are handed out in the order of their keys, `limit` of
them at a time. The *cursor* of a page is the key of its last row: the next
page has the rows above it. To see whether there is a next page, one row more
than `limit` is asked for, and cut off again (`cut`).

A *traversal* fetches page after page, each with the cursor of the one before.
The rows may change while it goes on: each page is fetched from the state `s`
that the source is then in, which has the rows `rows s`, or refuses.

* `page_data`, `page_nextCursor`: a page is the first rows above the cursor,
  and has a cursor itself if and only if these are not all;
* `traverse_increasing`: no row comes twice, whatever the source does;
* `traverse_complete`: a row that is there throughout is handed out;
* `traverse_exact`: the pages of a source that does not change are its rows;
* `exists_traverse`: a source that no new keys come to is exhausted.
-/

namespace Pagination

variable {σ α κ : Type*}

/-- A page of rows, and the cursor for the next one, if there is one. -/
structure Page (α κ : Type*) where
  data : List α
  nextCursor : Option κ

/-- The page of which `results` are the rows, and one more if there is one. -/
def cut (key : α → κ) (limit : ℕ) (results : List α) : Page α κ :=
  if limit < results.length then
    ⟨results.take limit, (results.take limit).getLast?.map key⟩
  else ⟨results, none⟩

/-- Page after page, the first one with the given cursor; a page that is
    refused ends the traversal in failure. -/
def traverse (fetch : σ → Option κ → Option (Page α κ)) :
    Option κ → List σ → Option (List (Page α κ))
  | _, [] => some []
  | cursor, s :: ss =>
    (fetch s cursor).bind fun p =>
      match p.nextCursor with
      | none => some [p]
      | some c => (traverse fetch (some c) ss).map (p :: ·)

/-- The last page has no cursor. -/
def Ended (pages : List (Page α κ)) : Prop := ∃ p ∈ pages.getLast?, p.nextCursor = none

/-- The rows of all pages. -/
def allRows (pages : List (Page α κ)) : List α := pages.flatMap Page.data

@[simp] theorem allRows_nil : allRows ([] : List (Page α κ)) = [] := rfl

@[simp] theorem allRows_cons {p : Page α κ} {pages : List (Page α κ)} :
    allRows (p :: pages) = p.data ++ allRows pages := List.flatMap_cons

theorem ended_singleton {p : Page α κ} : Ended [p] ↔ p.nextCursor = none := by
  simp [Ended]

theorem not_ended_nil : ¬Ended ([] : List (Page α κ)) := by
  rintro ⟨p, hp, _⟩
  cases hp

/-- A page with a cursor is not the end. -/
theorem ended_cons {p : Page α κ} {pages : List (Page α κ)} {c : κ}
    (hc : p.nextCursor = some c) : Ended (p :: pages) ↔ Ended pages := by
  cases pages with
  | nil => simp [ended_singleton, not_ended_nil, hc]
  | cons q pages => rw [Ended, Ended, List.getLast?_cons_cons]

/-- The first page, and then either nothing more or a traversal again. -/
theorem traverse_cons {fetch : σ → Option κ → Option (Page α κ)} {cursor : Option κ} {s : σ}
    {ss : List σ} {pages : List (Page α κ)}
    (h : traverse fetch cursor (s :: ss) = some pages) :
    ∃ p, fetch s cursor = some p ∧ ((p.nextCursor = none ∧ pages = [p]) ∨
      ∃ c rest, p.nextCursor = some c ∧ traverse fetch (some c) ss = some rest ∧
        pages = p :: rest) := by
  obtain ⟨p, hp, h⟩ := Option.bind_eq_some_iff.1 h
  refine ⟨p, hp, ?_⟩
  split at h
  · next hnone => exact .inl ⟨hnone, (Option.some.inj h).symm⟩
  · next c hc =>
    obtain ⟨rest, hrest, rfl⟩ := Option.map_eq_some_iff.1 h
    exact .inr ⟨c, rest, hc, hrest, rfl⟩

variable [LinearOrder κ] {key : α → κ} {limit : ℕ} {cursor : Option κ} {l : List α}

/-- `WHERE key > cursor`, without which there is no such condition. -/
def after (key : α → κ) (cursor : Option κ) (l : List α) : List α :=
  l.filter fun a => cursor.all (· < key a)

/-- `WHERE key > cursor LIMIT limit + 1`, cut. -/
def page (key : α → κ) (limit : ℕ) (cursor : Option κ) (l : List α) : Page α κ :=
  cut key limit ((after key cursor l).take (limit + 1))

/-! ## One page -/

@[simp] theorem after_none : after key none l = l := List.filter_eq_self.2 fun _ _ => rfl

theorem mem_after {a : α} : a ∈ after key cursor l ↔ a ∈ l ∧ ∀ c ∈ cursor, c < key a := by
  rw [after, List.mem_filter, Option.all_eq_true]
  simp only [decide_eq_true_eq, Option.mem_def]

theorem pairwise_after (hl : l.Pairwise (key · < key ·)) :
    (after key cursor l).Pairwise (key · < key ·) :=
  hl.sublist List.filter_sublist

/-- A page holds the first rows above the cursor. -/
theorem page_data : (page key limit cursor l).data = (after key cursor l).take limit := by
  rw [page, cut]
  split
  · exact List.take_take.trans (by rw [Nat.min_eq_left (Nat.le_succ limit)])
  · next h =>
    have hle : (after key cursor l).length ≤ limit := by
      rw [List.length_take] at h
      omega
    exact (List.take_of_length_le (by omega)).trans (List.take_of_length_le hle).symm

/-- It has a next cursor, its last key, exactly if there are more rows. -/
theorem page_nextCursor : (page key limit cursor l).nextCursor =
    if limit < (after key cursor l).length then
      ((after key cursor l).take limit).getLast?.map key
    else none := by
  rw [← page_data, page, cut]
  by_cases h : limit < (after key cursor l).length
  · rw [if_pos h, if_pos (by rw [List.length_take]; omega)]
  · rw [if_neg h, if_neg (by rw [List.length_take]; omega)]

/-- A page without a cursor is the last one. -/
theorem data_of_nextCursor_none (hlimit : 0 < limit)
    (h : (page key limit cursor l).nextCursor = none) :
    (page key limit cursor l).data = after key cursor l := by
  rw [page_data]
  refine List.take_of_length_le ?_
  by_contra hlt
  rw [page_nextCursor, if_pos (by omega), Option.map_eq_none_iff, List.getLast?_eq_none_iff,
    ← List.length_eq_zero_iff, List.length_take] at h
  omega

/-- What is above a key among the rows above a lower cursor. -/
theorem after_after {k : κ} (hk : ∀ c ∈ cursor, c < k) :
    after key (some k) (after key cursor l) = after key (some k) l := by
  rw [after, after, after, List.filter_filter]
  refine List.filter_congr fun b _ => ?_
  by_cases hb : k < key b
  · have hcb : cursor.all (· < key b) := by
      rw [Option.all_eq_true]
      exact fun c hc => decide_eq_true ((hk c hc).trans hb)
    rw [hcb, Bool.and_true]
  · simp [hb]

/-- Of rows in order, those above a row are those behind it. -/
theorem after_split {xs ys : List α} {a : α} (h : (xs ++ a :: ys).Pairwise (key · < key ·)) :
    after key (some (key a)) (xs ++ a :: ys) = ys := by
  rw [List.pairwise_append, List.pairwise_cons] at h
  obtain ⟨_, ⟨habove, _⟩, hbelow⟩ := h
  have hxs : xs.filter (fun b => (some (key a)).all (· < key b)) = [] := by
    rw [List.filter_eq_nil_iff]
    intro b hb
    simpa using (hbelow b hb a List.mem_cons_self).le
  have hys : ys.filter (fun b => (some (key a)).all (· < key b)) = ys :=
    List.filter_eq_self.2 fun b hb => by simpa using habove b hb
  rw [after, List.filter_append, hxs, List.nil_append, List.filter_cons_of_neg (by simp), hys]

/-- A page with a cursor is full, and its cursor is the key of its last row. It
    splits what is above the cursor it was fetched with: into its own rows, and
    those above its own cursor. -/
theorem page_of_nextCursor_some {c : κ} (hl : l.Pairwise (key · < key ·))
    (h : (page key limit cursor l).nextCursor = some c) :
    (page key limit cursor l).data.length = limit ∧
      (∃ a ∈ after key cursor l, key a = c) ∧
      (∀ a ∈ (page key limit cursor l).data, key a ≤ c) ∧
      after key cursor l = (page key limit cursor l).data ++ after key (some c) l := by
  rw [page_nextCursor] at h
  split at h
  case isFalse => cases h
  case isTrue hlt =>
  obtain ⟨a, ha, rfl⟩ := Option.map_eq_some_iff.1 h
  obtain ⟨xs, hxs⟩ := List.getLast?_eq_some_iff.1 ha
  -- There are more rows than fit, so that the page is full and ends with the row whose key
  -- is the cursor; what is above this key is the rest.
  have hsplit : after key cursor l = xs ++ a :: (after key cursor l).drop limit := by
    rw [List.append_cons, ← hxs, List.take_append_drop]
  have hsorted : (after key cursor l).Pairwise (key · < key ·) := pairwise_after hl
  have hmem : a ∈ after key cursor l := by
    rw [hsplit]
    exact List.mem_append_right _ List.mem_cons_self
  have hrest : after key (some (key a)) l = (after key cursor l).drop limit := by
    rw [← after_after (mem_after.1 hmem).2]
    conv_lhs => rw [hsplit]
    exact after_split (hsplit ▸ hsorted)
  rw [page_data, hxs]
  refine ⟨?_, ⟨a, hmem, rfl⟩, ?_, ?_⟩
  · rw [← hxs, List.length_take]
    omega
  · intro b hb
    rw [hsplit, List.pairwise_append] at hsorted
    rcases List.mem_append.1 hb with hb | hb
    · exact (hsorted.2.2 b hb a List.mem_cons_self).le
    · rw [List.mem_singleton.1 hb]
  · rw [hrest, ← hxs, List.take_append_drop]

/-! ## Traversals -/

/-- In the state `s` of the source, `fetch` answers with the pages of its rows,
    which are in order; or it refuses whatever the cursor is. -/
structure Serves (key : α → κ) (limit : ℕ) (fetch : σ → Option κ → Option (Page α κ))
    (rows : σ → Option (List α)) (s : σ) : Prop where
  fetch : ∀ cursor, fetch s cursor = (rows s).map (page key limit cursor)
  sorted : ∀ l, rows s = some l → l.Pairwise (key · < key ·)

variable {fetch : σ → Option κ → Option (Page α κ)} {rows : σ → Option (List α)} {s : σ}
  {ss : List σ} {pages : List (Page α κ)}

/-- A page that is fetched is one of the rows that are there. -/
theorem Serves.eq_page {p : Page α κ} (hs : Serves key limit fetch rows s)
    (hp : fetch s cursor = some p) :
    ∃ l, rows s = some l ∧ l.Pairwise (key · < key ·) ∧ p = page key limit cursor l := by
  rw [hs.fetch] at hp
  obtain ⟨l, hl, rfl⟩ := Option.map_eq_some_iff.1 hp
  exact ⟨l, hl, hs.sorted l hl, rfl⟩

/-- The keys that are handed out increase, whatever the source does. -/
theorem traverse_increasing (hss : ∀ s ∈ ss, Serves key limit fetch rows s)
    (h : traverse fetch cursor ss = some pages) :
    (allRows pages).Pairwise (key · < key ·) ∧
      ∀ a ∈ allRows pages, ∀ c ∈ cursor, c < key a := by
  induction ss generalizing cursor pages with
  | nil =>
    obtain rfl := Option.some.inj h
    exact ⟨.nil, fun _ ha => absurd ha List.not_mem_nil⟩
  | cons s ss ih =>
    obtain ⟨p, hp, hpages⟩ := traverse_cons h
    obtain ⟨l, _, hsorted, rfl⟩ := (hss s List.mem_cons_self).eq_page hp
    -- On the calls. Each page is sorted and above its cursor; the next cursor is the key of
    -- a row of this page.
    have habove : ∀ a ∈ (page key limit cursor l).data, ∀ c ∈ cursor, c < key a := by
      rw [page_data]
      exact fun a ha => (mem_after.1 (List.mem_of_mem_take ha)).2
    have hdata : (page key limit cursor l).data.Pairwise (key · < key ·) := by
      rw [page_data]
      exact (pairwise_after hsorted).sublist (List.take_sublist _ _)
    obtain ⟨_, rfl⟩ | ⟨c, rest, hc, hrest, rfl⟩ := hpages
    · rw [allRows_cons, allRows_nil, List.append_nil]
      exact ⟨hdata, habove⟩
    · -- The rest is above the cursor of the page, and the page below it.
      obtain ⟨hincr, hrestAbove⟩ := ih (fun s hs => hss s (List.mem_cons_of_mem _ hs)) hrest
      obtain ⟨_, ⟨a, ha, hac⟩, hle, _⟩ := page_of_nextCursor_some hsorted hc
      rw [allRows_cons, List.pairwise_append]
      refine ⟨⟨hdata, hincr, fun x hx y hy => ?_⟩, fun x hx => ?_⟩
      · exact (hle x hx).trans_lt (hrestAbove y hy c rfl)
      · rcases List.mem_append.1 hx with hx | hx
        · exact habove x hx
        · intro d hd
          have hdc : d < c := hac ▸ (mem_after.1 ha).2 d hd
          exact hdc.trans (hrestAbove x hx c rfl)

/-- A key above the cursor that has a row throughout is handed out, if the
    traversal ends. -/
theorem traverse_complete {k : κ} (hlimit : 0 < limit)
    (hss : ∀ s ∈ ss, Serves key limit fetch rows s) (h : traverse fetch cursor ss = some pages)
    (hended : Ended pages) (hk : ∀ c ∈ cursor, c < k)
    (hthroughout : ∀ s ∈ ss, ∀ l, rows s = some l → ∃ a ∈ l, key a = k) :
    ∃ a ∈ allRows pages, key a = k := by
  induction ss generalizing cursor pages with
  | nil =>
    obtain rfl := Option.some.inj h
    exact absurd hended not_ended_nil
  | cons s ss ih =>
    obtain ⟨p, hp, hpages⟩ := traverse_cons h
    obtain ⟨l, hl, hsorted, rfl⟩ := (hss s List.mem_cons_self).eq_page hp
    obtain ⟨a, ha, rfl⟩ := hthroughout s List.mem_cons_self l hl
    -- The row is in this page or above its last key, whatever happens to the other rows.
    have hafter : a ∈ after key cursor l := mem_after.2 ⟨ha, hk⟩
    obtain ⟨hnone, rfl⟩ | ⟨c, rest, hc, hrest, rfl⟩ := hpages
    · rw [allRows_cons, allRows_nil, List.append_nil, data_of_nextCursor_none hlimit hnone]
      exact ⟨a, hafter, rfl⟩
    · rw [allRows_cons]
      have hsplit := (page_of_nextCursor_some hsorted hc).2.2.2
      rw [hsplit] at hafter
      rcases List.mem_append.1 hafter with hdata | hrow
      · exact ⟨a, List.mem_append_left _ hdata, rfl⟩
      · -- The row is above the cursor of the page, and still there.
        obtain ⟨b, hb, hba⟩ := ih (fun s hs => hss s (List.mem_cons_of_mem _ hs)) hrest
          ((ended_cons hc).1 hended) (mem_after.1 hrow).2
          fun s hs => hthroughout s (List.mem_cons_of_mem _ hs)
        exact ⟨b, List.mem_append_right _ hb, hba⟩

/-- If the source does not change, the pages are its rows above the cursor, in
    order; and all of them but the last are full. -/
theorem traverse_exact (hlimit : 0 < limit) (hss : ∀ s ∈ ss, Serves key limit fetch rows s)
    (hrows : ∀ s ∈ ss, rows s = some l) (h : traverse fetch cursor ss = some pages)
    (hended : Ended pages) :
    allRows pages = after key cursor l ∧ ∀ p ∈ pages.dropLast, p.data.length = limit := by
  induction ss generalizing cursor pages with
  | nil =>
    obtain rfl := Option.some.inj h
    exact absurd hended not_ended_nil
  | cons s ss ih =>
    obtain ⟨p, hp, hpages⟩ := traverse_cons h
    obtain ⟨l', hl', hsorted, rfl⟩ := (hss s List.mem_cons_self).eq_page hp
    -- The rows are the same at every call: each page is cut off from what the one before
    -- has left.
    obtain rfl : l = l' := Option.some.inj ((hrows s List.mem_cons_self).symm.trans hl')
    obtain ⟨hnone, rfl⟩ | ⟨c, rest, hc, hrest, rfl⟩ := hpages
    · rw [allRows_cons, allRows_nil, List.append_nil, data_of_nextCursor_none hlimit hnone]
      exact ⟨rfl, fun _ hp => absurd hp List.not_mem_nil⟩
    · obtain ⟨hfull, _, _, hsplit⟩ := page_of_nextCursor_some hsorted hc
      obtain ⟨hall, hfullRest⟩ := ih (fun s hs => hss s (List.mem_cons_of_mem _ hs))
        (fun s hs => hrows s (List.mem_cons_of_mem _ hs)) hrest ((ended_cons hc).1 hended)
      rw [allRows_cons, hall, ← hsplit]
      refine ⟨rfl, fun p hp => ?_⟩
      rcases List.eq_nil_or_concat' rest with rfl | ⟨init, q, rfl⟩
      · cases hp
      · rw [← List.cons_append, List.dropLast_concat] at hp
        rw [List.dropLast_concat] at hfullRest
        rcases List.mem_cons.1 hp with rfl | hp
        · exact hfull
        · exact hfullRest p hp

/-- If the keys of all rows are among those of `F`, and no call is refused, the
    traversal ends with no more calls than there are keys above the cursor. -/
theorem exists_traverse (F : Finset κ) (hss : ∀ s ∈ ss, Serves key limit fetch rows s)
    (hrows : ∀ s ∈ ss, ∃ l, rows s = some l ∧ ∀ a ∈ l, key a ∈ F)
    (hlength : (F.filter fun k => cursor.all (· < k)).card < ss.length) :
    ∃ pages, traverse fetch cursor ss = some pages ∧ Ended pages := by
  induction ss generalizing cursor with
  | nil => exact absurd hlength (Nat.not_lt_zero _)
  | cons s ss ih =>
    obtain ⟨l, hl, hF⟩ := hrows s List.mem_cons_self
    have hs := hss s List.mem_cons_self
    rw [traverse, hs.fetch, hl, Option.map_some, Option.bind_some]
    cases hc : (page key limit cursor l).nextCursor with
    | none => exact ⟨_, rfl, ended_singleton.2 hc⟩
    | some c =>
      obtain ⟨_, ⟨a, ha, hac⟩, _⟩ := page_of_nextCursor_some (hs.sorted l hl) hc
      obtain ⟨hal, hcursor⟩ := mem_after.1 ha
      rw [hac] at hcursor
      -- The key `c` is above the old cursor, and not above the new one.
      have hfewer : (F.filter fun k => (some c).all (· < k)) ⊂
          F.filter fun k => cursor.all (· < k) := by
        refine (Finset.ssubset_iff_of_subset fun k hk => ?_).2 ⟨c, ?_, ?_⟩
        · obtain ⟨hkF, hck⟩ := Finset.mem_filter.1 hk
          refine Finset.mem_filter.2 ⟨hkF, ?_⟩
          rw [Option.all_eq_true]
          exact fun d hd => decide_eq_true ((hcursor d hd).trans (by simpa using hck))
        · refine Finset.mem_filter.2 ⟨hac ▸ hF a hal, ?_⟩
          rw [Option.all_eq_true]
          exact fun d hd => decide_eq_true (hcursor d hd)
        · simp
      have hcard := Finset.card_lt_card hfewer
      rw [List.length_cons] at hlength
      obtain ⟨pages, hpages, hended⟩ :
          ∃ pages, traverse fetch (some c) ss = some pages ∧ Ended pages :=
        ih (fun s hs => hss s (List.mem_cons_of_mem _ hs))
          (fun s hs => hrows s (List.mem_cons_of_mem _ hs)) (by omega)
      exact ⟨page key limit cursor l :: pages, by simp [hpages], (ended_cons hc).2 hended⟩

end Pagination
