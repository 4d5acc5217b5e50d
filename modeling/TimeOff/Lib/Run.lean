import Mathlib.Data.List.Basic
import Mathlib.Data.Option.Basic

/-!
# Runs of a transition function

A system is a partial transition function `next : σ → α → Option σ`: the
action `a` is enabled at `s` when `next s a` is a state. A *run* is a sequence
of enabled steps, all of which meet a condition `ok` on the state they are
taken from and their action; a claim about a class of runs is a claim about
the runs for the `ok` of that class.

A run carries its *history*, the list of its steps `(s, a)`, so that what has
happened (how often an event was sent, which calls have committed) is read off
the history, and no state needs a field that only a proof looks at.

* `Run.invariant`, `Run.history`: the induction on runs, for an invariant of
  the states and for one that relates the history to the state it reaches;
* `Run.append`: runs compose;
* `replay`, `Run.replay_iff`: what is seen of the states of a run is the replay
  of its history, if and only if no step changes it otherwise;
* `Run.last_write`: a register holds what has been written last;
* `exec`, `exists_run_of_exec`: a concrete run is computed.
-/

namespace Transition

variable {σ α : Type*}

/-- The runs of `next` from `s₀` whose steps meet `ok`, by their history and
    the state they reach. -/
inductive Run (next : σ → α → Option σ) (ok : σ → α → Prop) (s₀ : σ) : List (σ × α) → σ → Prop
  | init : Run next ok s₀ [] s₀
  | step {h : List (σ × α)} {s s' : σ} {a : α} :
      Run next ok s₀ h s → ok s a → next s a = some s' → Run next ok s₀ (h ++ [(s, a)]) s'

variable {next : σ → α → Option σ} {ok ok' : σ → α → Prop} {s₀ s s' : σ} {h h' : List (σ × α)}

/-- What holds initially and is preserved by the steps of a run, holds where
    it ends. -/
theorem Run.invariant {I : σ → Prop} (hinit : I s₀)
    (hstep : ∀ s a s', I s → ok s a → next s a = some s' → I s')
    (hrun : Run next ok s₀ h s) : I s := by
  induction hrun with
  | init => exact hinit
  | step _ hok hnext ih => exact hstep _ _ _ ih hok hnext

/-- The same for a property of the history and the state reached; the steps
    may use that they are taken from a state a run has reached. -/
theorem Run.history {I : List (σ × α) → σ → Prop} (hinit : I [] s₀)
    (hstep : ∀ h s a s', Run next ok s₀ h s → I h s → ok s a → next s a = some s' →
      I (h ++ [(s, a)]) s')
    (hrun : Run next ok s₀ h s) : I h s := by
  induction hrun with
  | init => exact hinit
  | step hrun hok hnext ih => exact hstep _ _ _ _ hrun ih hok hnext

theorem Run.mono (hmono : ∀ s a, ok s a → ok' s a) (hrun : Run next ok s₀ h s) :
    Run next ok' s₀ h s := by
  induction hrun with
  | init => exact .init
  | step _ hok hnext ih => exact .step ih (hmono _ _ hok) hnext

/-- A condition that the steps of the history meet can be added to that of
    the run. -/
theorem Run.and (hrun : Run next ok s₀ h s) (hall : ∀ x ∈ h, ok' x.1 x.2) :
    Run next (fun s a => ok s a ∧ ok' s a) s₀ h s := by
  induction hrun with
  | init => exact .init
  | step _ hok hnext ih =>
    refine .step (ih fun x hx => hall x (List.mem_append_left _ hx)) ⟨hok, ?_⟩ hnext
    exact hall _ (List.mem_append_right _ (List.mem_singleton_self _))

/-- Runs compose. -/
theorem Run.append (hrun : Run next ok s₀ h s) (hrun' : Run next ok s h' s') :
    Run next ok s₀ (h ++ h') s' := by
  induction hrun' with
  | init => rwa [List.append_nil]
  | step _ hok hnext ih => rw [← List.append_assoc]; exact .step ih hok hnext

/-- The steps of the history have been taken from states that a run has
    reached. -/
theorem Run.of_mem {x : σ × α} (hrun : Run next ok s₀ h s) (hx : x ∈ h) :
    ∃ h' s', Run next ok s₀ h' x.1 ∧ ok x.1 x.2 ∧ next x.1 x.2 = some s' := by
  induction hrun with
  | init => cases hx
  | step hrun hok hnext ih =>
    rcases List.mem_append.1 hx with hx | hx
    · exact ih hx
    · obtain rfl := List.mem_singleton.1 hx
      exact ⟨_, _, hrun, hok, hnext⟩

/-- How often something has happened, after one more step. -/
theorem countP_snoc (p : σ × α → Bool) (h : List (σ × α)) (e : σ × α) :
    (h ++ [e]).countP p = h.countP p + if p e then 1 else 0 := by
  rw [List.countP_append, List.countP_singleton]

/-- What has come out of the steps, after one more step. -/
theorem filterMap_snoc {β : Type*} (f : σ × α → Option β) (h : List (σ × α)) (e : σ × α) :
    (h ++ [e]).filterMap f = h.filterMap f ++ (f e).toList := by
  rw [List.filterMap_append, List.filterMap_cons, List.filterMap_nil]
  cases f e <;> rfl

/-! ## Replaying a history -/

variable {β : Type*}

/-- What the steps of the history make of `b`, in order. -/
def replay (effect : σ × α → β → β) (h : List (σ × α)) (b : β) : β :=
  h.foldl (fun b x => effect x b) b

theorem replay_snoc {effect : σ × α → β → β} {b : β} {x : σ × α} :
    replay effect (h ++ [x]) b = effect x (replay effect h b) := by
  rw [replay, List.foldl_append, List.foldl_cons, List.foldl_nil, replay]

/-- A step is `faithful` when it changes what is seen of a state by its effect.
    What is seen of the states that a run goes through is the replay of its
    history up to there, if and only if all its steps are faithful. -/
theorem Run.replay_iff {view : σ → β} {effect : σ × α → β → β} {faithful : σ → α → Prop}
    (hstep : ∀ s a s', next s a = some s' → (view s' = effect (s, a) (view s) ↔ faithful s a))
    (hrun : Run next ok s₀ h s) :
    (∀ h₁ h₂ t, h = h₁ ++ h₂ → Run next ok s₀ h₁ t → view t = replay effect h₁ (view s₀)) ↔
      ∀ x ∈ h, faithful x.1 x.2 := by
  constructor
  · -- On the run: its last step is faithful, because the replay is right up to it and right
    -- after it.
    intro hview
    induction hrun with
    | init => exact fun x hx => absurd hx List.not_mem_nil
    | @step h s s' a hrun hok hnext ih =>
      have hfaithful := ih fun h₁ h₂ t ht => hview h₁ (h₂ ++ [(s, a)]) t (by
        rw [ht, List.append_assoc])
      intro x hx
      rcases List.mem_append.1 hx with hx | hx
      · exact hfaithful x hx
      · -- The replay is right before the last step and after it.
        obtain rfl := List.mem_singleton.1 hx
        have hbefore := hview h [(s, a)] s rfl hrun
        have hafter := hview _ [] s' (List.append_nil _).symm (.step hrun hok hnext)
        rw [replay_snoc, ← hbefore] at hafter
        exact (hstep s a s' hnext).1 hafter
  · intro hfaithful h₁ h₂ t hh hrun₁
    have hfaithful₁ := fun x hx => hfaithful x (hh ▸ List.mem_append_left h₂ hx)
    clear hh
    induction hrun₁ with
    | init => rfl
    | @step h s s' a hrun hok hnext ih =>
      have hlast := hfaithful₁ (s, a) (List.mem_append_right _ (List.mem_singleton_self _))
      rw [replay_snoc, (hstep s a s' hnext).2 hlast,
        ih fun x hx => hfaithful₁ x (List.mem_append_left _ hx)]

/-- Where every step makes what is seen of a state the last of the values that
    it writes, if any, what is seen at the end of a run is the last value that
    has been written in it. The steps may use an invariant. -/
theorem Run.last_write {view : σ → β} {writes : σ × α → List β} {I : σ → Prop} (hinit : I s₀)
    (hstep : ∀ s a s', I s → ok s a → next s a = some s' →
      I s' ∧ view s' = ((writes (s, a)).getLast?).getD (view s))
    (hrun : Run next ok s₀ h s) :
    I s ∧ view s = ((h.flatMap writes).getLast?).getD (view s₀) := by
  refine hrun.history (I := fun h s => I s ∧ view s = ((h.flatMap writes).getLast?).getD (view s₀))
    ⟨hinit, rfl⟩ fun h s a s' _ ⟨hI, hview⟩ hok hnext => ?_
  obtain ⟨hI', hview'⟩ := hstep s a s' hI hok hnext
  refine ⟨hI', ?_⟩
  rw [hview', hview, List.flatMap_append, List.flatMap_singleton, List.getLast?_append]
  cases (writes (s, a)).getLast? <;> rfl

/-! ## Computing a run -/

/-- The state reached by the actions `as` in turn, if they are all enabled. -/
def exec (next : σ → α → Option σ) : σ → List α → Option σ
  | s, [] => some s
  | s, a :: as => (next s a).bind fun s' => exec next s' as

/-- The history of these actions, as far as they are enabled. -/
def trace (next : σ → α → Option σ) : σ → List α → List (σ × α)
  | _, [] => []
  | s, a :: as => (s, a) :: (next s a).elim [] fun s' => trace next s' as

/-- Actions may be executed one list after the other. -/
theorem exec_append {as bs : List α} (hexec : exec next s as = some s') :
    exec next s (as ++ bs) = exec next s' bs := by
  induction as generalizing s with
  | nil =>
    obtain rfl := Option.some.inj hexec
    rfl
  | cons a as ih =>
    obtain ⟨t, hnext, hexec⟩ := Option.bind_eq_some_iff.1 hexec
    rw [List.cons_append, exec, hnext, Option.bind_some, ih hexec]

/-- The trace shows no other actions. -/
theorem mem_of_mem_trace {as : List α} {x : σ × α} (hx : x ∈ trace next s as) : x.2 ∈ as := by
  induction as generalizing s with
  | nil => cases hx
  | cons a as ih =>
    rcases List.mem_cons.1 hx with rfl | hx
    · exact List.mem_cons_self
    · cases hnext : next s a with
      | none => rw [hnext] at hx; cases hx
      | some s' => rw [hnext] at hx; exact List.mem_cons_of_mem _ (ih hx)

/-- The history of actions that can be executed is one of these actions. -/
theorem map_snd_trace {as : List α} (hexec : exec next s as = some s') :
    (trace next s as).map Prod.snd = as := by
  induction as generalizing s with
  | nil => rfl
  | cons a as ih =>
    obtain ⟨t, hnext, hexec⟩ := Option.bind_eq_some_iff.1 hexec
    rw [trace, hnext, Option.elim_some, List.map_cons, ih hexec]

/-- Actions that can be executed make a run, if their steps meet its
    condition. -/
theorem run_of_exec {as : List α} (hok : ∀ x ∈ trace next s₀ as, ok x.1 x.2)
    (hexec : exec next s₀ as = some s) : Run next ok s₀ (trace next s₀ as) s := by
  suffices hgen : ∀ (bs : List α) (t : σ) (h : List (σ × α)),
      (∀ x ∈ trace next t bs, ok x.1 x.2) → Run next ok s₀ h t → exec next t bs = some s →
      Run next ok s₀ (h ++ trace next t bs) s from hgen as s₀ [] hok .init hexec
  intro bs
  induction bs with
  | nil =>
    intro t h _ hrun hexec
    obtain rfl : t = s := Option.some.inj hexec
    rwa [trace, List.append_nil]
  | cons b bs ih =>
    intro t h hok hrun hexec
    obtain ⟨t', hnext, hexec⟩ := Option.bind_eq_some_iff.1 hexec
    rw [trace, hnext, Option.elim_some] at hok ⊢
    have hrun' := ih t' _ (fun x hx => hok x (List.mem_cons_of_mem _ hx))
      (.step hrun (hok (t, b) List.mem_cons_self) hnext) hexec
    rwa [List.append_assoc, List.singleton_append] at hrun'

/-- A state with the property `P` is reached by executing `as`. -/
theorem exists_run_of_exec {p : α → Prop} {P : σ → Prop} {as : List α} (hp : ∀ a ∈ as, p a)
    (hexec : ∃ s ∈ exec next s₀ as, P s) :
    ∃ s, Run next (fun _ a => p a) s₀ (trace next s₀ as) s ∧ P s := by
  obtain ⟨s, hs, hP⟩ := hexec
  exact ⟨s, run_of_exec (fun x hx => hp x.2 (mem_of_mem_trace hx)) hs, hP⟩

end Transition
