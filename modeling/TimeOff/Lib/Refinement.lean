import TimeOff.Lib.Run

/-!
# Refinement

A system is described twice, in steps of a different size. The finer one
*refines* the other along a map `view` of its states, if each of its steps is
one of the other system (`label` says which), or is not seen there. Then its
runs are runs of the other system, by what is seen of their history
(`Run.refines`); so what holds of all runs of the coarser system holds of the
finer one.
-/

namespace Transition

variable {σ τ α β : Type*} {view : σ → τ} {label : σ → α → Option β} {h : List (σ × α)}
  {next : σ → α → Option σ} {ok : σ → α → Prop} {next' : τ → β → Option τ} {ok' : τ → β → Prop}
  {s₀ s s' : σ} {a : α} {b : β}

/-- What is seen of a history. -/
def seen (view : σ → τ) (label : σ → α → Option β) (h : List (σ × α)) : List (τ × β) :=
  h.filterMap fun x => (label x.1 x.2).map (view x.1, ·)

theorem seen_snoc_some (hlabel : label s a = some b) :
    seen view label (h ++ [(s, a)]) = seen view label h ++ [(view s, b)] := by
  rw [seen, filterMap_snoc, hlabel]
  rfl

theorem seen_snoc_none (hlabel : label s a = none) :
    seen view label (h ++ [(s, a)]) = seen view label h := by
  rw [seen, filterMap_snoc, hlabel]
  exact List.append_nil _

/-- If the steps of a run are steps of another system, or not seen there, it is
    a run of this system. The steps may use that they are taken from a state
    that both have reached. -/
theorem Run.refines
    (hstep : ∀ h s a s', Run next ok s₀ h s →
      Run next' ok' (view s₀) (seen view label h) (view s) → ok s a → next s a = some s' →
      (∃ b, label s a = some b ∧ ok' (view s) b ∧ next' (view s) b = some (view s')) ∨
        (label s a = none ∧ view s' = view s))
    (hrun : Run next ok s₀ h s) : Run next' ok' (view s₀) (seen view label h) (view s) := by
  induction hrun with
  | init => exact .init
  | step hrun hok hnext ih =>
    rcases hstep _ _ _ _ hrun ih hok hnext with ⟨b, hlabel, hok', hnext'⟩ | ⟨hlabel, hview⟩
    · rw [seen_snoc_some hlabel]
      exact .step ih hok' hnext'
    · rwa [seen_snoc_none hlabel, hview]

end Transition
