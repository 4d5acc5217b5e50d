import Mathlib.Logic.Basic

/-!
# Transactions

A transaction is a program in `EStateM ε σ`: it reads and writes the store
`σ`, and may throw an `ε`, in which case the store it leaves is the one at the
point of the throw. Running it *atomically* rolls that back
(`Transaction.atomically`).

A proof about a transaction that succeeds takes it apart from the front, with
`bind_eq_ok` and a lemma for each of its parts. What it may throw is put
together from its parts (`ThrowsOnly`). So is that it does not read a part of
the store, and what it makes of this part (`Blind`).
-/

namespace Transaction

variable {ε σ α β : Type}

/-- A sequence returns if both parts do, the second one from where the first has
    got to. -/
theorem bind_eq_ok {x : EStateM ε σ α} {f : α → EStateM ε σ β} {s s' : σ} {b : β} :
    (x >>= f).run s = .ok b s' ↔ ∃ a s₁, x.run s = .ok a s₁ ∧ (f a).run s₁ = .ok b s' := by
  rw [EStateM.run_bind]
  cases x.run s with
  | ok a s₁ => simp [and_assoc]
  | error e s₁ => simp

theorem run_get_bind {f : σ → EStateM ε σ β} {s : σ} :
    ((get : EStateM ε σ σ) >>= f).run s = (f s).run s := rfl

theorem run_modify_bind {g : σ → σ} {f : PUnit → EStateM ε σ β} {s : σ} :
    ((modify g : EStateM ε σ PUnit) >>= f).run s = (f ⟨⟩).run (g s) := rfl

@[simp] theorem pure_eq_ok {s s' : σ} {a b : α} :
    (pure a : EStateM ε σ α).run s = .ok b s' ↔ a = b ∧ s = s' := by
  rw [EStateM.run_pure, EStateM.Result.ok.injEq]

@[simp] theorem modify_eq_ok {f : σ → σ} {s s' : σ} {u : PUnit} :
    (modify f : EStateM ε σ PUnit).run s = .ok u s' ↔ f s = s' := by
  change EStateM.Result.ok PUnit.unit (f s) = _ ↔ _
  simp

@[simp] theorem throw_ne_ok {e : ε} {s s' : σ} {a : α} :
    (throw e : EStateM ε σ α).run s ≠ .ok a s' := by
  change EStateM.Result.error e s ≠ _
  simp

/-- A check throws, or does nothing. -/
theorem check_eq_ok {p : Prop} [Decidable p] {e : ε} {s s' : σ} {u : PUnit} :
    (if p then pure ⟨⟩ else throw e : EStateM ε σ PUnit).run s = .ok u s' ↔ p ∧ s' = s := by
  by_cases hp : p
  · simp [hp, eq_comm]
  · simp [hp]

/-- Running a transaction: it commits, or it is rolled back and throws. -/
def atomically (x : EStateM ε σ α) (s : σ) : Except ε α × σ :=
  match x.run s with
  | .ok a s' => (.ok a, s')
  | .error e _ => (.error e, s)

/-- The store after a transaction: that of the commit, or the one before it. -/
theorem atomically_snd {x : EStateM ε σ α} {s s' : σ} (h : (atomically x s).2 = s') :
    (∃ a, x.run s = .ok a s') ∨ (∃ e t, x.run s = .error e t ∧ s' = s) := by
  rw [atomically] at h
  split at h
  · next a t hx => exact .inl ⟨a, by rw [hx, ← h]⟩
  · next e t hx => exact .inr ⟨e, t, hx, h.symm⟩

/-- The transaction returns a value with the property `p`. -/
def returns (x : EStateM ε σ α) (s : σ) (p : α → Bool) : Bool :=
  match x.run s with
  | .ok a _ => p a
  | .error _ _ => false

/-- The test, as a statement. -/
theorem returns_iff {x : EStateM ε σ α} {s : σ} {p : α → Bool} :
    returns x s p ↔ ∃ a s', x.run s = .ok a s' ∧ p a := by
  rw [returns]
  cases x.run s with
  | ok a s' => simp
  | error e s' => simp

/-! ## What is thrown -/

/-- Whatever `x` throws satisfies `P`. -/
def ThrowsOnly (P : ε → Prop) (x : EStateM ε σ α) : Prop :=
  ∀ s e s', x.run s = .error e s' → P e

namespace ThrowsOnly

variable {P : ε → Prop} {x : EStateM ε σ α} {f : α → EStateM ε σ β}

theorem pure (a : α) : ThrowsOnly P (pure a : EStateM ε σ α) := by
  intro s e s' h
  cases h

theorem modify (g : σ → σ) : ThrowsOnly P (modify g : EStateM ε σ PUnit) := by
  intro s e s' h
  cases h

theorem throw {e : ε} (he : P e) : ThrowsOnly P (throw e : EStateM ε σ α) := by
  intro s e' s' h
  cases h
  exact he

theorem get : ThrowsOnly P (get : EStateM ε σ σ) := by
  intro s e s' h
  cases h

/-- A sequence throws what one of its parts throws. -/
theorem bind (hx : ThrowsOnly P x) (hf : ∀ a, ThrowsOnly P (f a)) : ThrowsOnly P (x >>= f) := by
  intro s e s' h
  rw [EStateM.run_bind] at h
  cases hrun : x.run s with
  | ok a s₁ =>
    rw [hrun] at h
    exact hf a s₁ e s' h
  | error e₁ s₁ =>
    rw [hrun] at h
    obtain ⟨rfl, rfl⟩ := EStateM.Result.error.inj h
    exact hx s _ _ hrun

end ThrowsOnly

/-! ## What is not read -/

/-- `x` does not read the part of the store that `set` sets: whatever it is, `x`
    returns the same, and has updated the part in the same way, one of `U`; or
    it throws the same. -/
def Blind {π : Type} (set : π → σ → σ) (U : (π → π) → Prop) (x : EStateM ε σ α) : Prop :=
  ∀ s, (∃ a s' u, U u ∧ ∀ p, x.run (set p s) = .ok a (set (u p) s')) ∨
    ∃ e, ∀ p, ∃ t, x.run (set p s) = .error e t

namespace Blind

variable {π : Type} {set : π → σ → σ} {U V W : (π → π) → Prop} {x : EStateM ε σ α}
  {f : α → EStateM ε σ β}

theorem pure (hU : U id) (a : α) : Blind set U (pure a : EStateM ε σ α) :=
  fun s => .inl ⟨a, s, id, hU, fun _ => rfl⟩

theorem throw (e : ε) : Blind set U (throw e : EStateM ε σ α) :=
  fun _ => .inr ⟨e, fun _ => ⟨_, rfl⟩⟩

/-- A check of what has been read before. -/
theorem check (hU : U id) {p : Prop} [Decidable p] (e : ε) :
    Blind set U (if p then Pure.pure ⟨⟩ else throwThe ε e : EStateM ε σ PUnit) := by
  split
  · exact pure hU _
  · exact throw e

/-- From every store, `x` does what a blind program does. -/
theorem of_run (h : ∀ s, ∃ y, Blind set U y ∧ ∀ p, x.run (set p s) = y.run (set p s)) :
    Blind set U x := by
  intro s
  obtain ⟨y, hy, hrun⟩ := h s
  simp only [hrun]
  exact hy s

/-- The updates are made one after the other. -/
theorem bind (hx : Blind set U x) (hf : ∀ a, Blind set V (f a))
    (hW : ∀ u v, U u → V v → W (v ∘ u)) : Blind set W (x >>= f) := by
  intro s
  rcases hx s with ⟨a, s₁, u, hu, hrun⟩ | ⟨e, hrun⟩
  · rcases hf a s₁ with ⟨b, s₂, v, hv, hrun'⟩ | ⟨e, hrun'⟩
    · refine .inl ⟨b, s₂, v ∘ u, hW u v hu hv, fun p => ?_⟩
      exact bind_eq_ok.2 ⟨a, _, hrun p, hrun' (u p)⟩
    · refine .inr ⟨e, fun p => ?_⟩
      obtain ⟨t, ht⟩ := hrun' (u p)
      exact ⟨t, by rw [EStateM.run_bind, hrun p]; exact ht⟩
  · refine .inr ⟨e, fun p => ?_⟩
    obtain ⟨t, ht⟩ := hrun p
    exact ⟨t, by rw [EStateM.run_bind, ht]⟩

end Blind

end Transaction
