import Mathlib.Data.Nat.Notation
import Mathlib.Logic.Basic
import TimeOff.Lib.Transaction

/-!
# Scripts

A *script* is a program that executes statements on a store, one at a time,
and may throw. Between two statements it waits, and whatever happens to the
store meanwhile is none of its business: `Script.step` executes the next
statement on the store as it is then. A statement finds the store, and changes
it, affects nothing, or throws; the script goes on with what it has found, or
handles the error (`tryCatch`).

* `Script.run`: the script left to itself, except for the statements that are
  made to throw (`fault`), with the labels of what it has executed;
* `run_bind`, `run_tryCatch`: a script is run part by part;
* `All`, `Strict`, `Ensures`, `AtMost`: what it may execute, on any path;
* `Agrees`: left to itself, a script does what a transaction does, on the part
  of the store of the transaction that the script can see.
-/

/-- A program that executes statements, labelled by `ℓ`, on the store `σ`, and
    returns an `α` or throws an `ε`. -/
inductive Script (ℓ σ ε α : Type)
  | done (a : α)
  | raise (e : ε)
  /-- The statement `exec` is executed: it leaves a new store, or `none` if it
      affects nothing. The script goes on with the store that it has found. -/
  | stmt (label : ℓ) (exec : σ → Except ε (Option σ)) (next : Except ε σ → Script ℓ σ ε α)

namespace Script

variable {ℓ σ τ ε α β : Type}

/-- A statement that is executed on `s`, or made to throw: what the script
    goes on with, and the store after it. -/
def attempt (fault : Option ε) (exec : σ → Except ε (Option σ)) (s : σ) : Except ε σ × σ :=
  match fault with
  | some e => (.error e, s)
  | none =>
    match exec s with
    | .ok s' => (.ok s, s'.getD s)
    | .error e => (.error e, s)

@[simp] theorem attempt_some {e : ε} {exec : σ → Except ε (Option σ)} {s : σ} :
    attempt (some e) exec s = (.error e, s) := rfl

/-! ## Composing scripts -/

/-- What is left to do after a script is done. -/
protected def bind : Script ℓ σ ε α → (α → Script ℓ σ ε β) → Script ℓ σ ε β
  | done a, f => f a
  | raise e, _ => raise e
  | stmt label exec next, f => stmt label exec fun r => (next r).bind f

/-- The errors of a script are handled by `h`. -/
protected def tryCatch : Script ℓ σ ε α → (ε → Script ℓ σ ε α) → Script ℓ σ ε α
  | done a, _ => done a
  | raise e, h => h e
  | stmt label exec next, h => stmt label exec fun r => (next r).tryCatch h

instance : Monad (Script ℓ σ ε) where
  pure := done
  bind := Script.bind

instance : MonadExcept ε (Script ℓ σ ε) where
  throw := raise
  tryCatch := Script.tryCatch

/-- What a statement has found, or the error that it has thrown. -/
def ofExcept : Except ε α → Script ℓ σ ε α
  | .ok a => done a
  | .error e => raise e

/-- A statement as a script of its own: it returns the store that it has found. -/
def execute (label : ℓ) (exec : σ → Except ε (Option σ)) : Script ℓ σ ε σ :=
  stmt label exec ofExcept

/-- A statement that reads. -/
def query (label : ℓ) (f : σ → α) : Script ℓ σ ε α :=
  stmt label (fun _ => .ok none) fun r => ofExcept (r.map f)

/-- A statement that reads, or throws. -/
def ask (label : ℓ) (f : σ → Except ε α) : Script ℓ σ ε α :=
  stmt label (fun _ => .ok none) fun r => ofExcept (r.bind f)

/-- A statement that writes: whether it has affected anything. -/
def update (label : ℓ) (f : σ → Option σ) : Script ℓ σ ε Bool :=
  stmt label (fun s => .ok (f s)) fun r => ofExcept (r.map fun s => (f s).isSome)

/-- The same, if it does not matter whether it has. -/
def write (label : ℓ) (f : σ → Option σ) : Script ℓ σ ε Unit :=
  stmt label (fun s => .ok (f s)) fun r => ofExcept (r.map fun _ => ())

/-- A statement that writes, or throws. -/
def perform (label : ℓ) (f : σ → Except ε σ) : Script ℓ σ ε Unit :=
  stmt label (fun s => (f s).map some) fun r => ofExcept (r.map fun _ => ())

@[simp] theorem pure_eq (a : α) : (pure a : Script ℓ σ ε α) = done a := rfl

@[simp] theorem throw_eq (e : ε) : (throw e : Script ℓ σ ε α) = raise e := rfl

@[simp] theorem done_bind (a : α) (f : α → Script ℓ σ ε β) : done a >>= f = f a := rfl

@[simp] theorem raise_bind (e : ε) (f : α → Script ℓ σ ε β) : raise e >>= f = raise e := rfl

theorem stmt_bind (label : ℓ) (exec : σ → Except ε (Option σ))
    (next : Except ε σ → Script ℓ σ ε α) (f : α → Script ℓ σ ε β) :
    stmt label exec next >>= f = stmt label exec fun r => next r >>= f := rfl

/-- Scripts that follow one another need no brackets. -/
theorem bind_bind {γ : Type} (x : Script ℓ σ ε α) (f : α → Script ℓ σ ε β)
    (g : β → Script ℓ σ ε γ) : x >>= f >>= g = x >>= fun a => f a >>= g := by
  induction x with
  | done a => rfl
  | raise e => rfl
  | stmt label exec next ih =>
    rw [stmt_bind, stmt_bind, stmt_bind]
    simp only [ih]

/-! ## Steps -/

/-- The label of the statement that is next. -/
def head : Script ℓ σ ε α → Option ℓ
  | stmt label _ _ => some label
  | _ => none

/-- What the next statement makes of the store, if it affects anything. -/
def effect (s : σ) : Script ℓ σ ε α → Option σ
  | stmt _ exec _ =>
    match exec s with
    | .ok s' => s'
    | .error _ => none
  | _ => none

/-- The next statement is executed: the store after it, and the rest of the
    script. -/
def step (s : σ) : Script ℓ σ ε α → Option (σ × Script ℓ σ ε α)
  | stmt _ exec next => some ((attempt none exec s).2, next (attempt none exec s).1)
  | _ => none

variable {label : ℓ} {s : σ}

theorem step_query {q : σ → α} {f : α → Script ℓ σ ε β} :
    (query label q >>= f).step s = some (s, f (q s)) := rfl

theorem step_update {w : σ → Option σ} {f : Bool → Script ℓ σ ε α} :
    (update label w >>= f).step s = some ((w s).getD s, f (w s).isSome) := rfl

theorem step_write {w : σ → Option σ} {f : Unit → Script ℓ σ ε α} :
    (write label w >>= f).step s = some ((w s).getD s, f ()) := rfl

/-- A step has the effect of its statement, if it has one. -/
theorem step_eq_some {x x' : Script ℓ σ ε α} {s' : σ} (h : x.step s = some (s', x')) :
    s' = (x.effect s).getD s := by
  cases x with
  | stmt label exec next =>
    obtain ⟨rfl, _⟩ := Prod.mk.inj (Option.some.inj h)
    rw [attempt, effect]
    split <;> rfl
  | _ => cases h

/-- A script that is not at its end can be executed. -/
theorem isSome_step {x : Script ℓ σ ε α} (h : x.head ≠ none) : (x.step s).isSome := by
  cases x with
  | stmt label exec next => rfl
  | _ => exact absurd rfl h

/-- The first of two scripts is executed first. -/
theorem step_bind {x x' : Script ℓ σ ε α} {s' : σ} (h : x.step s = some (s', x'))
    (f : α → Script ℓ σ ε β) : (x >>= f).step s = some (s', x' >>= f) := by
  cases x with
  | stmt label exec next =>
    obtain ⟨rfl, rfl⟩ := Prod.mk.inj (Option.some.inj h)
    rfl
  | _ => cases h

/-- A statement of two scripts, one after the other, is one of the first, unless
    this is done. -/
theorem step_bind_eq_some {x : Script ℓ σ ε α} {f : α → Script ℓ σ ε β} {s' : σ}
    {z : Script ℓ σ ε β} (h : (x >>= f).step s = some (s', z)) :
    (∃ a, x = done a ∧ (f a).step s = some (s', z)) ∨
      ∃ x', x.step s = some (s', x') ∧ z = x' >>= f := by
  cases x with
  | done a => exact .inl ⟨a, rfl, h⟩
  | raise e => cases h
  | stmt label exec next =>
    obtain ⟨rfl, rfl⟩ := Prod.mk.inj (Option.some.inj h)
    exact .inr ⟨_, rfl, rfl⟩

/-! ## Runs -/

/-- How a run of a script ends, and what it has executed. -/
structure Result (ℓ σ ε α : Type) where
  value : Except ε α
  store : σ
  trace : List ℓ

/-- The script is run on `s` without interruption. The statements that `fault`
    gives an error throw it. -/
def run (fault : ℓ → Option ε) : Script ℓ σ ε α → σ → Result ℓ σ ε α
  | done a, s => ⟨.ok a, s, []⟩
  | raise e, s => ⟨.error e, s, []⟩
  | stmt label exec next, s =>
    let r := (next (attempt (fault label) exec s).1).run fault (attempt (fault label) exec s).2
    ⟨r.value, r.store, label :: r.trace⟩

/-- No statement is made to throw. -/
def noFault (_ : ℓ) : Option ε := none

variable {fault : ℓ → Option ε}

@[simp] theorem run_done {a : α} : (done a : Script ℓ σ ε α).run fault s = ⟨.ok a, s, []⟩ := rfl

@[simp] theorem run_raise {e : ε} :
    (raise e : Script ℓ σ ε α).run fault s = ⟨.error e, s, []⟩ := rfl

/-- A run of a statement: it is attempted, and the script goes on with what has
    come of it. -/
theorem run_stmt {exec : σ → Except ε (Option σ)}
    {next : Except ε σ → Script ℓ σ ε α} :
    (stmt label exec next).run fault s =
      let o := attempt (fault label) exec s
      let r := (next o.1).run fault o.2
      ⟨r.value, r.store, label :: r.trace⟩ := rfl

theorem run_query (label : ℓ) (q : σ → α) : (query label q : Script ℓ σ ε α).run fault s =
    ⟨(fault label).elim (.ok (q s)) .error, s, [label]⟩ := by
  rw [query, run_stmt]
  cases fault label <;> rfl

/-- A query writes nothing. -/
theorem run_ask (label : ℓ) (f : σ → Except ε α) : (ask label f).run fault s =
    ⟨(fault label).elim (f s) .error, s, [label]⟩ := by
  rw [ask, run_stmt]
  cases fault label with
  | some e => rfl
  | none =>
    rw [Option.elim_none, attempt]
    change (let r := (ofExcept (f s)).run fault s
      (⟨r.value, r.store, label :: r.trace⟩ : Result ℓ σ ε α)) = _
    cases f s <;> rfl

/-- A write that does not take effect leaves the state. -/
theorem run_write (label : ℓ) (w : σ → Option σ) :
    (write label w : Script ℓ σ ε Unit).run fault s =
      ⟨(fault label).elim (.ok ()) .error, (fault label).elim ((w s).getD s) fun _ => s,
        [label]⟩ := by
  rw [write, run_stmt]
  cases fault label <;> rfl

/-- A statement that throws has written nothing. -/
theorem run_perform (label : ℓ) (f : σ → Except ε σ) :
    (perform label f : Script ℓ σ ε Unit).run fault s =
      match (fault label).elim (f s) .error with
      | .ok s' => ⟨.ok (), s', [label]⟩
      | .error e => ⟨.error e, s, [label]⟩ := by
  rw [perform, run_stmt]
  cases fault label with
  | some e => rfl
  | none =>
    rw [Option.elim_none, attempt]
    cases f s <;> rfl

/-- A run goes on after its first statement. -/
theorem run_of_step {x x' : Script ℓ σ ε α} {s' : σ} (h : x.step s = some (s', x')) :
    (x.run noFault s).value = (x'.run noFault s').value ∧
      (x.run noFault s).store = (x'.run noFault s').store := by
  cases x with
  | stmt label exec next =>
    obtain ⟨rfl, rfl⟩ := Prod.mk.inj (Option.some.inj h)
    exact ⟨rfl, rfl⟩
  | _ => cases h

/-- Scripts are run one after the other, as long as they return. -/
theorem run_bind {x : Script ℓ σ ε α} {f : α → Script ℓ σ ε β} :
    (x >>= f).run fault s =
      let r := x.run fault s
      match r.value with
      | .ok a =>
        let r' := (f a).run fault r.store
        ⟨r'.value, r'.store, r.trace ++ r'.trace⟩
      | .error e => ⟨.error e, r.store, r.trace⟩ := by
  induction x generalizing s with
  | done a => rfl
  | raise e => rfl
  | stmt label exec next ih =>
    rw [stmt_bind, run_stmt, run_stmt]
    simp only [ih]
    split <;> rfl

/-- A handler is run after a throw, on what has been written before it. -/
theorem run_tryCatch {x : Script ℓ σ ε α} {h : ε → Script ℓ σ ε α} :
    (tryCatch x h).run fault s =
      let r := x.run fault s
      match r.value with
      | .ok a => ⟨.ok a, r.store, r.trace⟩
      | .error e =>
        let r' := (h e).run fault r.store
        ⟨r'.value, r'.store, r.trace ++ r'.trace⟩ := by
  change (Script.tryCatch x h).run fault s = _
  induction x generalizing s with
  | done a => rfl
  | raise e => rfl
  | stmt label exec next ih =>
    rw [Script.tryCatch, run_stmt, run_stmt]
    simp only [ih]
    split <;> rfl

/-- A script that returns, and what follows. -/
theorem run_bind_ok {x : Script ℓ σ ε α} {f : α → Script ℓ σ ε β} {a : α} {s' : σ} {trace : List ℓ}
    (h : x.run fault s = ⟨.ok a, s', trace⟩) :
    (x >>= f).run fault s =
      let r := (f a).run fault s'
      ⟨r.value, r.store, trace ++ r.trace⟩ := by
  rw [run_bind, h]

theorem run_bind_error {x : Script ℓ σ ε α} {f : α → Script ℓ σ ε β} {e : ε} {s' : σ}
    {trace : List ℓ} (h : x.run fault s = ⟨.error e, s', trace⟩) :
    (x >>= f).run fault s = ⟨.error e, s', trace⟩ := by
  rw [run_bind, h]

theorem run_tryCatch_ok {x : Script ℓ σ ε α} {h : ε → Script ℓ σ ε α} {a : α} {s' : σ}
    {trace : List ℓ} (hx : x.run fault s = ⟨.ok a, s', trace⟩) :
    (tryCatch x h).run fault s = ⟨.ok a, s', trace⟩ := by
  rw [run_tryCatch, hx]

/-- A script that throws, and its handler. -/
theorem run_tryCatch_error {x : Script ℓ σ ε α} {h : ε → Script ℓ σ ε α} {e : ε} {s' : σ}
    {trace : List ℓ} (hx : x.run fault s = ⟨.error e, s', trace⟩) :
    (tryCatch x h).run fault s =
      let r := (h e).run fault s'
      ⟨r.value, r.store, trace ++ r.trace⟩ := by
  rw [run_tryCatch, hx]

/-! ## What a script executes -/

/-- All statements that a script may execute meet `p`. -/
def All (p : ℓ → (σ → Except ε (Option σ)) → Prop) : Script ℓ σ ε α → Prop
  | stmt label exec next => p label exec ∧ ∀ r, (next r).All p
  | _ => True

/-- A statement that throws ends the script. -/
def Strict : Script ℓ σ ε α → Prop
  | stmt _ _ next => (∀ e, ∃ e', next (.error e) = raise e') ∧ ∀ r, (next r).Strict
  | _ => True

/-- All statements meet `p`, unless the script returns after them. -/
def AllButLast (p : ℓ → (σ → Except ε (Option σ)) → Prop) : Script ℓ σ ε α → Prop
  | stmt label exec next =>
    (p label exec ∨ ∀ s, ∃ a, next (.ok s) = done a) ∧ ∀ r, (next r).AllButLast p
  | _ => True

/-- The script only reads, and whatever happens to the store between its
    statements, what it returns meets `Q` on the store that it has found last. -/
def Ensures (Q : α → σ → Prop) : Script ℓ σ ε α → σ → Prop
  | done a, s => Q a s
  | raise _, _ => True
  | stmt _ exec next, _ => (∀ s, exec s = .ok none) ∧ ∀ s, (next (.ok s)).Ensures Q s

/-- The script ends after at most `n` statements. -/
def AtMost : Script ℓ σ ε α → ℕ → Prop
  | stmt _ _ next, n => 0 < n ∧ ∀ r, (next r).AtMost (n - 1)
  | _, _ => True

section
variable {p : ℓ → (σ → Except ε (Option σ)) → Prop} {x : Script ℓ σ ε α}
  {f : α → Script ℓ σ ε β} {m n : ℕ}

theorem all_bind (hx : x.All p) (hf : ∀ a, (f a).All p) : (x >>= f).All p := by
  induction x with
  | done a => exact hf a
  | raise e => trivial
  | stmt label exec next ih => exact ⟨hx.1, fun r => ih r (hx.2 r)⟩

theorem all_mono {q : ℓ → (σ → Except ε (Option σ)) → Prop} (h : ∀ l exec, p l exec → q l exec)
    (hx : x.All p) : x.All q := by
  induction x with
  | stmt label exec next ih => exact ⟨h _ _ hx.1, fun r => ih r (hx.2 r)⟩
  | _ => trivial

theorem allButLast_of_all (hx : x.All p) : x.AllButLast p := by
  induction x with
  | stmt label exec next ih => exact ⟨.inl hx.1, fun r => ih r (hx.2 r)⟩
  | _ => trivial

/-- What is asked of all statements but the last one is asked of all of the first
    script. -/
theorem allButLast_bind (hx : x.All p) (hf : ∀ a, (f a).AllButLast p) :
    (x >>= f).AllButLast p := by
  induction x with
  | done a => exact hf a
  | raise e => trivial
  | stmt label exec next ih => exact ⟨.inl hx.1, fun r => ih r (hx.2 r)⟩

/-- Strict scripts may follow one another. -/
theorem strict_bind (hx : x.Strict) (hf : ∀ a, (f a).Strict) : (x >>= f).Strict := by
  induction x with
  | done a => exact hf a
  | raise e => trivial
  | stmt label exec next ih =>
    refine ⟨fun e => ?_, fun r => ih r (hx.2 r)⟩
    obtain ⟨e', he'⟩ := hx.1 e
    exact ⟨e', by change next (.error e) >>= f = raise e'; rw [he']; rfl⟩

theorem all_ofExcept (r : Except ε α) : (ofExcept r : Script ℓ σ ε α).All p := by
  cases r <;> trivial

theorem strict_ofExcept (r : Except ε α) : (ofExcept r : Script ℓ σ ε α).Strict := by
  cases r <;> trivial

theorem all_query {label : ℓ} {q : σ → α} (h : p label fun _ => .ok none) :
    (query label q).All p := ⟨h, fun _ => all_ofExcept _⟩

theorem all_update {label : ℓ} {w : σ → Option σ} (h : p label fun s => .ok (w s)) :
    (update label w).All p := ⟨h, fun _ => all_ofExcept _⟩

theorem allButLast_write {label : ℓ} {w : σ → Option σ} : (write label w).AllButLast p :=
  ⟨.inr fun _ => ⟨(), rfl⟩, fun r => by cases r <;> trivial⟩

theorem all_write {label : ℓ} {w : σ → Option σ} (h : p label fun s => .ok (w s)) :
    (write label w).All p := ⟨h, fun _ => all_ofExcept _⟩

theorem all_perform {label : ℓ} {w : σ → Except ε σ} (h : p label fun s => (w s).map some) :
    (perform label w).All p := ⟨h, fun _ => all_ofExcept _⟩

theorem strict_query {label : ℓ} {q : σ → α} : (query label q : Script ℓ σ ε α).Strict :=
  ⟨fun e => ⟨e, rfl⟩, fun _ => strict_ofExcept _⟩

theorem strict_write {label : ℓ} {w : σ → Option σ} : (write label w : Script ℓ σ ε Unit).Strict :=
  ⟨fun e => ⟨e, rfl⟩, fun _ => strict_ofExcept _⟩

theorem strict_perform {label : ℓ} {w : σ → Except ε σ} : (perform label w).Strict :=
  ⟨fun e => ⟨e, rfl⟩, fun _ => strict_ofExcept _⟩

/-- What is asked of all statements is asked of those that are left. -/
theorem All.step {s' : σ} {x' : Script ℓ σ ε α} (hx : x.All p) (h : x.step s = some (s', x')) :
    x'.All p := by
  cases x with
  | stmt label exec next =>
    obtain ⟨_, rfl⟩ := Prod.mk.inj (Option.some.inj h)
    exact hx.2 _
  | _ => cases h

/-- So is what is asked of all of them but the last. -/
theorem AllButLast.step {s' : σ} {x' : Script ℓ σ ε α} (hx : x.AllButLast p)
    (h : x.step s = some (s', x')) : x'.AllButLast p := by
  cases x with
  | stmt label exec next =>
    obtain ⟨_, rfl⟩ := Prod.mk.inj (Option.some.inj h)
    exact hx.2 _
  | _ => cases h

/-- The rule for scripts that follow one another. -/
theorem ensures_bind {Q : β → σ → Prop} (hx : x.Ensures (fun a s => (f a).Ensures Q s) s) :
    (x >>= f).Ensures Q s := by
  induction x generalizing s with
  | done a => exact hx
  | raise e => trivial
  | stmt label exec next ih => exact ⟨hx.1, fun s => ih _ (hx.2 s)⟩

theorem ensures_query {Q : α → σ → Prop} {q : σ → α} (h : ∀ s, Q (q s) s) :
    (query label q : Script ℓ σ ε α).Ensures Q s := ⟨fun _ => rfl, h⟩

/-- The rule of consequence. -/
theorem Ensures.imp {Q Q' : α → σ → Prop} (hx : x.Ensures Q s) (h : ∀ a s, Q a s → Q' a s) :
    x.Ensures Q' s := by
  induction x generalizing s with
  | done a => exact h a s hx
  | raise e => trivial
  | stmt label exec next ih => exact ⟨hx.1, fun s => ih _ (hx.2 s)⟩

/-- The store is changed by others. -/
theorem Ensures.change {Q : α → σ → Prop} {s' : σ} (hx : x.Ensures Q s)
    (h : ∀ a, Q a s → Q a s') : x.Ensures Q s' := by
  cases x with
  | done a => exact h a hx
  | raise e => trivial
  | stmt label exec next => exact hx

/-- A step of such a script. -/
theorem Ensures.step {Q : α → σ → Prop} {x' : Script ℓ σ ε α} {s' : σ} (hx : x.Ensures Q s)
    (h : x.step s = some (s', x')) : s' = s ∧ x.effect s = none ∧ x'.Ensures Q s := by
  cases x with
  | stmt label exec next =>
    obtain ⟨rfl, rfl⟩ := Prod.mk.inj (Option.some.inj h)
    have hattempt : attempt none exec s = (.ok s, s) := by
      rw [attempt, hx.1 s]
      rfl
    rw [hattempt, effect, hx.1 s]
    exact ⟨rfl, rfl, hx.2 s⟩
  | _ => cases h

theorem AtMost.mono (hx : x.AtMost m) (h : m ≤ n) : x.AtMost n := by
  induction x generalizing m n with
  | stmt label exec next ih =>
    exact ⟨Nat.lt_of_lt_of_le hx.1 h, fun r => ih r (hx.2 r) (Nat.sub_le_sub_right h 1)⟩
  | _ => trivial

/-- The numbers of statements add up. -/
theorem atMost_bind (hx : x.AtMost m) (hf : ∀ a, (f a).AtMost n) : (x >>= f).AtMost (m + n) := by
  induction x generalizing m with
  | done a => exact (hf a).mono (Nat.le_add_left n m)
  | raise e => trivial
  | stmt label exec next ih =>
    have hpos : 0 < m := hx.1
    refine ⟨by omega, fun r => ?_⟩
    have hrest := ih r (hx.2 r)
    rwa [show m - 1 + n = m + n - 1 by omega] at hrest

theorem atMost_ofExcept (r : Except ε α) : (ofExcept r : Script ℓ σ ε α).AtMost n := by
  cases r <;> trivial

theorem atMost_query {label : ℓ} {q : σ → α} : (query label q : Script ℓ σ ε α).AtMost 1 :=
  ⟨Nat.one_pos, fun _ => atMost_ofExcept _⟩

theorem atMost_update {label : ℓ} {w : σ → Option σ} :
    (update label w : Script ℓ σ ε Bool).AtMost 1 := ⟨Nat.one_pos, fun _ => atMost_ofExcept _⟩

/-- Every step uses up a statement. -/
theorem AtMost.step {s' : σ} {x' : Script ℓ σ ε α} (hx : x.AtMost n)
    (h : x.step s = some (s', x')) : 0 < n ∧ x'.AtMost (n - 1) := by
  cases x with
  | stmt label exec next =>
    obtain ⟨_, rfl⟩ := Prod.mk.inj (Option.some.inj h)
    exact ⟨hx.1, hx.2 _⟩
  | _ => cases h

/-- A script that has none of the statements that are made to throw. -/
theorem run_of_all (hx : x.All fun label _ => fault label = none) :
    x.run fault s = x.run noFault s := by
  induction x generalizing s with
  | done a => rfl
  | raise e => rfl
  | stmt label exec next ih =>
    rw [run_stmt, run_stmt, hx.1]
    simp only [noFault, ih _ (hx.2 _)]

/-- What all statements preserve, the script preserves, whatever throws. -/
theorem run_preserves {P : σ → Prop}
    (hx : x.All fun _ exec => ∀ s s', P s → exec s = .ok (some s') → P s') (hs : P s) :
    P (x.run fault s).store := by
  induction x generalizing s with
  | done a => exact hs
  | raise e => exact hs
  | stmt label exec next ih =>
    refine ih _ (hx.2 _) ?_
    cases fault label with
    | some e => exact hs
    | none =>
      rw [attempt]
      split
      · next o hexec =>
        cases o with
        | none => exact hs
        | some s' => exact hx.1 s s' hs hexec
      · exact hs

/-- A script that handles no errors, and returns, has not been disturbed. -/
theorem run_of_strict (hx : x.Strict) {a : α} (ha : (x.run fault s).value = .ok a) :
    x.run fault s = x.run noFault s := by
  induction x generalizing s with
  | done a => rfl
  | raise e => rfl
  | stmt label exec next ih =>
    rw [run_stmt] at ha ⊢
    rw [run_stmt]
    cases hfault : fault label with
    | none =>
      rw [hfault] at ha
      simp only [noFault, ih _ (hx.2 _) ha]
    | some e =>
      -- The script ends with this error, and does not return.
      obtain ⟨e', he'⟩ := hx.1 e
      rw [hfault] at ha
      change ((next (.error e)).run fault s).value = .ok a at ha
      rw [he'] at ha
      cases ha

end

/-! ## Scripts and transactions -/

/-- From `t` on, the script `x` does what the transaction `y` does. -/
def Agrees (view : τ → σ) (t : τ) (x : Script ℓ σ ε α) (y : EStateM ε τ α) : Prop :=
  match y.run t with
  | .ok a t' => ∃ trace, x.run noFault (view t) = ⟨.ok a, view t', trace⟩
  | .error e t' => ∃ trace, x.run noFault (view t) = ⟨.error e, view t', trace⟩

namespace Agrees

variable {view : τ → σ} {t t' : τ} {x : Script ℓ σ ε α} {y : EStateM ε τ α}
  {f : α → Script ℓ σ ε β} {g : α → EStateM ε τ β} {a : α} {e : ε}

theorem ok (h : Agrees view t x y) (hy : y.run t = .ok a t') :
    ∃ trace, x.run noFault (view t) = ⟨.ok a, view t', trace⟩ := by
  rw [Agrees, hy] at h
  exact h

theorem error (h : Agrees view t x y) (hy : y.run t = .error e t') :
    ∃ trace, x.run noFault (view t) = ⟨.error e, view t', trace⟩ := by
  rw [Agrees, hy] at h
  exact h

theorem pure (a : α) : Agrees view t (done a : Script ℓ σ ε α) (Pure.pure a) := ⟨[], rfl⟩

theorem throw (e : ε) :
    Agrees view t (raise e : Script ℓ σ ε α) (MonadExcept.throw e) := ⟨[], rfl⟩

/-- Scripts that agree with transactions may follow one another, as the
    transactions do. -/
theorem bind (hx : Agrees view t x y)
    (hf : ∀ a t', y.run t = .ok a t' → Agrees view t' (f a) (g a)) :
    Agrees view t (x >>= f) (y >>= g) := by
  rw [Agrees, EStateM.run_bind]
  cases hy : y.run t with
  | ok a t' =>
    obtain ⟨trace, hrun⟩ := hx.ok hy
    have hfa := hf a t' hy
    rw [Agrees] at hfa
    change match (g a).run t' with | .ok b t'' => _ | .error e t'' => _
    cases hg : (g a).run t' with
    | ok b t'' =>
      rw [hg] at hfa
      obtain ⟨trace', hrun'⟩ := hfa
      exact ⟨trace ++ trace', by rw [run_bind, hrun]; simp only [hrun']⟩
    | error e t'' =>
      rw [hg] at hfa
      obtain ⟨trace', hrun'⟩ := hfa
      exact ⟨trace ++ trace', by rw [run_bind, hrun]; simp only [hrun']⟩
  | error e t' =>
    obtain ⟨trace, hrun⟩ := hx.error hy
    exact ⟨trace, by rw [run_bind, hrun]⟩

/-- A script that changes nothing, and another one after it. -/
theorem pure_bind {y : EStateM ε τ β} (hx : Agrees view t x (Pure.pure a))
    (hf : Agrees view t (f a) y) : Agrees view t (x >>= f) y := by
  have hy : Agrees view t (x >>= f) (Pure.pure a >>= fun _ => y) := bind hx fun a' t' h => by
    obtain ⟨rfl, rfl⟩ := Transaction.pure_eq_ok.1 h
    exact hf
  exact hy

/-- The script goes on as `x'` after its first statement, and the transaction
    as `y'`. -/
theorem of_step {x x' : Script ℓ σ ε α} {y y' : EStateM ε τ α} (t' : τ)
    (hstep : x.step (view t) = some (view t', x')) (hy : y.run t = y'.run t')
    (h : Agrees view t' x' y') : Agrees view t x y := by
  cases x with
  | stmt label exec next =>
    obtain ⟨hstore, rfl⟩ := Prod.mk.inj (Option.some.inj hstep)
    have hrun : (stmt label exec next).run noFault (view t) =
        let r := (next (attempt none exec (view t)).1).run noFault (view t')
        ⟨r.value, r.store, label :: r.trace⟩ := by
      rw [← hstore]
      rfl
    rw [Agrees, hy, hrun]
    rw [Agrees] at h
    split at h
    · obtain ⟨trace, h⟩ := h
      exact ⟨label :: trace, by rw [h]⟩
    · obtain ⟨trace, h⟩ := h
      exact ⟨label :: trace, by rw [h]⟩
  | _ => cases hstep

/-- A statement that reads, and a transaction that looks at its store. -/
theorem query {label : ℓ} {q : σ → α} {g : τ → EStateM ε τ β}
    (hf : Agrees view t (f (q (view t))) (g t)) :
    Agrees view t (Script.query label q >>= f) (get >>= g) :=
  of_step t step_query Transaction.run_get_bind hf

/-- A statement that writes, and a transaction that goes on as `y'` after it. -/
theorem update_bind {label : ℓ} {w : σ → Option σ} {f : Bool → Script ℓ σ ε α} (t' : τ)
    (y' : EStateM ε τ α) (hy : y.run t = y'.run t') (hv : view t' = (w (view t)).getD (view t))
    (hf : Agrees view t' (f (w (view t)).isSome) y') :
    Agrees view t (Script.update label w >>= f) y :=
  of_step t' (by rw [step_update, hv]) hy hf

theorem update {label : ℓ} {w : σ → Option σ} {y : EStateM ε τ Bool} (t' : τ)
    (hy : y.run t = .ok (w (view t)).isSome t') (hv : view t' = (w (view t)).getD (view t)) :
    Agrees view t (Script.update label w : Script ℓ σ ε Bool) y := by
  rw [Agrees, hy]
  exact ⟨[label], by rw [hv]; rfl⟩

theorem write {label : ℓ} {w : σ → Option σ} {v : τ → τ}
    (hv : view (v t) = (w (view t)).getD (view t)) :
    Agrees view t (Script.write label w : Script ℓ σ ε Unit) (modify v) :=
  ⟨[label], by rw [hv]; rfl⟩

/-- A statement that throws what the transaction throws. -/
theorem perform_error {label : ℓ} {w : σ → Except ε σ} {y : EStateM ε τ Unit}
    (hw : w (view t) = .error e) (hy : y.run t = .error e t) :
    Agrees view t (Script.perform label w) y := by
  rw [Agrees, hy]
  exact ⟨[label], by rw [run_perform, noFault, Option.elim_none, hw]⟩

theorem perform_ok {label : ℓ} {w : σ → Except ε σ} {y : EStateM ε τ Unit} (t' : τ)
    (hw : w (view t) = .ok (view t')) (hy : y.run t = .ok () t') :
    Agrees view t (Script.perform label w) y := by
  rw [Agrees, hy]
  exact ⟨[label], by rw [run_perform, noFault, Option.elim_none, hw]⟩

end Agrees

end Script
