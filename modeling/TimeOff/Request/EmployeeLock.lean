import TimeOff.Lib.Run
import TimeOff.Lib.Table

/-!
# The lock of an employee

`withEmployeeLock`, await by await. A call finds the promise `prev` of the call
before it in `reservationLocks`, if any, and leaves its own there, `lock`,
which is fulfilled when `prev` is and its `next` has been resolved. It waits for
`prev`, runs its `fn`, resolves `next`, and deletes the entry if this is still
its own.

The promise of a call is known by the number of the call, and calls are
numbered as they come. That of a call can only be fulfilled after it has
settled and all before it for the employee have (`LockOk`), however the calls
take turns, and whatever their `fn`s end with.

* `LockOk.after`, `lockOk_of_run`: the chain of the promises and the map;
* `recorded_of_run`: in which order the `fn`s have started, by the history;
* `fifoMutex_of_run`: one at a time, first come first served, nobody waits for
  nothing, and no entry is left behind.
-/

namespace TimeOff

open Transition

/-- Where a call is: it awaits `prev`, its `fn` is running, its `fn` has
    returned or thrown, or the call has settled. -/
inductive LockPhase (ρ : Type)
  | waiting
  | running
  | ended (r : ρ)
  | settled (r : ρ)

/-- The call has settled. -/
def LockPhase.isSettled {ρ : Type} : LockPhase ρ → Bool
  | .settled _ => true
  | _ => false

/-- The `fn` of the call is running, or its `finally` is still to come. -/
def LockPhase.isInside {ρ : Type} : LockPhase ρ → Bool
  | .running | .ended _ => true
  | _ => false

/-- A call of `withEmployeeLock`, whose `fn` ends with a `ρ`. -/
structure LockCall (ρ : Type) where
  employeeId : ℕ
  /-- The call whose `lock` is `prev`, or `none` for `Promise.resolve()`. -/
  prev : Option ℕ
  /-- `releaseLock` has been called. -/
  nextResolved : Bool
  lockFulfilled : Bool
  phase : LockPhase ρ

/-- The calls so far, and the map of the locks. -/
structure Locks (ρ : Type) where
  reservationLocks : ℕ → Option ℕ
  calls : Table (LockCall ρ)

/-- What may happen next. -/
inductive LockAction (ρ : Type)
  /-- `withEmployeeLock` is called, and comes to `await prev`. -/
  | call (employeeId : ℕ)
  /-- The `lock` of the call `n` is fulfilled. -/
  | fulfill (n : ℕ)
  /-- The call `n` goes on after `await prev`, and its `fn` starts. -/
  | resume (n : ℕ)
  /-- The `fn` of the call `n` takes a step. -/
  | work (n : ℕ)
  /-- The `fn` of the call `n` returns or throws. -/
  | finish (n : ℕ) (r : ρ)
  /-- The `finally` of the call `n`, with which it settles. -/
  | release (n : ℕ)

namespace Locks

variable {ρ : Type}

/-- The service starts. -/
def empty : Locks ρ := ⟨fun _ => none, .empty⟩

/-- `prev` is fulfilled. -/
def prevFulfilled (s : Locks ρ) (c : LockCall ρ) : Bool :=
  match c.prev with
  | none => true
  | some m => (s.calls.get m).any (·.lockFulfilled)

/-- The call `n` is changed. -/
def update (s : Locks ρ) (n : ℕ) (f : LockCall ρ → LockCall ρ) : Locks ρ :=
  { s with calls := s.calls.update n f }

/-- `reservationLocks.delete`, if the entry is that of the call `n`. -/
def deleteEntry (s : Locks ρ) (n employeeId : ℕ) : Locks ρ :=
  { s with
    reservationLocks :=
      if s.reservationLocks employeeId = some n then
        Function.update s.reservationLocks employeeId none
      else s.reservationLocks }

/-- One step of the calls. -/
def step (s : Locks ρ) : LockAction ρ → Option (Locks ρ)
  | .call employeeId =>
    some {
      reservationLocks := Function.update s.reservationLocks employeeId (some s.calls.nextId)
      calls := s.calls.insert
        ⟨employeeId, s.reservationLocks employeeId, false, false, .waiting⟩ }
  | .fulfill n =>
    (s.calls.get n).bind fun c =>
      if c.nextResolved && s.prevFulfilled c then
        some (s.update n fun c => { c with lockFulfilled := true })
      else none
  | .resume n =>
    (s.calls.get n).bind fun c =>
      match c.phase with
      | .waiting =>
        if s.prevFulfilled c then some (s.update n fun c => { c with phase := .running }) else none
      | _ => none
  | .work n =>
    (s.calls.get n).bind fun c =>
      match c.phase with
      | .running => some s
      | _ => none
  | .finish n r =>
    (s.calls.get n).bind fun c =>
      match c.phase with
      | .running => some (s.update n fun c => { c with phase := .ended r })
      | _ => none
  | .release n =>
    (s.calls.get n).bind fun c =>
      match c.phase with
      | .ended r =>
        some ((s.update n fun c => { c with nextResolved := true, phase := .settled r }).deleteEntry
          n c.employeeId)
      | _ => none

/-- What the steps of the calls do. -/
inductive Stepped (s : Locks ρ) : LockAction ρ → Locks ρ → Prop
  | call (employeeId : ℕ) : Stepped s (.call employeeId) {
      reservationLocks := Function.update s.reservationLocks employeeId (some s.calls.nextId)
      calls := s.calls.insert
        ⟨employeeId, s.reservationLocks employeeId, false, false, .waiting⟩ }
  | fulfill {n : ℕ} {c : LockCall ρ} : s.calls.get n = some c → c.nextResolved →
      s.prevFulfilled c →
      Stepped s (.fulfill n) (s.update n fun c => { c with lockFulfilled := true })
  | resume {n : ℕ} {c : LockCall ρ} : s.calls.get n = some c → c.phase = .waiting →
      s.prevFulfilled c →
      Stepped s (.resume n) (s.update n fun c => { c with phase := .running })
  | work {n : ℕ} {c : LockCall ρ} : s.calls.get n = some c → c.phase = .running →
      Stepped s (.work n) s
  | finish {n : ℕ} {c : LockCall ρ} (r : ρ) : s.calls.get n = some c → c.phase = .running →
      Stepped s (.finish n r) (s.update n fun c => { c with phase := .ended r })
  | release {n : ℕ} {c : LockCall ρ} {r : ρ} : s.calls.get n = some c → c.phase = .ended r →
      Stepped s (.release n)
        ((s.update n fun c => { c with nextResolved := true, phase := .settled r }).deleteEntry n
          c.employeeId)

variable {s s' : Locks ρ} {a : LockAction ρ} {n m e : ℕ} {c d : LockCall ρ}

/-- Every step is one of the list. -/
theorem step_stepped (h : step s a = some s') : Stepped s a s' := by
  -- One case for each action. The guards of `step` are what the constructors hold.
  cases a with
  | call employeeId =>
    obtain rfl := Option.some.inj h
    exact .call employeeId
  | fulfill n =>
    obtain ⟨c, hc, h⟩ := Option.bind_eq_some_iff.1 h
    split at h
    · next hready =>
      obtain ⟨hresolved, hprev⟩ := Bool.and_eq_true_iff.1 hready
      obtain rfl := Option.some.inj h
      exact .fulfill hc hresolved hprev
    · cases h
  | resume n =>
    obtain ⟨c, hc, h⟩ := Option.bind_eq_some_iff.1 h
    split at h
    · next hphase =>
      split at h
      · next hprev =>
        obtain rfl := Option.some.inj h
        exact .resume hc hphase hprev
      · cases h
    · cases h
  | work n =>
    obtain ⟨c, hc, h⟩ := Option.bind_eq_some_iff.1 h
    split at h
    · next hphase =>
      obtain rfl := Option.some.inj h
      exact .work hc hphase
    · cases h
  | finish n r =>
    obtain ⟨c, hc, h⟩ := Option.bind_eq_some_iff.1 h
    split at h
    · next hphase =>
      obtain rfl := Option.some.inj h
      exact .finish r hc hphase
    · cases h
  | release n =>
    obtain ⟨c, hc, h⟩ := Option.bind_eq_some_iff.1 h
    split at h
    · next r hphase =>
      obtain rfl := Option.some.inj h
      exact .release hc hphase
    · cases h

/-! ## What a step does to a call -/

/-- The call `n` has been `c` before the action, and is `c'` after it. -/
structure Changed (s : Locks ρ) (a : LockAction ρ) (n : ℕ) (c c' : LockCall ρ) : Prop where
  employeeId : c'.employeeId = c.employeeId
  prev : c'.prev = c.prev
  settled : c.phase.isSettled → c'.phase = c.phase
  settles : c'.phase.isSettled → c.phase.isSettled ∨ a = .release n
  started : c'.phase ≠ .waiting → c.phase ≠ .waiting ∨ (a = .resume n ∧ s.prevFulfilled c)
  stays : c.phase ≠ .waiting → c'.phase ≠ .waiting
  fulfilled : c'.lockFulfilled → c.lockFulfilled ∨ (c.nextResolved ∧ s.prevFulfilled c)
  kept : c.lockFulfilled → c'.lockFulfilled
  resolved : c.nextResolved = c.phase.isSettled → c'.nextResolved = c'.phase.isSettled

theorem Changed.refl (s : Locks ρ) (a : LockAction ρ) (n : ℕ) (c : LockCall ρ) :
    Changed s a n c c := ⟨rfl, rfl, fun _ => rfl, .inl, .inl, id, .inl, id, id⟩

/-- A call after a step has been there, or it is the new one. -/
theorem Stepped.origin (h : Stepped s a s') (hc : s'.calls.get n = some c) :
    (∃ b, s.calls.get n = some b ∧ Changed s a n b c) ∨
      ∃ e, a = .call e ∧ n = s.calls.nextId ∧
        c = ⟨e, s.reservationLocks e, false, false, .waiting⟩ := by
  -- An update of the call `m` changes no other.
  have hupdate : ∀ {m b} {f : LockCall ρ → LockCall ρ}, s.calls.get m = some b →
      (s.calls.update m f).get n = some c → Changed s a m b (f b) →
      ∃ b, s.calls.get n = some b ∧ Changed s a n b c := by
    intro m b f hb hc hchanged
    rcases Table.get_update_eq_some.1 hc with ⟨rfl, b', hb', rfl⟩ | ⟨_, hc⟩
    · obtain rfl := Option.some.inj (hb.symm.trans hb')
      exact ⟨b, hb, hchanged⟩
    · exact ⟨c, hc, .refl s a n c⟩
  cases h with
  | call e =>
    rcases Table.get_insert_eq_some.1 hc with ⟨hn, rfl⟩ | hc
    · exact .inr ⟨e, rfl, hn, rfl⟩
    · exact .inl ⟨c, hc, .refl s _ n c⟩
  | fulfill hb hresolved hprev =>
    exact .inl (hupdate hb hc ⟨rfl, rfl, fun _ => rfl, .inl, .inl, id,
      fun _ => .inr ⟨hresolved, hprev⟩, fun _ => rfl, id⟩)
  | resume hb hphase hprev =>
    refine .inl (hupdate hb hc ⟨rfl, rfl, fun hs => ?_, nofun, fun _ => .inr ⟨rfl, hprev⟩,
      fun _ => nofun, .inl, id, fun hr => ?_⟩)
    · rw [hphase] at hs
      cases hs
    · rw [hphase] at hr
      exact hr
  | work _ _ => exact .inl ⟨c, hc, .refl s _ n c⟩
  | finish r hb hphase =>
    refine .inl (hupdate hb hc ⟨rfl, rfl, fun hs => ?_, nofun, fun _ => .inl ?_,
      fun _ => nofun, .inl, id, fun hr => ?_⟩)
    · rw [hphase] at hs
      cases hs
    · rw [hphase]
      nofun
    · rw [hphase] at hr
      exact hr
  | release hb hphase =>
    refine .inl (hupdate hb hc ⟨rfl, rfl, fun hs => ?_, fun _ => .inr rfl, fun _ => .inl ?_,
      fun _ => nofun, .inl, id, fun _ => rfl⟩)
    · rw [hphase] at hs
      cases hs
    · rw [hphase]
      nofun

/-- A call stays. -/
theorem Stepped.kept (h : Stepped s a s') (hc : s.calls.get n = some c) :
    ∃ c', s'.calls.get n = some c' ∧ Changed s a n c c' := by
  -- If there is a call `n` after the step, it is not the new one.
  suffices hsome : ∃ c', s'.calls.get n = some c' by
    obtain ⟨c', hc'⟩ := hsome
    rcases h.origin hc' with ⟨b, hb, hchanged⟩ | ⟨_, _, hn, _⟩
    · obtain rfl := Option.some.inj (hc.symm.trans hb)
      exact ⟨c', hc', hchanged⟩
    · exact absurd (Table.lt_nextId hc) (hn ▸ lt_irrefl _)
  have hupdate : ∀ m f, ∃ c', (s.calls.update m f).get n = some c' := fun m f => by
    rw [Table.get_update, hc]
    split
    · exact ⟨_, rfl⟩
    · exact ⟨_, rfl⟩
  cases h with
  | call e => exact ⟨c, Table.get_insert_of_some hc⟩
  | work _ _ => exact ⟨c, hc⟩
  | _ => exact hupdate _ _

/-! ## The invariant -/

/-- The calls before `n` for the employee have settled. -/
def Cleared (s : Locks ρ) (n employeeId : ℕ) : Prop :=
  ∀ m c, m < n → s.calls.get m = some c → c.employeeId = employeeId → c.phase.isSettled

/-- The call before `n` for the employee is `m`. -/
structure Follows (s : Locks ρ) (m n employeeId : ℕ) : Prop where
  lt : m < n
  before : ∃ c, s.calls.get m = some c ∧ c.employeeId = employeeId
  none_between : ∀ k c, m < k → k < n → s.calls.get k = some c → c.employeeId ≠ employeeId

/-- A call waits for the one before it for its employee; its promise is only
    fulfilled after all these have settled; and the entry in the map is that of
    the last call for the employee, unless this has settled. -/
structure LockOk (s : Locks ρ) : Prop where
  first : ∀ n c, s.calls.get n = some c → c.prev = none → Cleared s n c.employeeId
  next : ∀ n c m, s.calls.get n = some c → c.prev = some m → Follows s m n c.employeeId
  started : ∀ n c, s.calls.get n = some c → c.phase ≠ .waiting → Cleared s n c.employeeId
  fulfilled : ∀ n c, s.calls.get n = some c → c.lockFulfilled →
    c.phase.isSettled ∧ Cleared s n c.employeeId
  resolved : ∀ n c, s.calls.get n = some c → c.nextResolved = c.phase.isSettled
  entry : ∀ e m, s.reservationLocks e = some m → Follows s m s.calls.nextId e
  unsettled : ∀ e m c, s.reservationLocks e = some m → s.calls.get m = some c →
    c.phase.isSettled = false
  free : ∀ e, s.reservationLocks e = none → Cleared s s.calls.nextId e

/-- Without calls there is nothing to be kept. -/
theorem lockOk_empty : LockOk (empty : Locks ρ) where
  first _ _ hc := nomatch hc
  next _ _ _ hc := nomatch hc
  started _ _ hc := nomatch hc
  fulfilled _ _ hc := nomatch hc
  resolved _ _ hc := nomatch hc
  entry _ _ h := nomatch h
  unsettled _ _ _ h := nomatch h
  free _ _ _ _ _ hc := nomatch hc

/-- A call that has settled stays so, and a new one comes later. -/
theorem Cleared.step (hcleared : Cleared s n e) (hn : n ≤ s.calls.nextId) (h : Stepped s a s') :
    Cleared s' n e := by
  intro m c hm hc he
  rcases h.origin hc with ⟨b, hb, hchanged⟩ | ⟨_, _, hnew, _⟩
  · have hsettled := hcleared m b hm hb (hchanged.employeeId ▸ he)
    rwa [hchanged.settled hsettled]
  · -- The new call comes after all others.
    omega

/-- No step puts a call between two others. -/
theorem Follows.step (hfollows : Follows s m n e) (hn : n ≤ s.calls.nextId) (h : Stepped s a s') :
    Follows s' m n e where
  lt := hfollows.lt
  before := by
    obtain ⟨c, hc, he⟩ := hfollows.before
    obtain ⟨c', hc', hchanged⟩ := h.kept hc
    exact ⟨c', hc', hchanged.employeeId.trans he⟩
  none_between k c hmk hkn hc := by
    rcases h.origin hc with ⟨b, hb, hchanged⟩ | ⟨_, _, hnew, _⟩
    · rw [hchanged.employeeId]
      exact hfollows.none_between k b hmk hkn hb
    · omega

/-- What a call waits for is that all before it have settled. -/
theorem LockOk.cleared (hok : LockOk s) (hc : s.calls.get n = some c) (hprev : s.prevFulfilled c) :
    Cleared s n c.employeeId := by
  rw [prevFulfilled] at hprev
  split at hprev
  · next hnone => exact hok.first n c hc hnone
  · next m hm =>
    have hfollows := hok.next n c m hc hm
    obtain ⟨d, hd, hfulfilled⟩ := (Option.any_eq_true _ _).1 hprev
    obtain ⟨d', hd', he⟩ := hfollows.before
    obtain rfl := Option.some.inj (hd.symm.trans hd')
    obtain ⟨hsettled, hcleared⟩ := hok.fulfilled m d hd hfulfilled
    intro k b hk hb hbe
    -- A call for the employee before `n` is `m`, or is before `m`.
    rcases lt_trichotomy k m with hkm | rfl | hmk
    · exact hcleared k b hkm hb (hbe.trans he.symm)
    · rwa [Option.some.inj (hb.symm.trans hd)]
    · exact absurd hbe (hfollows.none_between k b hmk hk hb)

theorem LockOk.owner (hok : LockOk s) (hm : s.reservationLocks e = some m)
    (hc : s.calls.get m = some c) : c.employeeId = e := by
  obtain ⟨d, hd, he⟩ := (hok.entry e m hm).before
  rwa [Option.some.inj (hc.symm.trans hd)]

/-- What a step does to the map: it adds the entry of a call, or deletes that of
    a call which settles. -/
theorem Stepped.map (h : Stepped s a s') :
    (∃ e, a = .call e ∧
      s'.calls = s.calls.insert ⟨e, s.reservationLocks e, false, false, .waiting⟩ ∧
      s'.reservationLocks = Function.update s.reservationLocks e (some s.calls.nextId)) ∨
    (∃ n c, a = .release n ∧ s.calls.get n = some c ∧ c.phase ≠ .waiting ∧
      s'.calls.nextId = s.calls.nextId ∧ s.reservationLocks c.employeeId = some n ∧
      s'.reservationLocks = Function.update s.reservationLocks c.employeeId none ∧
      ∃ c', s'.calls.get n = some c' ∧ c'.phase.isSettled) ∨
    ((∀ e, a ≠ .call e) ∧ s'.calls.nextId = s.calls.nextId ∧
      s'.reservationLocks = s.reservationLocks ∧
      ∀ n c, a = .release n → s.calls.get n = some c →
        s.reservationLocks c.employeeId ≠ some n) := by
  cases h with
  | call e => exact .inl ⟨e, rfl, rfl, rfl⟩
  | release hb hphase =>
    rename_i n c r
    by_cases hentry : s.reservationLocks c.employeeId = some n
    · refine .inr (.inl ⟨n, c, rfl, hb, by rw [hphase]; nofun, rfl, hentry, if_pos hentry, ?_⟩)
      exact ⟨_, Table.get_update_self hb, rfl⟩
    · refine .inr (.inr ⟨nofun, rfl, if_neg hentry, fun m d hm hd => ?_⟩)
      cases hm
      rwa [Option.some.inj (hd.symm.trans hb)]
  | _ => exact .inr (.inr ⟨nofun, rfl, rfl, nofun⟩)

/-- Each step keeps the chain of the promises. -/
theorem LockOk.after (hok : LockOk s) (h : Stepped s a s') : LockOk s' where
  -- The parts about calls: each call comes from one before the step, of which it is known,
  -- or it is the new one, for which the map tells it.
  first n c hc hnone := by
    rcases h.origin hc with ⟨b, hb, hchanged⟩ | ⟨e, _, rfl, rfl⟩
    · rw [hchanged.employeeId]
      exact (hok.first n b hb (hchanged.prev ▸ hnone)).step (Table.lt_nextId hb).le h
    · exact (hok.free e hnone).step le_rfl h
  next n c m hc hm := by
    rcases h.origin hc with ⟨b, hb, hchanged⟩ | ⟨e, _, rfl, rfl⟩
    · rw [hchanged.employeeId]
      exact (hok.next n b m hb (hchanged.prev ▸ hm)).step (Table.lt_nextId hb).le h
    · exact (hok.entry e m hm).step le_rfl h
  -- A call starts when the promise that it waits for is fulfilled, which is when all the
  -- calls before it have settled.
  started n c hc hphase := by
    rcases h.origin hc with ⟨b, hb, hchanged⟩ | ⟨e, _, rfl, rfl⟩
    · rw [hchanged.employeeId]
      refine Cleared.step ?_ (Table.lt_nextId hb).le h
      rcases hchanged.started hphase with hphase | ⟨_, hprev⟩
      · exact hok.started n b hb hphase
      · exact hok.cleared hb hprev
    · exact absurd rfl hphase
  -- A promise is fulfilled when the call has resolved it and the one before is fulfilled.
  fulfilled n c hc hfulfilled := by
    rcases h.origin hc with ⟨b, hb, hchanged⟩ | ⟨e, _, rfl, rfl⟩
    · have hdone : b.phase.isSettled ∧ Cleared s n b.employeeId := by
        rcases hchanged.fulfilled hfulfilled with hfulfilled | ⟨hresolved, hprev⟩
        · exact hok.fulfilled n b hb hfulfilled
        · exact ⟨hok.resolved n b hb ▸ hresolved, hok.cleared hb hprev⟩
      rw [hchanged.employeeId, hchanged.settled hdone.1]
      exact ⟨hdone.1, hdone.2.step (Table.lt_nextId hb).le h⟩
    · cases hfulfilled
  resolved n c hc := by
    rcases h.origin hc with ⟨b, hb, hchanged⟩ | ⟨e, _, rfl, rfl⟩
    · exact hchanged.resolved (hok.resolved n b hb)
    · rfl
  -- The parts about the map: a new call is entered, a call that settles may delete its own
  -- entry, and no other step changes the map.
  entry e m hm := by
    rcases h.map with ⟨e', ha, hcalls, hlocks⟩ | ⟨n, c, _, _, _, hid, _, hlocks, _⟩ |
      ⟨_, hid, hlocks, _⟩ <;> rw [hlocks] at hm
    · rcases PartialMap.set_eq_some.1 hm with ⟨he, rfl⟩ | ⟨he, hm⟩
      · -- The entry is that of the new call, after which there is none.
        rw [hcalls, Table.nextId_insert]
        refine ⟨Nat.lt_succ_self _, ⟨_, by rw [hcalls]; exact if_pos rfl, he.symm⟩, ?_⟩
        intro k _ hk hk' _
        omega
      · -- The new call is for another employee.
        have hfollows := (hok.entry e m hm).step le_rfl h
        rw [hcalls, Table.nextId_insert]
        refine ⟨hfollows.lt.trans (Nat.lt_succ_self _), hfollows.before, fun k c hk hk' hc => ?_⟩
        rw [hcalls] at hc
        rcases Table.get_insert_eq_some.1 hc with ⟨_, rfl⟩ | hold
        · exact Ne.symm he
        · exact (hok.entry e m hm).none_between k c hk (Table.lt_nextId hold) hold
    · rw [hid]
      exact (hok.entry e m (PartialMap.unset_eq_some.1 hm).2).step le_rfl h
    · rw [hid]
      exact (hok.entry e m hm).step le_rfl h
  unsettled e m c hm hc := by
    rcases h.origin hc with ⟨b, hb, hchanged⟩ | ⟨_, _, _, rfl⟩
    · refine eq_false_of_ne_true fun hsettled => ?_
      -- The release of a call deletes its entry, so that this step is another one.
      have hold : s.reservationLocks e = some m ∧ a ≠ .release m := by
        rcases h.map with ⟨e', ha, _, hlocks⟩ | ⟨n, d, ha, hd, _, _, _, hlocks, _⟩ |
          ⟨_, _, hlocks, hother⟩ <;> rw [hlocks] at hm
        · rcases PartialMap.set_eq_some.1 hm with ⟨_, hnew⟩ | ⟨_, hm⟩
          · exact absurd hnew (Table.lt_nextId hb).ne'
          · exact ⟨hm, by rw [ha]; nofun⟩
        · obtain ⟨he, hm⟩ := PartialMap.unset_eq_some.1 hm
          refine ⟨hm, fun hrelease => he ?_⟩
          obtain rfl := LockAction.release.inj (ha.symm.trans hrelease)
          exact (hok.owner hm hd).symm
        · exact ⟨hm, fun hrelease => hother m b hrelease hb (by rw [hok.owner hm hb]; exact hm)⟩
      rcases hchanged.settles hsettled with hsettled | ha
      · exact absurd (hok.unsettled e m b hold.1 hb) (by rw [hsettled]; nofun)
      · exact hold.2 ha
    · rfl
  -- There is no entry if none was there, or if it has just been deleted.
  free e hnone := by
    rcases h.map with ⟨e', ha, hcalls, hlocks⟩ | ⟨n, c, _, hc, hphase, hid, hentry, hlocks, hdone⟩ |
      ⟨_, hid, hlocks, _⟩ <;> rw [hlocks] at hnone
    · rw [Function.update_apply] at hnone
      split at hnone
      · cases hnone
      · next he =>
        intro m c hm hc hce
        rw [hcalls] at hc
        rcases Table.get_insert_eq_some.1 hc with ⟨_, rfl⟩ | hold
        · exact absurd hce.symm he
        · exact hok.free e hnone m c (Table.lt_nextId hold) hold hce
    · rw [hid]
      by_cases he : e = c.employeeId
      · -- All before the call have settled, it has just settled, and it is the last.
        subst he
        intro m d hm hd hde
        rcases h.origin hd with ⟨b, hb, hchanged⟩ | ⟨_, _, hnew, _⟩
        · have hbe := hchanged.employeeId.symm.trans hde
          rcases lt_trichotomy m n with hmn | rfl | hnm
          · exact (hok.started n c hc hphase).step (Table.lt_nextId hc).le h m d hmn hd hde
          · obtain ⟨c', hc', hsettled⟩ := hdone
            rwa [Option.some.inj (hd.symm.trans hc')]
          · exact absurd hbe ((hok.entry _ n hentry).none_between m b hnm hm hb)
        · exact absurd hnew hm.ne
      · rw [Function.update_of_ne he] at hnone
        exact (hok.free e hnone).step le_rfl h
    · rw [hid]
      exact (hok.free e hnone).step le_rfl h

variable {ok : Locks ρ → LockAction ρ → Prop} {hist : List (Locks ρ × LockAction ρ)}

theorem lockOk_of_run (hrun : Run step ok empty hist s) : LockOk s :=
  hrun.invariant lockOk_empty fun _ _ _ hok _ hnext => hok.after (step_stepped hnext)

/-! ## First come, first served -/

/-- The call for the employee that the step makes, if any. -/
def arriving (e : ℕ) : Locks ρ × LockAction ρ → Option ℕ
  | (s, .call e') => if e' = e then some s.calls.nextId else none
  | _ => none

/-- The call for the employee whose `fn` the step starts, if any. -/
def starting (e : ℕ) : Locks ρ × LockAction ρ → Option ℕ
  | (s, .resume n) => if (s.calls.get n).any (·.employeeId = e) then some n else none
  | _ => none

/-- The calls for the employee, in the order in which they have been made. -/
def arrivals (e : ℕ) (hist : List (Locks ρ × LockAction ρ)) : List ℕ := hist.filterMap (arriving e)

/-- The calls for the employee, in the order in which their `fn`s have started. -/
def starts (e : ℕ) (hist : List (Locks ρ × LockAction ρ)) : List ℕ := hist.filterMap (starting e)

/-- What the history tells about the calls for the employee. -/
structure Recorded (e : ℕ) (hist : List (Locks ρ × LockAction ρ)) (s : Locks ρ) : Prop where
  arrived : ∀ n, n ∈ arrivals e hist ↔ ∃ c, s.calls.get n = some c ∧ c.employeeId = e
  sorted : (arrivals e hist).Pairwise (· < ·)
  begun : ∀ n, n ∈ starts e hist ↔
    ∃ c, s.calls.get n = some c ∧ c.employeeId = e ∧ c.phase ≠ .waiting
  fifo : starts e hist <+: arrivals e hist

/-- The least number that is missing in a prefix comes next. -/
theorem prefix_snoc {l l' : List ℕ} (hle : l' <+: l) (hsorted : l.Pairwise (· < ·))
    (hn : n ∈ l) (hnew : n ∉ l') (hbefore : ∀ m ∈ l, m < n → m ∈ l') : l' ++ [n] <+: l := by
  obtain ⟨t, rfl⟩ := hle
  obtain ⟨_, ht, hlt⟩ := List.pairwise_append.1 hsorted
  cases t with
  | nil => exact absurd (by simpa using hn) hnew
  | cons x t =>
    -- What follows the prefix is `n`: if it were less, it would be in the prefix.
    have hx : x ∈ l' ++ x :: t := List.mem_append_right _ List.mem_cons_self
    rcases List.mem_cons.1 ((List.mem_append.1 hn).resolve_left hnew) with rfl | hnt
    · exact ⟨t, by simp⟩
    · have hxn := (List.pairwise_cons.1 ht).1 n hnt
      exact absurd (hlt x (hbefore x hx hxn) x List.mem_cons_self) (lt_irrefl x)

theorem arrivals_snoc {x : Locks ρ × LockAction ρ} :
    arrivals e (hist ++ [x]) = arrivals e hist ++ (arriving e x).toList :=
  filterMap_snoc _ _ _

theorem starts_snoc {x : Locks ρ × LockAction ρ} :
    starts e (hist ++ [x]) = starts e hist ++ (starting e x).toList :=
  filterMap_snoc _ _ _

theorem arriving_eq_some : arriving e (s, a) = some n ↔ a = .call e ∧ n = s.calls.nextId := by
  cases a <;> simp [arriving, eq_comm]

/-- A step starts the `fn` of a call if it resumes it. -/
theorem starting_eq_some : starting e (s, a) = some n ↔
    a = .resume n ∧ ∃ c, s.calls.get n = some c ∧ c.employeeId = e := by
  cases a with
  | resume m =>
    simp only [starting, Option.ite_none_right_eq_some, Option.any_eq_true, decide_eq_true_eq,
      Option.some.injEq, LockAction.resume.injEq]
    constructor
    · rintro ⟨hc, rfl⟩
      exact ⟨rfl, hc⟩
    · rintro ⟨rfl, hc⟩
      exact ⟨hc, rfl⟩
  | _ => simp [starting]

theorem Stepped.resumed (h : Stepped s (.resume n) s') : ∃ c, s.calls.get n = some c ∧
    c.phase = .waiting ∧ s.prevFulfilled c ∧
      s'.calls.get n = some { c with phase := .running } := by
  cases h with
  | resume hc hphase hprev => exact ⟨_, hc, hphase, hprev, Table.get_update_self hc⟩

/-- The calls that have arrived after a step. -/
theorem Recorded.arrived_step (hrecorded : Recorded e hist s) (h : Stepped s a s') :
    n ∈ arrivals e (hist ++ [(s, a)]) ↔ ∃ c, s'.calls.get n = some c ∧ c.employeeId = e := by
  rw [arrivals_snoc, List.mem_append, Option.mem_toList, arriving_eq_some,
    hrecorded.arrived]
  constructor
  · rintro (⟨c, hc, he⟩ | ⟨rfl, rfl⟩)
    · obtain ⟨c', hc', hchanged⟩ := h.kept hc
      exact ⟨c', hc', hchanged.employeeId.trans he⟩
    · cases h with
      | call => exact ⟨_, if_pos rfl, rfl⟩
  · rintro ⟨c, hc, rfl⟩
    rcases h.origin hc with ⟨b, hb, hchanged⟩ | ⟨e', rfl, rfl, rfl⟩
    · exact .inl ⟨b, hb, hchanged.employeeId.symm⟩
    · exact .inr ⟨rfl, rfl⟩

/-- The calls that have begun after a step. -/
theorem Recorded.begun_step (hrecorded : Recorded e hist s) (h : Stepped s a s') :
    n ∈ starts e (hist ++ [(s, a)]) ↔
      ∃ c, s'.calls.get n = some c ∧ c.employeeId = e ∧ c.phase ≠ .waiting := by
  rw [starts_snoc, List.mem_append, Option.mem_toList, starting_eq_some,
    hrecorded.begun]
  constructor
  · rintro (⟨c, hc, he, hphase⟩ | ⟨rfl, c, hc, he⟩)
    · obtain ⟨c', hc', hchanged⟩ := h.kept hc
      exact ⟨c', hc', hchanged.employeeId.trans he, hchanged.stays hphase⟩
    · obtain ⟨c', hc', _, _, hrunning⟩ := h.resumed
      obtain rfl := Option.some.inj (hc.symm.trans hc')
      exact ⟨_, hrunning, he, nofun⟩
  · rintro ⟨c, hc, rfl, hphase⟩
    rcases h.origin hc with ⟨b, hb, hchanged⟩ | ⟨e', rfl, rfl, rfl⟩
    · rcases hchanged.started hphase with hphase | ⟨ha, _⟩
      · exact .inl ⟨b, hb, hchanged.employeeId.symm, hphase⟩
      · exact .inr ⟨ha, b, hb, hchanged.employeeId.symm⟩
    · exact absurd rfl hphase

/-- A step keeps what the history tells. -/
theorem Recorded.step (hrecorded : Recorded e hist s) (hok : LockOk s) (h : Stepped s a s') :
    Recorded e (hist ++ [(s, a)]) s' where
  arrived _ := hrecorded.arrived_step h
  begun _ := hrecorded.begun_step h
  -- Calls are numbered as they arrive.
  sorted := by
    rw [arrivals_snoc]
    refine List.pairwise_append.2 ⟨hrecorded.sorted, ?_, fun m hm n hn => ?_⟩
    · cases arriving e (s, a) <;> simp
    · obtain ⟨c, hc, _⟩ := (hrecorded.arrived m).1 hm
      rw [Option.mem_toList, arriving_eq_some] at hn
      exact hn.2 ▸ Table.lt_nextId hc
  -- If a call starts, then it is the next one of those that have arrived.
  fifo := by
    rw [starts_snoc]
    cases hstarting : starting e (s, a) with
    | none =>
      rw [Option.toList_none, List.append_nil, arrivals_snoc]
      exact hrecorded.fifo.trans (List.prefix_append _ _)
    | some n =>
      obtain ⟨rfl, c, hc, he⟩ := starting_eq_some.1 hstarting
      obtain ⟨c', hc', hphase, hprev, _⟩ := h.resumed
      obtain rfl := Option.some.inj (hc.symm.trans hc')
      have hold : arrivals e (hist ++ [(s, .resume n)]) = arrivals e hist := by
        rw [arrivals_snoc]
        exact List.append_nil _
      rw [hold]
      refine prefix_snoc hrecorded.fifo hrecorded.sorted ((hrecorded.arrived n).2 ⟨c, hc, he⟩)
        (fun hn => ?_) fun m hm hmn => ?_
      · obtain ⟨d, hd, _, hstarted⟩ := (hrecorded.begun n).1 hn
        rw [Option.some.inj (hd.symm.trans hc)] at hstarted
        exact hstarted hphase
      · -- All before it have settled, so their `fn`s have started.
        obtain ⟨d, hd, hde⟩ := (hrecorded.arrived m).1 hm
        refine (hrecorded.begun m).2 ⟨d, hd, hde, fun hwaiting => ?_⟩
        have hsettled := hok.cleared hc hprev m d hmn hd (hde.trans he.symm)
        rw [hwaiting] at hsettled
        cases hsettled

/-- The history of a run tells this, for every employee. -/
theorem recorded_of_run (e : ℕ) (hrun : Run step ok empty hist s) : Recorded e hist s := by
  refine hrun.history (I := fun hist s => Recorded e hist s) ⟨fun n => ?_, .nil, fun n => ?_,
    List.nil_prefix⟩ fun hist s a s' hrun hrecorded _ hnext =>
      hrecorded.step (lockOk_of_run hrun) (step_stepped hnext)
  · exact iff_of_false List.not_mem_nil fun ⟨_, hc, _⟩ => nomatch hc
  · exact iff_of_false List.not_mem_nil fun ⟨_, hc, _⟩ => nomatch hc

/-! ## Nobody is kept waiting -/

/-- Only promises have been fulfilled. -/
def Frame (s s' : Locks ρ) : Prop :=
  ∀ n c, s.calls.get n = some c → ∃ c', s'.calls.get n = some c' ∧ c'.prev = c.prev ∧
    c'.nextResolved = c.nextResolved ∧ c'.phase = c.phase

/-- The `lock` of the call `n` is fulfilled. -/
theorem get_fulfill (hc : s.calls.get n = some c) :
    (s.update n fun c => { c with lockFulfilled := true }).calls.get n =
      some { c with lockFulfilled := true } := Table.get_update_self hc

/-- That a promise is fulfilled is not seen by the others. -/
theorem frame_fulfill : Frame s (s.update n fun c => { c with lockFulfilled := true }) := by
  intro m c hc
  by_cases hm : m = n
  · subst hm
    exact ⟨_, get_fulfill hc, rfl, rfl, rfl⟩
  · exact ⟨c, (Table.get_update_of_ne hm).trans hc, rfl, rfl, rfl⟩

theorem step_fulfill (hc : s.calls.get n = some c) (hresolved : c.nextResolved)
    (hprev : s.prevFulfilled c) :
    step s (.fulfill n) = some (s.update n fun c => { c with lockFulfilled := true }) := by
  rw [step, hc, Option.bind_some, hresolved, hprev]
  rfl

/-- A call can be resumed if it waits for nothing any more. -/
theorem isSome_resume : (step s (.resume n)).isSome ↔
    ∃ c, s.calls.get n = some c ∧ c.phase = .waiting ∧ s.prevFulfilled c := by
  constructor
  · intro h
    obtain ⟨s', hs'⟩ := Option.isSome_iff_exists.1 h
    obtain ⟨c, hc, hphase, hprev, _⟩ := (step_stepped hs').resumed
    exact ⟨c, hc, hphase, hprev⟩
  · rintro ⟨c, hc, hphase, hprev⟩
    rw [step, hc, Option.bind_some, hphase]
    simp only [hprev, if_true]
    rfl

/-- The promise of a call is fulfilled once it and all before it have settled,
    with nothing but the promises of these being fulfilled first. -/
theorem LockOk.exists_fulfilled (hok : LockOk s) (hc : s.calls.get n = some c)
    (hsettled : c.phase.isSettled) (hcleared : Cleared s n c.employeeId) :
    ∃ (ms : List ℕ) (s' : Locks ρ),
      (∀ m ∈ ms, m ≤ n ∧ ∃ d, s.calls.get m = some d ∧ d.employeeId = c.employeeId) ∧
      exec step s (ms.map .fulfill) = some s' ∧ Frame s s' ∧
      ∃ c', s'.calls.get n = some c' ∧ c'.lockFulfilled := by
  induction n using Nat.strong_induction_on generalizing c with
  | _ n ih =>
    have hresolved : c.nextResolved := (hok.resolved n c hc).trans hsettled
    cases hprev : c.prev with
    | none =>
      have hready : s.prevFulfilled c := by rw [prevFulfilled, hprev]
      refine ⟨[n], _, fun m hm => ?_, ?_, frame_fulfill, _, get_fulfill hc, rfl⟩
      · obtain rfl := List.mem_singleton.1 hm
        exact ⟨le_rfl, c, hc, rfl⟩
      · rw [List.map_singleton, exec, step_fulfill hc hresolved hready]
        rfl
    | some k =>
      -- The promise that it waits for comes first, and its own one last.
      have hfollows := hok.next n c k hc hprev
      obtain ⟨d, hd, hde⟩ := hfollows.before
      obtain ⟨ms, s₁, hms, hexec, hframe, d', hd', hfulfilled⟩ :=
        ih k hfollows.lt hd (hcleared k d hfollows.lt hd hde)
          fun m b hm hb hbe => hcleared m b (hm.trans hfollows.lt) hb (hbe.trans hde)
      obtain ⟨c₁, hc₁, hprev₁, hresolved₁, _⟩ := hframe n c hc
      have hready : s₁.prevFulfilled c₁ := by
        rw [prevFulfilled, hprev₁, hprev]
        dsimp only
        rw [hd', Option.any_some, hfulfilled]
      refine ⟨ms ++ [n], _, fun m hm => ?_, ?_, fun m b hb => ?_, _,
        get_fulfill hc₁, rfl⟩
      · rcases List.mem_append.1 hm with hm | hm
        · obtain ⟨hle, b, hb, hbe⟩ := hms m hm
          exact ⟨hle.trans hfollows.lt.le, b, hb, hbe.trans hde⟩
        · obtain rfl := List.mem_singleton.1 hm
          exact ⟨le_rfl, c, hc, rfl⟩
      · rw [List.map_append, exec_append hexec, List.map_singleton, exec,
          step_fulfill hc₁ (hresolved₁.trans hresolved) hready]
        rfl
      · obtain ⟨b₁, hb₁, hp₁, hr₁, hph₁⟩ := hframe m b hb
        obtain ⟨b₂, hb₂, hp₂, hr₂, hph₂⟩ := frame_fulfill m b₁ hb₁
        exact ⟨b₂, hb₂, hp₂.trans hp₁, hr₂.trans hr₁, hph₂.trans hph₁⟩

/-- A call can start once all before it have settled. -/
theorem LockOk.exists_resume (hok : LockOk s) (hc : s.calls.get n = some c)
    (hwaiting : c.phase = .waiting) (hcleared : Cleared s n c.employeeId) :
    ∃ (ms : List ℕ) (s' : Locks ρ),
      (∀ m ∈ ms, m < n ∧ ∃ d, s.calls.get m = some d ∧ d.employeeId = c.employeeId) ∧
      exec step s (ms.map .fulfill) = some s' ∧ (step s' (.resume n)).isSome := by
  cases hprev : c.prev with
  | none =>
    have hready : s.prevFulfilled c := by rw [prevFulfilled, hprev]
    exact ⟨[], s, fun m hm => absurd hm List.not_mem_nil, rfl,
      isSome_resume.2 ⟨c, hc, hwaiting, hready⟩⟩
  | some k =>
    have hfollows := hok.next n c k hc hprev
    obtain ⟨d, hd, hde⟩ := hfollows.before
    obtain ⟨ms, s', hms, hexec, hframe, d', hd', hfulfilled⟩ :=
      hok.exists_fulfilled hd (hcleared k d hfollows.lt hd hde)
        fun m b hm hb hbe => hcleared m b (hm.trans hfollows.lt) hb (hbe.trans hde)
    obtain ⟨c', hc', hprev', _, hphase'⟩ := hframe n c hc
    refine ⟨ms, s', fun m hm => ?_, hexec, isSome_resume.2 ⟨c', hc', hphase'.trans hwaiting, ?_⟩⟩
    · obtain ⟨hle, b, hb, hbe⟩ := hms m hm
      exact ⟨hle.trans_lt hfollows.lt, b, hb, hbe.trans hde⟩
    · rw [prevFulfilled, hprev', hprev]
      dsimp only
      rw [hd', Option.any_some, hfulfilled]

/-- A call that can start can do so until it does. -/
theorem Stepped.resumable (h : Stepped s a s') (hn : (step s (.resume n)).isSome)
    (ha : a ≠ .resume n) : (step s' (.resume n)).isSome := by
  obtain ⟨c, hc, hwaiting, hprev⟩ := isSome_resume.1 hn
  obtain ⟨c', hc', hchanged⟩ := h.kept hc
  refine isSome_resume.2 ⟨c', hc', ?_, ?_⟩
  · by_contra hphase
    rcases hchanged.started hphase with hstarted | ⟨hresume, _⟩
    · exact hstarted hwaiting
    · exact ha hresume
  · -- A promise that has been fulfilled stays so.
    rw [prevFulfilled] at hprev ⊢
    rw [hchanged.prev]
    split
    · rfl
    · next m hm =>
      rw [hm] at hprev
      obtain ⟨d, hd, hfulfilled⟩ := (Option.any_eq_true _ _).1 hprev
      obtain ⟨d', hd', hchanged'⟩ := h.kept hd
      rw [hd', Option.any_some, hchanged'.kept hfulfilled]

/-! ## The lock -/

/-- The lock of each employee is a mutex, first come, first served. -/
structure FifoMutex (hist : List (Locks ρ × LockAction ρ)) (s : Locks ρ) : Prop where
  /-- No two `fn`s for an employee are running. -/
  exclusive : ∀ n m c d, s.calls.get n = some c → s.calls.get m = some d →
    c.employeeId = d.employeeId → c.phase.isInside → d.phase.isInside → n = m
  /-- They have started in the order of their calls, and none has been skipped. -/
  fifo : ∀ e, starts e hist <+: arrivals e hist
  /-- Whenever one has started, all before it had settled. -/
  settled : ∀ t n c, (t, .resume n) ∈ hist → t.calls.get n = some c →
    ∀ m d, m < n → t.calls.get m = some d → d.employeeId = c.employeeId → d.phase.isSettled
  /-- Once these have settled, whatever with, their promises are fulfilled one
      after the other, and then it can start. -/
  startable : ∀ n c, s.calls.get n = some c → c.phase = .waiting →
    (∀ m d, m < n → s.calls.get m = some d → d.employeeId = c.employeeId →
      d.phase.isSettled) →
    ∃ (ms : List ℕ) (s' : Locks ρ),
      (∀ m ∈ ms, m < n ∧ ∃ d, s.calls.get m = some d ∧ d.employeeId = c.employeeId) ∧
      exec step s (ms.map .fulfill) = some s' ∧ (step s' (.resume n)).isSome
  /-- Nothing but its start ends this. -/
  lasting : ∀ n a s', (step s (.resume n)).isSome → step s a = some s' → a ≠ .resume n →
    (step s' (.resume n)).isSome
  /-- What a call awaits is the promise of a call for the same employee. -/
  separate : ∀ n c m, s.calls.get n = some c → c.prev = some m →
    ∃ d, s.calls.get m = some d ∧ d.employeeId = c.employeeId
  /-- The map has no entry for an employee whose calls have all settled. -/
  unleaked : ∀ e, (∀ n c, s.calls.get n = some c → c.employeeId = e → c.phase.isSettled) →
    s.reservationLocks e = none

/-- Every run is one of a fair lock. -/
theorem fifoMutex_of_run (hrun : Run step ok empty hist s) : FifoMutex hist s := by
  have hok := lockOk_of_run hrun
  -- A call that is inside its `fn` has started, hence all before it have settled; it has
  -- not.
  have hinside : ∀ {n c}, s.calls.get n = some c → c.phase.isInside →
      c.phase.isSettled = false ∧ Cleared s n c.employeeId := by
    intro n c hc hinside
    refine ⟨?_, hok.started n c hc fun hwaiting => ?_⟩
    · cases hphase : c.phase <;> rw [hphase] at hinside <;> first | rfl | cases hinside
    · rw [hwaiting] at hinside
      cases hinside
  refine ⟨fun n m c d hc hd he hcin hdin => ?_, fun e => (recorded_of_run e hrun).fifo,
    fun t n c hstep hc => ?_, fun n c hc => hok.exists_resume hc,
    fun n a s' hn hnext ha => (step_stepped hnext).resumable hn ha,
    fun n c m hc hm => (hok.next n c m hc hm).before, fun e hsettled => ?_⟩
  · -- The later of the two has started after the earlier one has settled.
    obtain ⟨hcunsettled, hccleared⟩ := hinside hc hcin
    obtain ⟨hdunsettled, hdcleared⟩ := hinside hd hdin
    rcases lt_trichotomy n m with hnm | rfl | hmn
    · rw [hdcleared n c hnm hc he] at hcunsettled
      cases hcunsettled
    · rfl
    · rw [hccleared m d hmn hd he.symm] at hdunsettled
      cases hdunsettled
  · obtain ⟨_, _, hrun', _, hnext⟩ := hrun.of_mem hstep
    obtain ⟨c', hc', _, hprev, _⟩ := (step_stepped hnext).resumed
    obtain rfl := Option.some.inj (hc.symm.trans hc')
    exact (lockOk_of_run hrun').cleared hc hprev
  · cases hentry : s.reservationLocks e with
    | none => rfl
    | some m =>
      -- The call of the entry has not settled.
      obtain ⟨c, hc, he⟩ := (hok.entry e m hentry).before
      have hunsettled := hok.unsettled e m c hentry hc
      rw [hsettled m c hc he] at hunsettled
      cases hunsettled

/-- Two calls for one employee, the first of which throws, and one for another. -/
def sampleCalls : List (LockAction (Except String Unit)) :=
  [.call 1, .call 1, .resume 0, .call 2, .work 0, .resume 2, .finish 0 (.error "Conflict"),
    .release 0, .fulfill 0, .resume 1, .finish 1 (.ok ()), .release 1]

/-- The lock of an employee is free again, although a call has thrown; that of the
    other is still taken. -/
theorem fifoMutex_of_run_sample : ∃ s : Locks (Except String Unit),
    FifoMutex (trace step empty sampleCalls) s ∧ s.reservationLocks 1 = none ∧
      s.reservationLocks 2 = some 2 := by
  have hexec : ∃ s ∈ exec step empty sampleCalls,
      s.reservationLocks 1 = none ∧ s.reservationLocks 2 = some 2 := by decide +kernel
  obtain ⟨s, hrun, hs⟩ := exists_run_of_exec (p := fun _ => True) (fun _ _ => trivial) hexec
  exact ⟨s, fifoMutex_of_run hrun, hs⟩

end Locks

end TimeOff
