import TimeOff.Lib.Rounding
import TimeOff.Request.Stepwise
import TimeOff.System

/-!
# Reserving under interference

`reserveBalanceWithRetry` reads the balance and updates it by a guarded
statement, at most three times over; between its statements the row may change
in any way, or disappear (`Reserving`). It reserves the days once, at a moment
when they are available, or throws and has changed nothing
(`reserve_all_or_nothing`): an update is issued only if the read before it has
found the days available, and the guard looks again. It ends after at most
seven statements (`atMost_of_run`).

All of this is independent of how sums and differences are rounded, as long as
the service and the database round alike: the check and the guard then compare
the same number.
-/

namespace TimeOff

open Transition Script Rounding

/-- 422 -/
def ServiceError.isUnprocessable : ServiceError → Bool
  | noBalanceRecord _ | insufficientBalance _ _ => true
  | _ => false

/-- 409 -/
def ServiceError.isConflict : ServiceError → Bool
  | conflict _ | reservationFailed _ _ => true
  | _ => false

/-- A reservation under way: the database, and what is left to do. -/
structure Reserving where
  db : Database
  script : Steps Unit

namespace Reserving

/-- What can happen while a reservation is under way. -/
inductive Action
  /-- Somebody else changes the database. -/
  | interfere (f : Database → Database)
  /-- The next statement is executed. -/
  | execute

/-- The reservation goes on, on the database as it is then. -/
def step (s : Reserving) : Action → Option Reserving
  | .interfere f => some { s with db := f s.db }
  | .execute => (s.script.step s.db).map fun r => ⟨r.1, r.2⟩

/-- `reserveBalanceWithRetry` is called. -/
def start (key : BalanceKey) (days : ℚ) (db : Database) (round : ℚ → ℚ := id) : Reserving :=
  ⟨db, Steps.reserveBalanceWithRetry key days round⟩

/-- It has returned, or thrown. -/
def Finished (s : Reserving) : Prop := s.script.head = none

/-- It has returned: the days are reserved. -/
def Returned (s : Reserving) : Prop := s.script = done ()

instance (s : Reserving) : Decidable s.Returned :=
  match h : s.script with
  | .done () => isTrue h
  | .raise _ => isFalse (by rw [Returned, h]; nofun)
  | .stmt .. => isFalse (by rw [Returned, h]; nofun)

/-- It has thrown an error of this kind. -/
def Thrown (kind : ServiceError → Bool) (s : Reserving) : Prop :=
  ∃ e, s.script = raise e ∧ kind e

/-- The step is a statement with this label. -/
def executes (label : Statement) (x : Reserving × Action) : Bool :=
  match x.2 with
  | .interfere _ => false
  | .execute => x.1.script.head = some label

/-- The step is a statement, whichever. -/
def isExecute (x : Reserving × Action) : Bool :=
  match x.2 with
  | .interfere _ => false
  | .execute => true

/-- The step is a statement that changes the database. -/
def takesEffect (x : Reserving × Action) : Bool :=
  match x.2 with
  | .interfere _ => false
  | .execute => (x.1.script.effect x.1.db).isSome

/-- There is no balance for `key`, or it has fewer days left. -/
def lacks (key : BalanceKey) (days : ℚ) (db : Database) (round : ℚ → ℚ := id) : Bool :=
  match db.balances.lookup key with
  | some (_, b) => round (round (b.totalDays - b.usedDays) - b.reservedDays) < days
  | none => true

/-- The step is the read of an attempt, and finds this. -/
def readsLack (key : BalanceKey) (days : ℚ) (x : Reserving × Action) (round : ℚ → ℚ := id) :
    Bool :=
  executes .findBalance x && lacks key days x.1.db round

variable {key : BalanceKey} {days : ℚ} {round : ℚ → ℚ} {db db₀ : Database}
  {s s' s₀ : Reserving} {a : Action} {hist : List (Reserving × Action)} {n : ℕ}

/-! ## Where a reservation can be -/

/-- What is left to do after an attempt with `n` attempts to follow has read
    a balance with that version. -/
def updating (key : BalanceKey) (days : ℚ) (version n : ℕ) (round : ℚ → ℚ := id) : Steps Unit := do
  if ← Steps.reserveBalance key days version round then pure ()
  else Steps.reserveAttempts key days n round

/-- Where a reservation is that has issued so many updates, of which so many
    have taken effect, and has found the balance lacking or not. -/
inductive Stage (key : BalanceKey) (days : ℚ) (x : Steps Unit) (round : ℚ → ℚ) :
    ℕ → ℕ → Bool → Prop
  | attempting {issued n : ℕ} : issued + n = maxAttempts →
      x = Steps.reserveAttempts key days n round → Stage key days x round issued 0 false
  | updating {issued n version : ℕ} : issued + (n + 1) = maxAttempts →
      x = updating key days version n round → Stage key days x round issued 0 false
  | returned {issued : ℕ} : issued ≤ maxAttempts → x = done () →
      Stage key days x round issued 1 false
  | refused {issued : ℕ} {e : ServiceError} : issued < maxAttempts → e.isUnprocessable →
      x = raise e → Stage key days x round issued 0 true
  | exhausted {e : ServiceError} : e.isConflict → x = raise e →
      Stage key days x round maxAttempts 0 false

theorem effectiveAvailable_lt {b : LeaveBalance} (hdays : 0 < days) :
    b.effectiveAvailable round < days ↔
      round (round (b.totalDays - b.usedDays) - b.reservedDays) < days := by
  rw [LeaveBalance.effectiveAvailable, calculateEffectiveAvailable, max_lt_iff]
  exact and_iff_right hdays

/-- What an attempt does with what it has read: the check of the availability,
    clamped at `0`, is that of the guard. -/
theorem step_attempt (hdays : 0 < days) :
    (Steps.reserveAttempts key days (n + 1) round).step db = some (db,
      match db.balances.lookup key with
      | some (_, b) =>
        if lacks key days db round then
          raise (.insufficientBalance days (b.effectiveAvailable round))
        else updating key days b.version n round
      | none => raise (.noBalanceRecord key)) := by
  rw [Steps.reserveAttempts, Steps.findBalance, step_query, lacks]
  cases db.balances.lookup key with
  | none => rfl
  | some r =>
    simp only [Option.map_some, effectiveAvailable_lt hdays, decide_eq_true_eq]
    rfl

theorem step_updating {version : ℕ} :
    (updating key days version n round).step db =
      some ((Steps.reserved key days version db round).getD db,
        if (Steps.reserved key days version db round).isSome then done ()
        else Steps.reserveAttempts key days n round) := rfl

/-- A statement takes a reservation to where it has issued one more update, or
    has not. -/
theorem Stage.execute {issued taken : ℕ} {lack : Bool} (hdays : 0 < days)
    (hstage : Stage key days s.script round issued taken lack) (hnext : s.step .execute = some s') :
    Stage key days s'.script round
      (issued + if executes .reserveBalance (s, .execute) then 1 else 0)
      (taken + if takesEffect (s, .execute) then 1 else 0)
      (lack || readsLack key days (s, .execute) round) := by
  obtain ⟨r, hstep, rfl⟩ := Option.map_eq_some_iff.1 hnext
  obtain ⟨db, script⟩ := s
  cases hstage with
  | @attempting _ n hn hx =>
    obtain rfl : script = Steps.reserveAttempts key days n round := hx
    cases n with
    | zero =>
      -- The last read is for the message only.
      obtain rfl : issued = maxAttempts := hn
      cases hstep
      exact .exhausted rfl rfl
    | succ n =>
      have hissues : executes .reserveBalance
          (⟨db, Steps.reserveAttempts key days (n + 1) round⟩, .execute) = false := rfl
      have hread : readsLack key days
          (⟨db, Steps.reserveAttempts key days (n + 1) round⟩, .execute) round =
          lacks key days db round := rfl
      rw [hissues, hread, Bool.false_or, if_neg Bool.false_ne_true]
      obtain rfl := Option.some.inj ((step_attempt hdays).symm.trans hstep)
      cases hl : db.balances.lookup key with
      | none =>
        have hlack : lacks key days db round = true := by rw [lacks, hl]
        rw [hlack]
        exact .refused (by omega) rfl rfl
      | some q =>
        cases hlack : lacks key days db round with
        | true => exact .refused (by omega) rfl rfl
        | false =>
          -- An attempt is left, and is used up by the update that follows.
          exact .updating (by omega) rfl
  | @updating _ n version hn hx =>
    obtain rfl : script = Reserving.updating key days version n round := hx
    obtain rfl := Option.some.inj (step_updating.symm.trans hstep)
    have hissues : executes .reserveBalance
        (⟨db, Reserving.updating key days version n round⟩, .execute) = true := rfl
    have htakes : takesEffect (⟨db, Reserving.updating key days version n round⟩, .execute) =
        (Steps.reserved key days version db round).isSome := rfl
    rw [hissues, htakes, if_pos rfl]
    cases (Steps.reserved key days version db round).isSome with
    | true => exact .returned (by omega) rfl
    | false => exact .attempting (n := n) (by omega) rfl
  | returned _ hx | refused _ _ hx | exhausted _ hx =>
    obtain rfl := hx
    cases hstep

/-- Others do not know where a reservation is. -/
theorem Stage.step {issued taken : ℕ} {lack : Bool} (hdays : 0 < days)
    (hstage : Stage key days s.script round issued taken lack) (hnext : s.step a = some s') :
    Stage key days s'.script round (issued + if executes .reserveBalance (s, a) then 1 else 0)
      (taken + if takesEffect (s, a) then 1 else 0) (lack || readsLack key days (s, a) round) := by
  cases a with
  | interfere f =>
    obtain rfl := Option.some.inj hnext
    have hread : readsLack key days (s, .interfere f) round = false := rfl
    rw [hread, Bool.or_false]
    exact hstage
  | execute => exact hstage.execute hdays hnext

/-- Where a reservation is, by what it has done so far. -/
theorem stage_of_run (hdays : 0 < days) {ok : Reserving → Action → Prop}
    (hrun : Run step ok (start key days db₀ round) hist s) :
    Stage key days s.script round (hist.countP (executes .reserveBalance)) (hist.countP takesEffect)
      (hist.any (readsLack key days · round)) := by
  refine hrun.history (I := fun hist s => Stage key days s.script round
    (hist.countP (executes .reserveBalance)) (hist.countP takesEffect)
    (hist.any (readsLack key days · round))) (.attempting (Nat.zero_add _) rfl) ?_
  intro hist s a s' _ hstage _ hnext
  rw [countP_snoc, countP_snoc, List.any_append, List.any_cons, List.any_nil, Bool.or_false]
  exact hstage.step hdays hnext

/-- The one statement of a reservation that changes the database reserves days
    that are available at that moment. -/
theorem effect_eq_some {db' : Database} (hstage : ∃ i t l, Stage key days s.script round i t l)
    (heffect : s.script.effect s.db = some db') :
    ∃ i b, s.db.balances.get i = some b ∧ b.toBalanceKey = key ∧
      days ≤ round (round (b.totalDays - b.usedDays) - b.reservedDays) ∧
      db' = s.db.reserve key days round := by
  obtain ⟨issued, taken, lack, hstage⟩ := hstage
  obtain ⟨db, script⟩ := s
  cases hstage with
  | @attempting _ n _ hx =>
    obtain rfl := hx
    cases n <;> cases heffect
  | @updating _ n version _ hx =>
    obtain rfl := hx
    obtain ⟨balances, hu, rfl⟩ := Option.map_eq_some_iff.1 heffect
    obtain ⟨i, b, hb, hk, hp, rfl⟩ := KeyedTable.updateKeyIf_eq_some.1 hu
    -- The guard asks for the version, and for the days.
    simp only [LeaveBalance.reservable, ge_iff_le, Bool.and_eq_true, decide_eq_true_eq] at hp
    exact ⟨i, b, hb, hk, hp.1, rfl⟩
  | returned _ hx | refused _ _ hx | exhausted _ hx =>
    obtain rfl := hx
    cases heffect

/-- The days are available in the row as it is read. -/
theorem lacks_eq_false : lacks key days db round = false ↔ ∃ i b, db.balances.get i = some b ∧
    b.toBalanceKey = key ∧ days ≤ round (round (b.totalDays - b.usedDays) - b.reservedDays) := by
  rw [lacks]
  constructor
  · intro h
    split at h
    · next i b hl =>
      obtain ⟨hi, hk⟩ := KeyedTable.lookup_eq_some.1 hl
      exact ⟨i, b, hi, hk, not_lt.1 (of_decide_eq_false h)⟩
    · cases h
  · rintro ⟨i, b, hi, hk, hle⟩
    rw [KeyedTable.lookup_eq_some.2 ⟨hi, hk⟩]
    exact decide_eq_false (not_lt.2 hle)

/-! ## It ends -/

/-- An attempt has two statements, and there is one after the last. -/
theorem atMost_reserveAttempts : (Steps.reserveAttempts key days n round).AtMost (2 * n + 1) := by
  induction n with
  | zero => exact atMost_bind (m := 1) (n := 0) atMost_query fun _ => trivial
  | succ n ih =>
    have hattempt :
        (Steps.reserveAttempts key days (n + 1) round).AtMost (1 + (1 + (2 * n + 1))) := by
      refine atMost_bind atMost_query fun o => ?_
      cases o with
      | none => trivial
      | some balance =>
        dsimp only
        split
        · trivial
        · refine atMost_bind atMost_update fun r => ?_
          cases r with
          | false => exact ih
          | true => trivial
    exact hattempt.mono (by omega)

/-- Each statement brings a reservation closer to its end, and interference does
    not take it away from there. -/
theorem atMost_of_run {ok : Reserving → Action → Prop}
    (hrun : Run step ok (start key days db₀ round) hist s) :
    hist.countP isExecute ≤ 2 * maxAttempts + 1 ∧
      s.script.AtMost (2 * maxAttempts + 1 - hist.countP isExecute) := by
  refine hrun.history (I := fun hist s => hist.countP isExecute ≤ 2 * maxAttempts + 1 ∧
    s.script.AtMost (2 * maxAttempts + 1 - hist.countP isExecute))
    ⟨Nat.zero_le _, atMost_reserveAttempts⟩ ?_
  rintro hist s a s' _ ⟨hle, hrest⟩ _ hnext
  rw [countP_snoc]
  cases a with
  | interfere f =>
    obtain rfl := Option.some.inj hnext
    exact ⟨hle, hrest⟩
  | execute =>
    obtain ⟨r, hstep, rfl⟩ := Option.map_eq_some_iff.1 hnext
    obtain ⟨hpos, hrest⟩ := hrest.step hstep
    have hexecute : isExecute (s, .execute) = true := rfl
    rw [hexecute, if_pos rfl]
    exact ⟨by omega, by rwa [← Nat.sub_sub]⟩

/-- A reservation that has not ended goes on. -/
theorem isSome_execute (hs : ¬s.Finished) : (step s .execute).isSome := by
  rw [step, Option.isSome_map]
  exact isSome_step hs

/-! ## Without interference -/

/-- A read that is followed by its update: the guard holds. -/
theorem reserved_isSome {i : ℕ} {b : LeaveBalance} (hl : db.balances.lookup key = some (i, b))
    (hlack : lacks key days db round = false) :
    (Steps.reserved key days b.version db round).isSome := by
  obtain ⟨j, c, hj, hk, hle⟩ := lacks_eq_false.1 hlack
  obtain ⟨rfl, rfl⟩ := Prod.mk.inj (Option.some.inj
    (hl.symm.trans (KeyedTable.lookup_eq_some.2 ⟨hj, hk⟩)))
  rw [Steps.reserved, Option.isSome_map, Option.isSome_iff_exists]
  exact ⟨_, KeyedTable.updateKeyIf_eq_some.2 ⟨i, b, hj, hk, by simp [LeaveBalance.reservable, hle],
    rfl⟩⟩

/-- Left to itself, a reservation succeeds at its first attempt, or is refused
    there. -/
theorem run_reserveBalanceWithRetry (key : BalanceKey) (db : Database) (hdays : 0 < days) :
    ((Steps.reserveBalanceWithRetry key days round).run noFault db).value = .ok () ∧
        lacks key days db round = false ∨
      (∃ e, ((Steps.reserveBalanceWithRetry key days round).run noFault db).value = .error e ∧
        e.isUnprocessable) ∧ lacks key days db round = true := by
  rw [Steps.reserveBalanceWithRetry, maxAttempts, (run_of_step (step_attempt hdays)).1]
  cases hl : db.balances.lookup key with
  | none => exact .inr ⟨⟨_, rfl, rfl⟩, by rw [lacks, hl]⟩
  | some q =>
    cases hlack : lacks key days db round with
    | true => exact .inr ⟨⟨_, rfl, rfl⟩, rfl⟩
    | false =>
      refine .inl ⟨?_, rfl⟩
      dsimp only
      rw [if_neg Bool.false_ne_true, (run_of_step step_updating).1,
        if_pos (reserved_isSome hl hlack)]
      rfl

/-- What has been executed so far does not change how it ends. -/
theorem value_of_run {ok : Reserving → Action → Prop} (hrun : Run step ok s₀ hist s)
    (halone : ∀ x ∈ hist, x.2 = .execute) :
    (s.script.run noFault s.db).value = (s₀.script.run noFault s₀.db).value := by
  induction hrun with
  | init => rfl
  | @step hist s s' a _ _ hnext ih =>
    obtain rfl : a = .execute := halone (s, a) (List.mem_append_right _ (List.mem_singleton_self _))
    obtain ⟨r, hstep, rfl⟩ := Option.map_eq_some_iff.1 hnext
    rw [← ih fun x hx => halone x (List.mem_append_left _ hx)]
    exact (run_of_step hstep).1.symm

/-! ## How a reservation ends -/

theorem Stage.issued_le {x : Steps Unit} {issued taken : ℕ} {lack : Bool}
    (hstage : Stage key days x round issued taken lack) : issued ≤ maxAttempts := by
  cases hstage <;> omega

/-- How a reservation ends, with what it has issued and what has taken effect. -/
theorem Stage.outcome {x : Steps Unit} {issued taken : ℕ} {lack : Bool}
    (hstage : Stage key days x round issued taken lack) (hfinished : x.head = none) :
    (x = done () ∧ taken = 1 ∧ lack = false) ∨
    (∃ e, x = raise e ∧ e.isUnprocessable ∧ issued < maxAttempts ∧ taken = 0 ∧ lack = true) ∨
    ∃ e, x = raise e ∧ e.isConflict ∧ issued = maxAttempts ∧ taken = 0 ∧ lack = false := by
  cases hstage with
  | @attempting _ n _ hx =>
    obtain rfl := hx
    cases n <;> cases hfinished
  | updating _ hx =>
    obtain rfl := hx
    cases hfinished
  | returned _ hx => exact .inl ⟨hx, rfl, rfl⟩
  | refused hlt he hx => exact .inr (.inl ⟨_, hx, he, hlt, rfl, rfl⟩)
  | exhausted he hx => exact .inr (.inr ⟨_, hx, he, rfl, rfl, rfl⟩)

theorem not_isConflict {e : ServiceError} (he : e.isUnprocessable) : ¬e.isConflict := by
  cases e <;> first | exact Bool.false_ne_true | cases he

/-- What a reservation has thrown is its last statement. -/
theorem thrown_of_eq {kind : ServiceError → Bool} {e : ServiceError} (hs : s.script = raise e) :
    s.Thrown kind ↔ kind e := by
  constructor
  · rintro ⟨e', he', hkind⟩
    obtain rfl := Script.raise.inj (hs.symm.trans he')
    exact hkind
  · exact fun hkind => ⟨e, hs, hkind⟩

theorem not_thrown {kind : ServiceError → Bool} (hs : s.script = done ()) : ¬s.Thrown kind := by
  rintro ⟨e, he, _⟩
  cases hs.symm.trans he

/-- Without interference the outcome is that of the run of the script. -/
theorem outcome_of_alone (hdays : 0 < days) {ok : Reserving → Action → Prop}
    (hrun : Run step ok (start key days db₀ round) hist s) (halone : ∀ x ∈ hist, x.2 = .execute) :
    ¬s.Thrown ServiceError.isConflict ∧
      (s.Finished → (s.Returned ↔ lacks key days db₀ round = false)) := by
  have hvalue : (s.script.run noFault s.db).value =
      ((Steps.reserveBalanceWithRetry key days round).run noFault db₀).value :=
    value_of_run hrun halone
  -- A script that has thrown has this error for its value.
  have hraise : ∀ e, s.script = raise e →
      ((Steps.reserveBalanceWithRetry key days round).run noFault db₀).value = .error e := by
    intro e hs
    rw [← hvalue, hs]
    rfl
  have hreturned : s.Returned →
      ((Steps.reserveBalanceWithRetry key days round).run noFault db₀).value = .ok () := by
    intro hs
    rw [← hvalue, hs]
    rfl
  rcases run_reserveBalanceWithRetry key db₀ hdays with
    ⟨hok, hlack⟩ | ⟨⟨e, herror, he⟩, hlack⟩
  · have hthrown : ∀ e, s.script ≠ raise e := fun e hs => nomatch hok.symm.trans (hraise e hs)
    refine ⟨fun ⟨e, hs, _⟩ => hthrown e hs, fun hfinished => iff_of_true ?_ hlack⟩
    rcases (stage_of_run hdays hrun).outcome hfinished with ⟨hs, _⟩ | ⟨e, hs, _⟩ | ⟨e, hs, _⟩
    · exact hs
    · exact absurd hs (hthrown e)
    · exact absurd hs (hthrown e)
  · refine ⟨fun ⟨e', hs, he'⟩ => ?_, fun _ => iff_of_false (fun hs => ?_) ?_⟩
    · obtain rfl := Except.error.inj (herror.symm.trans (hraise e' hs))
      exact not_isConflict he he'
    · cases herror.symm.trans (hreturned hs)
    · rw [hlack]
      nofun

/-- The outcomes, by what has been executed. -/
theorem outcomes_of_run (hdays : 0 < days) {ok : Reserving → Action → Prop}
    (hrun : Run step ok (start key days db₀ round) hist s) (hfinished : s.Finished) :
    (s.Returned ↔ hist.countP takesEffect = 1) ∧
    (s.Thrown ServiceError.isUnprocessable ↔ ∃ x ∈ hist, readsLack key days x round) ∧
    (s.Thrown ServiceError.isConflict ↔
      hist.countP (executes .reserveBalance) = 3 ∧ hist.countP takesEffect = 0) := by
  rw [← List.any_eq_true]
  rcases (stage_of_run hdays hrun).outcome hfinished with ⟨hs, htaken, hlack⟩ |
    ⟨e, hs, he, hlt, htaken, hlack⟩ | ⟨e, hs, he, hissued, htaken, hlack⟩
  · rw [htaken, hlack]
    exact ⟨iff_of_true hs rfl, iff_of_false (not_thrown hs) Bool.false_ne_true,
      iff_of_false (not_thrown hs) fun h => Nat.one_ne_zero h.2⟩
  · rw [htaken, hlack, thrown_of_eq hs, thrown_of_eq hs]
    exact ⟨iff_of_false (fun h => nomatch hs.symm.trans h) Nat.zero_ne_one, iff_of_true he rfl,
      iff_of_false (not_isConflict he) fun h => hlt.ne h.1⟩
  · rw [htaken, hlack, hissued, thrown_of_eq hs, thrown_of_eq hs]
    exact ⟨iff_of_false (fun h => nomatch hs.symm.trans h) Nat.zero_ne_one,
      iff_of_false (fun h => not_isConflict h he) Bool.false_ne_true, iff_of_true he ⟨rfl, rfl⟩⟩

/-- A reservation that has thrown has executed nothing that changed the
    database. -/
theorem unchanged_of_run (hdays : 0 < days) {ok : Reserving → Action → Prop}
    (hrun : Run step ok (start key days db₀ round) hist s) {e : ServiceError}
    (hs : s.script = raise e) {x : Reserving × Action} (hx : x ∈ hist) (hexecute : x.2 = .execute)
    (hnext : step x.1 x.2 = some s') : s'.db = x.1.db := by
  -- Had a statement taken effect, it would have returned.
  have htaken : hist.countP takesEffect = 0 := by
    rcases (stage_of_run hdays hrun).outcome (by rw [hs]; rfl) with ⟨hs', _⟩ |
      ⟨_, _, _, _, htaken, _⟩ | ⟨_, _, _, _, htaken, _⟩
    · cases hs.symm.trans hs'
    · exact htaken
    · exact htaken
  have hnone := List.countP_eq_zero.1 htaken x hx
  rw [hexecute] at hnext
  obtain ⟨r, hstep, rfl⟩ := Option.map_eq_some_iff.1 hnext
  have heffect : x.1.script.effect x.1.db = none := by
    rw [takesEffect, hexecute] at hnone
    exact Option.not_isSome_iff_eq_none.1 hnone
  change r.1 = x.1.db
  rw [step_eq_some hstep, heffect, Option.getD_none]

/-- What a statement that takes effect has found, and what it leaves. -/
theorem reserves_of_run (hdays : 0 < days) {ok : Reserving → Action → Prop}
    (hrun : Run step ok (start key days db₀ round) hist s) {x : Reserving × Action} (hx : x ∈ hist)
    (htakes : takesEffect x) : ∃ i b s', x.1.db.balances.get i = some b ∧
      b.toBalanceKey = key ∧ days ≤ round (round (b.totalDays - b.usedDays) - b.reservedDays) ∧
      step x.1 x.2 = some s' ∧ s'.db = x.1.db.reserve key days round ∧
      s'.db.balances.get i =
        some { b with
          reservedDays := round (b.reservedDays + days), version := b.version + 1 } := by
  obtain ⟨hist', s', hrun', _, hnext⟩ := hrun.of_mem hx
  obtain ⟨s, a⟩ := x
  cases a with
  | interfere f => cases htakes
  | execute =>
    obtain ⟨r, hstep, rfl⟩ := Option.map_eq_some_iff.1 hnext
    obtain ⟨db', heffect⟩ := Option.isSome_iff_exists.1 htakes
    obtain ⟨i, b, hb, hk, hle, hdb'⟩ :=
      effect_eq_some ⟨_, _, _, stage_of_run hdays hrun'⟩ heffect
    have hdb : r.1 = s.db.reserve key days round := by
      rw [step_eq_some hstep, heffect, Option.getD_some, hdb']
    refine ⟨i, b, _, hb, hk, hle, hnext, hdb, ?_⟩
    change r.1.balances.get i = _
    rw [hdb, Database.reserve, Database.balances_updateBalance, KeyedTable.get_updateKey, hb,
      Option.map_some, if_pos hk]
    rfl

/-- **All or nothing.** Whatever else is done to the database between its
    statements, and however differences and sums are rounded,
    `reserveBalanceWithRetry` comes to an end, and

    * it has updated the row at most three times, and at most once in effect: when
      there was enough of it, as the same arithmetic has it;
    * it returns if it has done so once, throws a 422 if it has read too little,
      and a 409 if three updates had no effect;
    * if it throws, it has changed nothing;
    * if it is left alone, it never throws a 409, and returns if there is enough. -/
theorem reserve_all_or_nothing (hdays : 0 < days)
    (hrun : Run step (fun _ _ => True) (start key days db₀ round) hist s) :
    hist.countP isExecute ≤ 7 ∧ (¬s.Finished → (step s .execute).isSome) ∧
    hist.countP (executes .reserveBalance) ≤ 3 ∧
    (∀ x ∈ hist, takesEffect x → ∃ i b s', x.1.db.balances.get i = some b ∧
      b.toBalanceKey = key ∧ days ≤ round (round (b.totalDays - b.usedDays) - b.reservedDays) ∧
      step x.1 x.2 = some s' ∧ s'.db = x.1.db.reserve key days round ∧
      s'.db.balances.get i =
        some { b with reservedDays := round (b.reservedDays + days), version := b.version + 1 }) ∧
    (s.Finished →
      (s.Returned ↔ hist.countP takesEffect = 1) ∧
      (s.Thrown ServiceError.isUnprocessable ↔ ∃ x ∈ hist, readsLack key days x round) ∧
      (s.Thrown ServiceError.isConflict ↔
        hist.countP (executes .reserveBalance) = 3 ∧ hist.countP takesEffect = 0)) ∧
    (∀ e, s.script = raise e → ∀ x ∈ hist, x.2 = .execute →
      ∀ s', step x.1 x.2 = some s' → s'.db = x.1.db) ∧
    ((∀ x ∈ hist, x.2 = .execute) → ¬s.Thrown ServiceError.isConflict ∧
      (s.Finished → (s.Returned ↔ ∃ i b, db₀.balances.get i = some b ∧ b.toBalanceKey = key ∧
        days ≤ round (round (b.totalDays - b.usedDays) - b.reservedDays)))) := by
  refine ⟨(atMost_of_run hrun).1, isSome_execute, (stage_of_run hdays hrun).issued_le,
    fun x hx => reserves_of_run hdays hrun hx, outcomes_of_run hdays hrun,
    fun e hs x hx hexecute s' => unchanged_of_run hdays hrun hs hx hexecute, fun halone => ?_⟩
  rw [← lacks_eq_false]
  exact outcome_of_alone hdays hrun halone

/-- Half days are not rounded: what is compared with the days is what is left,
    and what is added are the days. -/
theorem exact_of_fits {b : LeaveBalance} (htotal : Fits 1 50 b.totalDays)
    (hused : Fits 1 50 b.usedDays) (hreserved : Fits 1 50 b.reservedDays) (hdays : Fits 1 50 days) :
    binary64 (binary64 (b.totalDays - b.usedDays) - b.reservedDays) =
        b.totalDays - b.usedDays - b.reservedDays ∧
      binary64 (b.reservedDays + days) = b.reservedDays + days := by
  have hleft := htotal.sub hused
  rw [hleft.binary64 (by decide) (by decide), (hleft.sub hreserved.mono).binary64 (by decide)
    (by decide)]
  exact ⟨rfl, (hreserved.add hdays).binary64 (by decide) (by decide)⟩

/-- Three days are reserved by somebody else between the read and the update:
    the second attempt reserves two of those that are left. -/
theorem reserve_all_or_nothing_sample : ∃ hist s, Run step (fun _ _ => True)
    (start sampleKey 2 (sampleDb 10) binary64) hist s ∧ s.Returned ∧
    hist.countP (executes .reserveBalance) ≤ 3 ∧ hist.countP takesEffect = 1 := by
  have hexec : ∃ s ∈ exec step (start sampleKey 2 (sampleDb 10) binary64) [.execute,
      .interfere (·.reserve sampleKey 3 binary64), .execute, .execute, .execute], s.Returned := by
    decide +kernel
  obtain ⟨s, hrun, hs⟩ := exists_run_of_exec (p := fun _ => True) (fun _ _ => trivial) hexec
  have hall := reserve_all_or_nothing two_pos hrun
  exact ⟨_, s, hrun, hs, hall.2.2.1, (hall.2.2.2.2.1 (congrArg Script.head hs)).1.1 hs⟩

/-- Other decimals are: of 1.4 days, of which 0.4 are used, no whole day is left. -/
example : lacks sampleKey 1
    ((sampleDb (binary64 1.4)).updateBalance sampleKey ({ · with usedDays := binary64 0.4 })
      fun _ => rfl) binary64 = true := by
  decide +kernel

end Reserving

end TimeOff
