import Mathlib.Algebra.Order.Field.Rat
import TimeOff.Entities

/-!
# Balances

`BalanceService`: the availability of a balance row, and the four statements
that change its counters. `reserveBalance` guards its update by the version of
the row that was read and by the days available; `releaseReserved` and
`confirmDeduction` update whatever row is there, clamping `reserved_days` at
`0`, and leave its version alone.
-/

namespace TimeOff

open Transaction

/-- `calculateEffectiveAvailable`. What a subtraction gives is rounded, for the
    service to the next double (`Rounding.binary64`); it is exact by default. -/
def calculateEffectiveAvailable (totalDays usedDays reservedDays : ℚ) (round : ℚ → ℚ := id) : ℚ :=
  max 0 (round (round (totalDays - usedDays) - reservedDays))

/-- `detectDiscrepancy` -/
def detectDiscrepancy (hcmTotal usedDays reservedDays : ℚ) : Bool :=
  hcmTotal < usedDays + reservedDays

namespace LeaveBalance

/-- `effectiveAvailable` of a row. -/
def effectiveAvailable (b : LeaveBalance) (round : ℚ → ℚ := id) : ℚ :=
  calculateEffectiveAvailable b.totalDays b.usedDays b.reservedDays round

/-- The `SET` of `reserveBalance`. -/
def reserve (days : ℚ) (b : LeaveBalance) (round : ℚ → ℚ := id) : LeaveBalance :=
  { b with reservedDays := round (b.reservedDays + days), version := b.version + 1 }

/-- The `SET` of `releaseReserved`. -/
def release (days : ℚ) (b : LeaveBalance) : LeaveBalance :=
  { b with reservedDays := max 0 (b.reservedDays - days) }

/-- The `SET` of `confirmDeduction`. -/
def confirm (days : ℚ) (b : LeaveBalance) : LeaveBalance :=
  { b with reservedDays := max 0 (b.reservedDays - days), usedDays := b.usedDays + days }

/-- The guard of `reserveBalance`, without that on the key. SQLite rounds as the
    service does. -/
def reservable (days : ℚ) (currentVersion : ℕ) (b : LeaveBalance) (round : ℚ → ℚ := id) : Bool :=
  round (round (b.totalDays - b.usedDays) - b.reservedDays) ≥ days && b.version = currentVersion

@[simp] theorem key_reserve {round : ℚ → ℚ} (days : ℚ) (b : LeaveBalance) :
    (b.reserve days round).toBalanceKey = b.toBalanceKey := rfl
theorem key_reserve_exact (days : ℚ) (b : LeaveBalance) :
    (b.reserve days).toBalanceKey = b.toBalanceKey := rfl
@[simp] theorem reservedDays_reserve (days : ℚ) (b : LeaveBalance) :
    (b.reserve days).reservedDays = b.reservedDays + days := rfl
@[simp] theorem key_release (days : ℚ) (b : LeaveBalance) :
    (b.release days).toBalanceKey = b.toBalanceKey := rfl
@[simp] theorem key_confirm (days : ℚ) (b : LeaveBalance) :
    (b.confirm days).toBalanceKey = b.toBalanceKey := rfl

end LeaveBalance

namespace Database

/-- `reserveBalance`, when its guard holds of the row. -/
def reserve (db : Database) (key : BalanceKey) (days : ℚ) (round : ℚ → ℚ := id) : Database :=
  db.updateBalance key (·.reserve days round) (LeaveBalance.key_reserve days)

/-- The statement of `releaseReserved`. -/
def release (db : Database) (key : BalanceKey) (days : ℚ) : Database :=
  db.updateBalance key (·.release days) (LeaveBalance.key_release days)

/-- The statement of `confirmDeduction`. -/
def confirm (db : Database) (key : BalanceKey) (days : ℚ) : Database :=
  db.updateBalance key (·.confirm days) (LeaveBalance.key_confirm days)

section
variable (db : Database) (key : BalanceKey) (days : ℚ)

@[simp] theorem requests_reserve : (db.reserve key days).requests = db.requests := rfl
@[simp] theorem requests_release : (db.release key days).requests = db.requests := rfl
@[simp] theorem requests_confirm : (db.confirm key days).requests = db.requests := rfl
@[simp] theorem outbox_reserve : (db.reserve key days).outbox = db.outbox := rfl
@[simp] theorem outbox_release : (db.release key days).outbox = db.outbox := rfl
@[simp] theorem outbox_confirm : (db.confirm key days).outbox = db.outbox := rfl

end

end Database

/-- Whether a `MAX(0, reserved_days - days)` on the key is cut off: it would
    go below `0`. -/
def clamps (db : Database) (key : BalanceKey) (days : ℚ) : Bool :=
  match db.balances.lookup key with
  | some (_, b) => b.reservedDays < days
  | none => false

/-- `manager.findOne(LeaveBalance, { where: key })` -/
def findBalance (key : BalanceKey) : Tx (Option LeaveBalance) := do
  let s ← get
  pure ((s.db.balances.lookup key).map Prod.snd)

/-- `reserveBalance`: whether the guarded update affected a row. -/
def reserveBalance (key : BalanceKey) (days : ℚ) (currentVersion : ℕ) : Tx Bool := do
  let s ← get
  let updated := s.db.balances.updateKeyIf key (·.reservable days currentVersion)
    (·.reserve days) (LeaveBalance.key_reserve_exact days)
  modify fun s => { s with db.balances := updated.getD s.db.balances }
  pure updated.isSome

/-- `MAX_ATTEMPTS` -/
def maxAttempts : ℕ := 3

/-- The loop of `reserveBalanceWithRetry` with `n` attempts left, and what
    follows it. -/
def reserveAttempts (key : BalanceKey) (days : ℚ) : ℕ → Tx Unit
  | 0 => do
    let current ← findBalance key
    throw (.reservationFailed maxAttempts (current.elim 0 (·.effectiveAvailable)))
  | n + 1 => do
    match ← findBalance key with
    | none => throw (.noBalanceRecord key)
    | some balance =>
      if balance.effectiveAvailable < days then
        throw (.insufficientBalance days balance.effectiveAvailable)
      else if ← reserveBalance key days balance.version then
        pure ()
      else
        reserveAttempts key days n

/-- `reserveBalanceWithRetry` -/
def reserveBalanceWithRetry (key : BalanceKey) (days : ℚ) : Tx Unit :=
  reserveAttempts key days maxAttempts

/-- `releaseReserved` -/
def releaseReserved (key : BalanceKey) (days : ℚ) : Tx Unit :=
  modify fun s =>
    { db := s.db.release key days
      clamped := s.clamped || clamps s.db key days }

/-- `confirmDeduction` -/
def confirmDeduction (key : BalanceKey) (days : ℚ) : Tx Unit :=
  modify fun s =>
    { db := s.db.confirm key days
      clamped := s.clamped || clamps s.db key days }

/-! ## What they do when they succeed -/

variable {key : BalanceKey} {days : ℚ} {s s' : Session}

/-- The clamp is reached in vain if the row has fewer days reserved than are
    released. -/
theorem clamps_eq_true {db : Database} :
    clamps db key days ↔
      ∃ i b, db.balances.get i = some b ∧ b.toBalanceKey = key ∧ b.reservedDays < days := by
  rw [clamps]
  constructor
  · intro h
    split at h
    · next i b hl =>
      obtain ⟨hi, hk⟩ := KeyedTable.lookup_eq_some.1 hl
      exact ⟨i, b, hi, hk, of_decide_eq_true h⟩
    · cases h
  · rintro ⟨i, b, hi, hk, hlt⟩
    rw [KeyedTable.lookup_eq_some.2 ⟨hi, hk⟩]
    exact decide_eq_true hlt

theorem findBalance_ok {o : Option LeaveBalance} (h : (findBalance key).run s = .ok o s') :
    o = (s.db.balances.lookup key).map Prod.snd ∧ s' = s := by
  rw [findBalance, run_get_bind, pure_eq_ok] at h
  exact ⟨h.1.symm, h.2.symm⟩

/-- The guarded update takes effect on a row with enough days available, and
    on no other; if it affects no row it changes nothing. -/
theorem reserveBalance_ok {v : ℕ} {r : Bool} (h : (reserveBalance key days v).run s = .ok r s') :
    (r = true ∧ ∃ i b, s.db.balances.get i = some b ∧ b.toBalanceKey = key ∧
      days ≤ b.totalDays - b.usedDays - b.reservedDays ∧
      s'.db = s.db.reserve key days ∧ s'.clamped = s.clamped) ∨
    (r = false ∧ s' = s) := by
  rw [reserveBalance, run_get_bind, run_modify_bind, pure_eq_ok] at h
  obtain ⟨rfl, rfl⟩ := h
  rcases Option.eq_none_or_eq_some (s.db.balances.updateKeyIf key (·.reservable days v)
    (·.reserve days) (LeaveBalance.key_reserve days)) with hu | ⟨balances, hu⟩
  · exact .inr (by rw [hu]; exact ⟨rfl, rfl⟩)
  · obtain ⟨i, b, hi, hk, hp, rfl⟩ := KeyedTable.updateKeyIf_eq_some.1 hu
    have hd : days ≤ b.totalDays - b.usedDays - b.reservedDays := by
      simp only [LeaveBalance.reservable, ge_iff_le, Bool.and_eq_true, decide_eq_true_eq] at hp
      exact hp.1
    exact .inl (by rw [hu]; exact ⟨rfl, i, b, hi, hk, hd, rfl, rfl⟩)

/-- If the attempts come to an end without a throw, days that were available are
    reserved, once. -/
theorem reserveAttempts_ok {n : ℕ} {u : Unit} (h : (reserveAttempts key days n).run s = .ok u s') :
    ∃ i b, s.db.balances.get i = some b ∧ b.toBalanceKey = key ∧
      days ≤ b.totalDays - b.usedDays - b.reservedDays ∧
      s'.db = s.db.reserve key days ∧ s'.clamped = s.clamped := by
  -- On the attempts that are left: the last one has nothing after it and throws, and an
  -- attempt whose update affects no row has changed nothing.
  induction n with
  | zero =>
    rw [reserveAttempts, bind_eq_ok] at h
    obtain ⟨o, s₁, _, h⟩ := h
    exact absurd h throw_ne_ok
  | succ n ih =>
    rw [reserveAttempts, bind_eq_ok] at h
    obtain ⟨o, s₁, hf, h⟩ := h
    obtain ⟨-, rfl⟩ := findBalance_ok hf
    split at h
    · exact absurd h throw_ne_ok
    · split at h
      · exact absurd h throw_ne_ok
      · rw [bind_eq_ok] at h
        obtain ⟨r, s₂, hr, h⟩ := h
        rcases reserveBalance_ok hr with ⟨rfl, htaken⟩ | ⟨rfl, rfl⟩
        · exact (pure_eq_ok.1 h).2 ▸ htaken
        · exact ih h

theorem releaseReserved_ok {u : Unit} (h : (releaseReserved key days).run s = .ok u s') :
    s'.db = s.db.release key days ∧ s'.clamped = (s.clamped || clamps s.db key days) := by
  rw [releaseReserved, modify_eq_ok] at h
  exact ⟨by rw [← h], by rw [← h]⟩

theorem confirmDeduction_ok {u : Unit} (h : (confirmDeduction key days).run s = .ok u s') :
    s'.db = s.db.confirm key days ∧ s'.clamped = (s.clamped || clamps s.db key days) := by
  rw [confirmDeduction, modify_eq_ok] at h
  exact ⟨by rw [← h], by rw [← h]⟩

/-- A reservation that succeeds has found the days available, and has added
    them to `reserved_days` once. -/
theorem reserveBalanceWithRetry_ok {u : Unit}
    (h : (reserveBalanceWithRetry key days).run s = .ok u s') :
    ∃ i b, s.db.balances.get i = some b ∧ b.toBalanceKey = key ∧
      days ≤ b.totalDays - b.usedDays - b.reservedDays ∧
      s'.db = s.db.reserve key days ∧ s'.clamped = s.clamped :=
  reserveAttempts_ok h

end TimeOff
