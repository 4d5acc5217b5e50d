import Mathlib.Tactic.Linarith
import Mathlib.Tactic.Ring
import TimeOff.Lifecycle

/-!
# The days that are reserved

`reserved_days` of a balance is the sum of the days of its open requests
(`Covered`), and of days that are held for requests which are not there yet.
Hence the days of a request that is released or confirmed are there, so that no
`MAX(0, reserved_days - days)` is cut off, and what a confirmation takes out of
`reserved_days` is what it adds to `used_days`: no move but a sync makes a row
`Overdrawn` (`Covered.move`).
-/

namespace TimeOff

open Transaction Transition

/-- The days of the requests for `key` whose status meets `p`. -/
def daysIn (t : Table TimeOffRequest) (p : RequestStatus → Bool) (key : BalanceKey) : ℚ :=
  t.sum fun _ r => if r.toBalanceKey = key ∧ p r.status then r.daysRequested else 0

/-- There is a balance with this key. -/
def Balances.Has (t : Balances) (key : BalanceKey) : Prop :=
  ∃ i b, t.get i = some b ∧ b.toBalanceKey = key

/-- More days are used and reserved than there are. -/
def LeaveBalance.Overdrawn (b : LeaveBalance) : Prop := b.totalDays < b.usedDays + b.reservedDays

/-- `reserved_days` are the days of the open requests, and `held` ones. -/
structure Covered (held : BalanceKey → ℚ) (B : Books) : Prop where
  reserved : ∀ i b, B.balances.get i = some b → b.reservedDays =
    daysIn B.requests RequestStatus.isOpen b.toBalanceKey + held b.toBalanceKey
  free : ∀ key, ¬B.balances.Has key → daysIn B.requests RequestStatus.isOpen key + held key = 0
  days : ∀ id r, B.requests.get id = some r → r.status.isOpen → 0 ≤ r.daysRequested
  held_nonneg : ∀ key, 0 ≤ held key

/-- A row of `t'` that is overdrawn is so in `t`, or a sync has lowered its
    total, which is from `0` if the row is new. -/
def NotOverdrawn (synced : Prop) (t t' : Balances) : Prop :=
  ∀ i b', t'.get i = some b' → b'.Overdrawn → (∃ b, t.get i = some b ∧ b.Overdrawn) ∨
    (synced ∧ b'.totalDays < (t.get i).elim 0 LeaveBalance.totalDays)

namespace Books

/-- Days are reserved for a request that is not there yet. -/
def reserve (B : Books) (key : BalanceKey) (days : ℚ) : Books :=
  { B with
    balances := B.balances.updateKey key (·.reserve days) (LeaveBalance.key_reserve_exact days) }

/-- The request is inserted. -/
def insert (B : Books) (r : TimeOffRequest) : Books :=
  { B with requests := B.requests.insert r }

end Books

variable {held : BalanceKey → ℚ} {B B' : Books} {id i : ℕ} {r : TimeOffRequest}
  {b b' : LeaveBalance} {key : BalanceKey} {days : ℚ} {target : RequestStatus}
  {p : RequestStatus → Bool} {t : Table TimeOffRequest} {synced : Prop}

/-! ## Sums of days -/

theorem daysIn_eq_zero (h : ∀ id r, t.get id = some r → r.toBalanceKey ≠ key) :
    daysIn t p key = 0 :=
  Table.sum_eq_zero fun id r hr => if_neg fun hc => h id r hr hc.1

theorem daysIn_insert : daysIn (t.insert r) p key =
    daysIn t p key + if r.toBalanceKey = key ∧ p r.status then r.daysRequested else 0 :=
  Table.sum_insert

theorem daysIn_move (hr : t.get id = some r) (target : RequestStatus) (x : ExtraFields) :
    daysIn (t.update id (·.move target x)) p key = daysIn t p key
      - (if r.toBalanceKey = key ∧ p r.status then r.daysRequested else 0)
      + (if r.toBalanceKey = key ∧ p target then r.daysRequested else 0) :=
  Table.sum_update hr

/-- The id of the HCM makes no difference to the days. -/
theorem daysIn_stamp (hr : t.get id = some r) (hcmRequestId : String) :
    daysIn (t.update id (·.stamp hcmRequestId)) p key = daysIn t p key := by
  have hsum : daysIn (t.update id (·.stamp hcmRequestId)) p key = daysIn t p key
      - (if r.toBalanceKey = key ∧ p r.status then r.daysRequested else 0)
      + (if r.toBalanceKey = key ∧ p r.status then r.daysRequested else 0) := Table.sum_update hr
  rw [hsum, sub_add_cancel]

/-- Days that are not negative do not add up to less than nothing. -/
theorem daysIn_nonneg (hdays : ∀ id r, t.get id = some r → p r.status → 0 ≤ r.daysRequested) :
    0 ≤ daysIn t p key :=
  Table.sum_nonneg fun id r hr => by
    split
    · next h => exact hdays id r hr h.2
    · exact le_rfl

/-- A request with a status in `p` has no more days than all of them. -/
theorem le_daysIn (hdays : ∀ id r, t.get id = some r → p r.status → 0 ≤ r.daysRequested)
    (hr : t.get id = some r) (hp : p r.status) : r.daysRequested ≤ daysIn t p r.toBalanceKey := by
  have hle : (if r.toBalanceKey = r.toBalanceKey ∧ p r.status then r.daysRequested else 0) ≤
      daysIn t p r.toBalanceKey := by
    refine Table.le_sum (M := ℚ) (fun j q hq => ?_) hr
    split
    · next h => exact hdays j q hq h.2
    · exact le_rfl
  rwa [if_pos ⟨rfl, hp⟩] at hle

/-! ## The balance of a request that moves -/

/-- What `settle` does to the row of the key. -/
def LeaveBalance.settle (target : RequestStatus) (days : ℚ) (b : LeaveBalance) : LeaveBalance :=
  match target with
  | .pending | .approvedPendingHcm | .failed => b
  | .rejected | .cancelled => b.release days
  | .approved => b.confirm days

/-- Settling changes the row of the key only. -/
theorem get_settle (t : Balances) : (t.settle target key days).get i =
    (t.get i).map fun b => if b.toBalanceKey = key then b.settle target days else b := by
  cases target with
  | pending | approvedPendingHcm | failed =>
    simp only [Balances.settle, LeaveBalance.settle, ite_self, Option.map_id']
  | rejected | cancelled | approved =>
    simp only [Balances.settle, LeaveBalance.settle, KeyedTable.get_updateKey]

@[simp] theorem LeaveBalance.key_settle (target : RequestStatus) (days : ℚ) (b : LeaveBalance) :
    (b.settle target days).toBalanceKey = b.toBalanceKey := by
  cases target <;> rfl

/-- Days that are there are taken out of `reserved_days` in full, unless the
    request stays open. -/
theorem LeaveBalance.reservedDays_settle (hd : days ≤ b.reservedDays) :
    (b.settle target days).reservedDays =
      b.reservedDays - days + if target.isOpen then days else 0 := by
  cases target <;>
    simp [settle, RequestStatus.isOpen, release, confirm, sub_nonneg.2 hd]

theorem LeaveBalance.usedDays_settle : (b.settle target days).usedDays =
    b.usedDays + if target = .approved then days else 0 := by
  cases target <;> simp [settle, release, confirm]

/-- If every row is still there under its key, no key has lost its row. -/
theorem Balances.Has.map {t : Balances} {t' : Balances} (h : t.Has key)
    (hmap : ∀ i b, t.get i = some b → ∃ b', t'.get i = some b' ∧ b'.toBalanceKey = b.toBalanceKey) :
    t'.Has key := by
  obtain ⟨i, b, hb, hk⟩ := h
  obtain ⟨b', hb', hk'⟩ := hmap i b hb
  exact ⟨i, b', hb', hk'.trans hk⟩

/-- No move removes a balance. -/
theorem Move.has (hmove : Move synced B B') (h : B.balances.Has key) : B'.balances.Has key := by
  refine h.map fun i b hb => ?_
  cases hmove with
  | stay hB => exact ⟨b, by rw [hB, hb], rfl⟩
  | submit _ _ _ _ hB =>
    rw [hB, Books.submit, KeyedTable.get_updateKey, hb, Option.map_some]
    exact ⟨_, rfl, by split <;> rfl⟩
  | transition target _ _ hB =>
    rw [hB, Books.transition, get_settle, hb, Option.map_some]
    exact ⟨_, rfl, by split <;> simp⟩
  | stamp _ _ hB => exact ⟨b, by rw [hB, Books.stamp, hb], rfl⟩
  | sync _ _ hsync =>
    obtain ⟨b', hb', hsame⟩ := hsync.kept i b hb
    exact ⟨b', hb', hsame.key⟩

/-! ## Overdrawn rows -/

section
variable {t t' : Balances}

theorem NotOverdrawn.of_rows (h : ∀ i b', t'.get i = some b' →
    ∃ b, t.get i = some b ∧ (b'.Overdrawn → b.Overdrawn)) : NotOverdrawn synced t t' := by
  intro i b' hb' hover
  obtain ⟨b, hb, himp⟩ := h i b' hb'
  exact .inl ⟨b, hb, himp hover⟩

theorem NotOverdrawn.refl (t : Balances) : NotOverdrawn synced t t :=
  .of_rows fun _ b hb => ⟨b, hb, id⟩

/-- The guard of `reserveBalance` is that the row will not be overdrawn. -/
theorem notOverdrawn_reserve (hb : t.get i = some b) (hk : b.toBalanceKey = key)
    (havail : days ≤ b.totalDays - b.usedDays - b.reservedDays) : NotOverdrawn synced t
      (t.updateKey key (·.reserve days) (LeaveBalance.key_reserve days)) := by
  refine .of_rows fun j c' hc' => ?_
  rw [KeyedTable.get_updateKey, Option.map_eq_some_iff] at hc'
  obtain ⟨c, hc, rfl⟩ := hc'
  refine ⟨c, hc, fun hover => ?_⟩
  split at hover
  · next hck =>
    obtain rfl := t.unique hc hb (hck.trans hk.symm)
    obtain rfl : c = b := Option.some.inj (hc.symm.trans hb)
    rw [LeaveBalance.Overdrawn, LeaveBalance.reservedDays_reserve] at hover
    have hover : c.totalDays < c.usedDays + (c.reservedDays + days) := hover
    linarith
  · exact hover

/-- Days that are there, and not negative, are moved or dropped. -/
theorem overdrawn_of_settle (hdays : 0 ≤ days)
    (hd : days ≤ b.reservedDays) (hover : (b.settle target days).Overdrawn) : b.Overdrawn := by
  have htotal : (b.settle target days).totalDays = b.totalDays := by cases target <;> rfl
  rw [LeaveBalance.Overdrawn, htotal, LeaveBalance.usedDays_settle,
    LeaveBalance.reservedDays_settle hd] at hover
  rw [LeaveBalance.Overdrawn]
  cases target <;> simp [RequestStatus.isOpen] at hover <;> linarith

/-- A sync may overdraw a row only by what it writes to `total_days`. -/
theorem notOverdrawn_sync (h : t.Synced t') : NotOverdrawn True t t' := by
  intro i b' hb' hover
  cases hb : t.get i with
  | some b =>
    obtain ⟨c, hc, hsame⟩ := h.kept i b hb
    obtain rfl := Option.some.inj (hb'.symm.trans hc)
    by_cases hbefore : b.Overdrawn
    · exact .inl ⟨b, rfl, hbefore⟩
    · rw [LeaveBalance.Overdrawn, hsame.usedDays, hsame.reservedDays] at hover
      exact .inr ⟨trivial, hover.trans_le (not_lt.1 hbefore)⟩
  | none =>
    obtain ⟨hused, hreserved, _⟩ := h.new i b' hb' hb
    rw [LeaveBalance.Overdrawn, hused, hreserved, add_zero] at hover
    exact .inr ⟨trivial, hover⟩

end

/-! ## Books with days that are held -/

namespace Covered

/-- The days of an open request are in `reserved_days`. -/
theorem le_reservedDays (h : Covered held B) (hr : B.requests.get id = some r)
    (hopen : r.status.isOpen) (hb : B.balances.get i = some b)
    (hk : b.toBalanceKey = r.toBalanceKey) : r.daysRequested ≤ b.reservedDays := by
  rw [h.reserved i b hb, hk]
  have hle := le_daysIn h.days hr hopen
  linarith [h.held_nonneg r.toBalanceKey]

/-- Days that are reserved and not requested yet are held. -/
theorem reserve (h : Covered held B) (hhas : B.balances.Has key) (hdays : 0 ≤ days) :
    Covered (fun k => held k + if key = k then days else 0) (B.reserve key days) where
  reserved j c hc := by
    rw [Books.reserve, KeyedTable.get_updateKey, Option.map_eq_some_iff] at hc
    obtain ⟨c, hc, rfl⟩ := hc
    have hres := h.reserved j c hc
    by_cases hck : c.toBalanceKey = key
    · rw [if_pos hck, LeaveBalance.key_reserve, if_pos hck.symm, ← add_assoc]
      exact congrArg (· + days) hres
    · rw [if_neg hck, if_neg (Ne.symm hck), add_zero]
      exact hres
  free k hk := by
    have hhas' : ∀ {k}, B.balances.Has k → (B.reserve key days).balances.Has k := fun hhas =>
      hhas.map fun i b hb =>
        ⟨_, by rw [Books.reserve, KeyedTable.get_updateKey, hb, Option.map_some], by split <;> rfl⟩
    have hne : key ≠ k := fun hkey => hk (hhas' (hkey ▸ hhas))
    rw [if_neg hne, add_zero]
    exact h.free k fun hhas => hk (hhas' hhas)
  days := h.days
  held_nonneg k := add_nonneg (h.held_nonneg k) (by split <;> [exact hdays; exact le_rfl])

/-- The request takes over the days that are held for it. -/
theorem insert (h : Covered (fun k => held k + if r.toBalanceKey = k then r.daysRequested else 0) B)
    (hopen : r.status.isOpen) (hdays : 0 ≤ r.daysRequested) (hheld : ∀ k, 0 ≤ held k) :
    Covered held (B.insert r) := by
  have hsum : ∀ k, daysIn (B.requests.insert r) RequestStatus.isOpen k + held k =
      daysIn B.requests RequestStatus.isOpen k +
        (held k + if r.toBalanceKey = k then r.daysRequested else 0) := by
    intro k
    rw [daysIn_insert]
    simp only [hopen, and_true]
    ring
  refine ⟨fun j c hc => ?_, fun k hk => ?_, Table.forall_insert (fun _ => hdays) h.days, hheld⟩
  · rw [Books.insert, hsum]
    exact h.reserved j c hc
  · rw [Books.insert, hsum]
    exact h.free k hk

/-- The days of the request are released or used, and it is not open any more. -/
theorem transition (h : Covered held B) (hr : B.requests.get id = some r)
    (hcan : canTransition r.status target) {x : ExtraFields} :
    Covered held (B.transition id r target x) where
  -- The clamp of `releaseReserved` is not reached, since the row has at least the days of
  -- this open request reserved (`le_reservedDays`).
  reserved j c hc := by
    rw [Books.transition, get_settle, Option.map_eq_some_iff] at hc
    obtain ⟨c, hc, rfl⟩ := hc
    have hres := h.reserved j c hc
    have hopen := isOpen_of_canTransition hcan
    rw [Books.transition, daysIn_move hr]
    by_cases hck : c.toBalanceKey = r.toBalanceKey
    · rw [if_pos hck, LeaveBalance.key_settle,
        LeaveBalance.reservedDays_settle (h.le_reservedDays hr hopen hc hck), hres]
      simp only [hck, hopen, true_and, if_true]
      ring
    · rw [if_neg hck, hres]
      simp [Ne.symm hck]
  free key hkey := by
    have hfree := h.free key fun hhas => hkey <| hhas.map fun i b hb =>
      ⟨_, by rw [Books.transition, get_settle, hb, Option.map_some], by split <;> simp⟩
    rw [Books.transition, daysIn_move hr]
    by_cases hk : r.toBalanceKey = key
    · -- An open request without a balance has no days.
      have hopen := isOpen_of_canTransition hcan
      have hle := le_daysIn h.days hr hopen
      have hzero : r.daysRequested = 0 := by
        have hnonneg := h.days id r hr hopen
        have hheld := h.held_nonneg key
        rw [hk] at hle
        linarith
      simp only [hzero, ite_self, sub_zero, add_zero]
      exact hfree
    · simp only [hk, false_and, if_false, sub_zero, add_zero]
      exact hfree
  days := by
    refine Table.forall_update (fun q hq _ => ?_) h.days
    obtain rfl : q = r := Option.some.inj (hq.symm.trans hr)
    exact h.days _ q hr (isOpen_of_canTransition hcan)
  held_nonneg := h.held_nonneg

/-- A sync leaves `reserved_days` as they are, and creates rows without any. -/
theorem sync (h : Covered held B) (hreq : B'.requests = B.requests)
    (hsync : B.balances.Synced B'.balances) : Covered held B' where
  reserved j c hc := by
    rw [hreq]
    cases hb : B.balances.get j with
    | some b =>
      obtain ⟨c', hc', hsame⟩ := hsync.kept j b hb
      obtain rfl := Option.some.inj (hc.symm.trans hc')
      rw [hsame.reservedDays, hsame.key, h.reserved j b hb]
    | none =>
      obtain ⟨_, hreserved, hfree⟩ := hsync.new j c hc hb
      rw [hreserved]
      exact (h.free _ fun ⟨l, b, hl, hk⟩ => KeyedTable.lookup_eq_none.1 hfree l b hl hk).symm
  free key hkey := by
    rw [hreq]
    exact h.free key fun hhas => hkey ((Move.sync trivial hreq hsync).has hhas)
  days j q hq := h.days j q (hreq ▸ hq)
  held_nonneg := h.held_nonneg

/-- Every move keeps the days covered, and but for a sync no row gets
    overdrawn. -/
theorem move (h : Covered held B) (hmove : Move synced B B') :
    Covered held B' ∧ NotOverdrawn synced B.balances B'.balances := by
  cases hmove with
  | stay hB =>
    subst hB
    exact ⟨h, .refl _⟩
  | @submit dto days _ _ hdays hb hk havail hB =>
    -- A submission in one go holds its days for no time.
    subst hB
    have hnonneg : (0 : ℚ) ≤ days := by exact_mod_cast hdays.le
    exact ⟨(h.reserve ⟨_, _, hb, hk⟩ hnonneg).insert (r := dto.request days) rfl hnonneg
      h.held_nonneg, notOverdrawn_reserve hb hk havail⟩
  | @transition _ r _ x hr hcan hB =>
    subst hB
    refine ⟨h.transition hr hcan, .of_rows fun j c' hc' => ?_⟩
    rw [Books.transition, get_settle, Option.map_eq_some_iff] at hc'
    obtain ⟨c, hc, rfl⟩ := hc'
    refine ⟨c, hc, fun hover => ?_⟩
    split at hover
    · next hck =>
      have hopen := isOpen_of_canTransition hcan
      exact overdrawn_of_settle (h.days _ r hr hopen) (h.le_reservedDays hr hopen hc hck) hover
    · exact hover
  | @stamp id r hcmRequestId hr _ hB =>
    subst hB
    refine ⟨⟨fun j c hc => ?_, fun key hkey => ?_, Table.forall_update (h.days id) h.days,
      h.held_nonneg⟩, .refl _⟩
    · rw [Books.stamp, daysIn_stamp hr]
      exact h.reserved j c hc
    · rw [Books.stamp, daysIn_stamp hr]
      exact h.free key hkey
  | sync hsynced hreq hsync =>
    refine ⟨h.sync hreq hsync, ?_⟩
    rw [eq_true hsynced]
    exact notOverdrawn_sync hsync

end Covered

end TimeOff
