import TimeOff.Availability
import TimeOff.Locked

/-!
# Submissions under way

A submission that has reserved its days and not inserted its request yet *holds*
them (`Submission.holds`). Here is what the balances would be without that
(`Balances.before`), and what becomes of it: a balance is settled
(`before_settle`), days are reserved (`before_reserve`), the request is inserted
(`before_insert`).

A statement of a submission finds something, and writes something or nothing
(`Advanced`). What it finds decides how the submission ends as one step
(`State.submit`).
-/

namespace TimeOff

open Transaction Script

/-! ## Balances without what is held -/

namespace LeaveBalance

/-- The row before the days have been reserved. -/
def unreserve (days : ℚ) (b : LeaveBalance) : LeaveBalance :=
  { b with reservedDays := b.reservedDays - days, version := b.version - 1 }

variable {b : LeaveBalance} {days days' : ℚ} {target : RequestStatus}

theorem unreserve_reserve : (b.reserve days).unreserve days = b := by
  simp [reserve, unreserve]

theorem reserve_unreserve (hversion : 0 < b.version) : (b.unreserve days).reserve days = b := by
  simp [reserve, unreserve, Nat.sub_add_cancel hversion]

/-- If the days are still reserved when another request is settled, they may as
    well be reserved afterwards. -/
theorem unreserve_settle (hdays : 0 ≤ days)
    (hle : days ≤ (b.settle target days').reservedDays) :
    (b.settle target days').unreserve days = (b.unreserve days).settle target days' := by
  have hmax : days ≤ max 0 (b.reservedDays - days') →
      max 0 (b.reservedDays - days') - days = max 0 (b.reservedDays - days - days') := by
    intro hle
    rcases le_total 0 (b.reservedDays - days') with hpos | hneg
    · rw [max_eq_right hpos] at hle ⊢
      rw [max_eq_right (by linarith)]
      ring
    · -- Nothing is left, so that nothing has been reserved.
      rw [max_eq_left hneg] at hle ⊢
      rw [max_eq_left (by linarith)]
      linarith
  cases target with
  | pending | approvedPendingHcm | failed => rfl
  | rejected | cancelled | approved =>
    simp only [settle, release, confirm, unreserve] at hle ⊢
    rw [hmax hle]

end LeaveBalance

/-- The submission that holds days of the balance. -/
def holder (t : Table Submission) (key : BalanceKey) : Option Submission :=
  (t.rows.map Prod.snd).find? fun x => x.request.toBalanceKey = key && x.holds

/-- The row before the days that are held have been reserved. -/
def LeaveBalance.before (t : Table Submission) (b : LeaveBalance) : LeaveBalance :=
  (holder t b.toBalanceKey).elim b fun x => b.unreserve x.request.daysRequested

theorem LeaveBalance.key_before (t : Table Submission) (b : LeaveBalance) :
    (b.before t).toBalanceKey = b.toBalanceKey := by
  rw [before]
  cases holder t b.toBalanceKey <;> rfl

/-- The balances before the days that are held have been reserved. -/
def Balances.before (t : Table Submission) (balances : Balances) : Balances :=
  balances.mapRows (·.before t) (LeaveBalance.key_before t)

/-- No two submissions hold days of the same balance. -/
def Alone (t : Table Submission) : Prop :=
  ∀ n m x y, t.get n = some x → t.get m = some y → x.holds → y.holds →
    x.request.toBalanceKey = y.request.toBalanceKey → n = m

variable {t t' : Table Submission} {balances balances' : Balances} {key : BalanceKey} {n i : ℕ}
  {x y : Submission} {z : Steps Unit} {b : LeaveBalance}

/-- No submission holds days of the key. -/
theorem holder_eq_none :
    holder t key = none ↔ ∀ n x, t.get n = some x → x.request.toBalanceKey = key → ¬x.holds := by
  rw [holder, List.find?_eq_none]
  simp only [Bool.and_eq_true, decide_eq_true_eq, not_and]
  constructor
  · exact fun h n x hx hk => h x (List.mem_map.2 ⟨(n, x), Table.mem_rows.2 hx, rfl⟩) hk
  · intro h x hx hk
    obtain ⟨⟨n, _⟩, hq, rfl⟩ := List.mem_map.1 hx
    exact h n _ (Table.mem_rows.1 hq) hk

/-- The holder is a submission that holds days of the key. -/
theorem holds_of_holder (h : holder t key = some x) :
    ∃ n, t.get n = some x ∧ x.request.toBalanceKey = key ∧ x.holds := by
  obtain ⟨⟨n, _⟩, hq, rfl⟩ := List.mem_map.1 (List.mem_of_find?_eq_some h)
  have hx := List.find?_some h
  simp only [Bool.and_eq_true, decide_eq_true_eq] at hx
  exact ⟨n, Table.mem_rows.1 hq, hx⟩

/-- If one at most holds days of each employee, then the holder is any that does.
    -/
theorem holder_eq_some (halone : Alone t) : holder t key = some x ↔
    ∃ n, t.get n = some x ∧ x.request.toBalanceKey = key ∧ x.holds := by
  refine ⟨holds_of_holder, fun ⟨n, hx, hk, hholds⟩ => ?_⟩
  cases hholder : holder t key with
  | none => exact absurd hholds (holder_eq_none.1 hholder n x hx hk)
  | some y =>
    obtain ⟨m, hy, hyk, hyholds⟩ := holds_of_holder hholder
    obtain rfl := halone m n y x hy hx hyholds hholds (hyk.trans hk.symm)
    exact hy.symm.trans hx

/-- A submission goes on that does not hold days of the balance. -/
theorem holder_update (halone : Alone t) (halone' : Alone (t.update n ({ · with script := z })))
    (hx : t.get n = some x) (h : x.request.toBalanceKey = key →
      ¬x.holds ∧ ¬({ x with script := z } : Submission).holds) :
    holder (t.update n ({ · with script := z })) key = holder t key := by
  refine Option.ext fun y => ?_
  rw [holder_eq_some halone', holder_eq_some halone]
  constructor
  · rintro ⟨m, hy, hk, hholds⟩
    rcases Table.get_update_eq_some.1 hy with ⟨rfl, x', hx', rfl⟩ | ⟨_, hy⟩
    · obtain rfl := Option.some.inj (hx.symm.trans hx')
      exact absurd hholds (h hk).2
    · exact ⟨m, hy, hk, hholds⟩
  · rintro ⟨m, hy, hk, hholds⟩
    refine ⟨m, Table.get_update_eq_some.2 (.inr ⟨?_, hy⟩), hk, hholds⟩
    rintro rfl
    obtain rfl := Option.some.inj (hx.symm.trans hy)
    exact (h hk).1 hholds

/-- A transaction starts or ends: the same days are held as before. -/
theorem holder_phase {p : TransactionPhase} (halone : Alone t)
    (halone' : Alone (t.update n ({ · with phase := p }))) :
    (holder (t.update n ({ · with phase := p })) key).map (·.request) =
      (holder t key).map (·.request) := by
  refine Option.ext fun r => ?_
  simp only [Option.map_eq_some_iff, holder_eq_some halone', holder_eq_some halone]
  constructor
  · rintro ⟨y, ⟨m, hy, hk, hholds⟩, rfl⟩
    rcases Table.get_update_eq_some.1 hy with ⟨rfl, x, hx, rfl⟩ | ⟨_, hy⟩
    · exact ⟨x, ⟨_, hx, hk, hholds⟩, rfl⟩
    · exact ⟨y, ⟨m, hy, hk, hholds⟩, rfl⟩
  · rintro ⟨x, ⟨m, hx, hk, hholds⟩, rfl⟩
    rcases eq_or_ne m n with rfl | hne
    · exact ⟨{ x with phase := p }, ⟨m, Table.get_update_self hx, hk, hholds⟩, rfl⟩
    · exact ⟨x, ⟨m, Table.get_update_eq_some.2 (.inr ⟨hne, hx⟩), hk, hholds⟩, rfl⟩

/-- A submission comes that does not hold any days yet. -/
theorem holder_insert (halone : Alone t) (halone' : Alone (t.insert x)) (hx : ¬x.holds) :
    holder (t.insert x) key = holder t key := by
  refine Option.ext fun y => ?_
  rw [holder_eq_some halone', holder_eq_some halone]
  constructor
  · rintro ⟨m, hy, hk, hholds⟩
    rcases Table.get_insert_eq_some.1 hy with ⟨_, rfl⟩ | hy
    · exact absurd hholds hx
    · exact ⟨m, hy, hk, hholds⟩
  · rintro ⟨m, hy, hk, hholds⟩
    exact ⟨m, Table.get_insert_of_some hy, hk, hholds⟩

theorem Balances.ext_get (hid : balances'.nextId = balances.nextId)
    (h : ∀ i, balances'.get i = balances.get i) : balances' = balances :=
  KeyedTable.ext_toTable (Table.ext_get hid (funext h))

theorem get_before : (balances.before t).get i = (balances.get i).map (·.before t) := rfl

theorem lookup_before : (balances.before t).lookup key =
    (balances.lookup key).map (Prod.map id (·.before t)) := by
  rw [Balances.before, KeyedTable.lookup_mapRows]

theorem LeaveBalance.before_eq : b.before t =
    ((holder t b.toBalanceKey).map (·.request)).elim b fun r => b.unreserve r.daysRequested := by
  rw [before]
  cases holder t b.toBalanceKey <;> rfl

/-- It only matters for which requests days are held. -/
theorem before_congr
    (h : ∀ key, (holder t' key).map (·.request) = (holder t key).map (·.request)) :
    balances.before t' = balances.before t := by
  refine Balances.ext_get rfl fun i => ?_
  rw [get_before, get_before]
  cases balances.get i with
  | none => rfl
  | some b =>
    rw [Option.map_some, Option.map_some, LeaveBalance.before_eq, LeaveBalance.before_eq, h]

/-- Nobody holds any days. -/
theorem before_eq_self (h : ∀ n x, t.get n = some x → ¬x.holds) : balances.before t = balances := by
  refine Balances.ext_get rfl fun i => ?_
  rw [get_before]
  cases balances.get i with
  | none => rfl
  | some b =>
    rw [Option.map_some, LeaveBalance.before, holder_eq_none.2 fun n x hx _ => h n x hx,
      Option.elim_none]

/-- A balance is settled, and the days that are held are still reserved. -/
theorem before_settle {target : RequestStatus} {days : ℚ}
    (h : ∀ i b x, (balances.settle target key days).get i = some b →
      holder t b.toBalanceKey = some x →
      0 ≤ x.request.daysRequested ∧ x.request.daysRequested ≤ b.reservedDays) :
    (balances.settle target key days).before t = (balances.before t).settle target key days := by
  refine Balances.ext_get (by cases target <;> rfl) fun i => ?_
  have hrow := h i
  rw [get_settle] at hrow
  rw [get_before, get_settle, get_settle, get_before]
  cases hb : balances.get i with
  | none => rfl
  | some b =>
    rw [hb, Option.map_some] at hrow
    rw [Option.map_some, Option.map_some, Option.map_some, Option.map_some,
      LeaveBalance.key_before]
    by_cases hk : b.toBalanceKey = key
    · rw [if_pos hk] at hrow
      rw [if_pos hk, if_pos hk, LeaveBalance.before, LeaveBalance.before, LeaveBalance.key_settle]
      cases hholder : holder t b.toBalanceKey with
      | none => rfl
      | some x =>
        obtain ⟨hdays, hle⟩ := hrow _ x rfl ((LeaveBalance.key_settle _ _ b).symm ▸ hholder)
        exact congrArg some (LeaveBalance.unreserve_settle hdays hle)
    · rw [if_neg hk, if_neg hk]

/-- Days are reserved, and held from now on. -/
theorem before_reserve (hsame : ∀ k, k ≠ key → holder t' k = holder t k)
    (hnone : holder t key = none) (hsome : holder t' key = some x) :
    Balances.before t' (balances.updateKey key (·.reserve x.request.daysRequested)
      (LeaveBalance.key_reserve _)) = balances.before t := by
  refine Balances.ext_get rfl fun i => ?_
  rw [get_before, KeyedTable.get_updateKey, get_before]
  cases balances.get i with
  | none => rfl
  | some b =>
    rw [Option.map_some, Option.map_some, Option.map_some]
    by_cases hk : b.toBalanceKey = key
    · rw [if_pos hk, LeaveBalance.before, LeaveBalance.key_reserve, hk, hsome, LeaveBalance.before,
        hk, hnone, Option.elim_some, Option.elim_none, LeaveBalance.unreserve_reserve]
    · rw [if_neg hk, LeaveBalance.before, LeaveBalance.before, hsame _ hk]

/-- The request is inserted for which days have been held. -/
theorem before_insert (hsame : ∀ k, k ≠ key → holder t' k = holder t k)
    (hsome : holder t key = some x) (hnone : holder t' key = none)
    (hversion : ∀ i b, balances.get i = some b → b.toBalanceKey = key → 0 < b.version) :
    balances.before t' = (balances.before t).updateKey key (·.reserve x.request.daysRequested)
      (LeaveBalance.key_reserve _) := by
  refine Balances.ext_get rfl fun i => ?_
  rw [get_before, KeyedTable.get_updateKey, get_before]
  cases hb : balances.get i with
  | none => rfl
  | some b =>
    rw [Option.map_some, Option.map_some, Option.map_some, LeaveBalance.key_before]
    by_cases hk : b.toBalanceKey = key
    · rw [if_pos hk, LeaveBalance.before, hk, hnone, LeaveBalance.before, hk, hsome,
        Option.elim_some, Option.elim_none, LeaveBalance.reserve_unreserve (hversion i b hb hk)]
    · rw [if_neg hk, LeaveBalance.before, LeaveBalance.before, hsame _ hk]

/-! ## What a statement of a submission does -/

/-- How a submission has ended, unless it has been refused with a conflict. -/
def answer : Steps Unit → Option (Except ServiceError Unit)
  | .done u => some (.ok u)
  | .raise e => if e.isConflict then none else some (.error e)
  | .stmt .. => none

/-- What a statement of a submission of `r` finds, and does. -/
inductive Advanced (r : TimeOffRequest) (db : Database) (x : Steps Unit) :
    Database → Steps Unit → Prop
  | unknown : x.head = some .findEmployee → db.employees.get r.employeeId = none →
      Advanced r db x db (raise (.notFound s!"Employee {r.employeeId} not found"))
  | found {e : Employee} {x' : Steps Unit} : x.head = some .findEmployee →
      db.employees.get r.employeeId = some e → x'.head = some .findBalance → Advanced r db x db x'
  | noRecord : x.head = some .findBalance → db.balances.lookup r.toBalanceKey = none →
      Advanced r db x db (raise (.noBalanceRecord r.toBalanceKey))
  | insufficient {q : ℕ × LeaveBalance} : x.head = some .findBalance →
      db.balances.lookup r.toBalanceKey = some q → q.2.effectiveAvailable < r.daysRequested →
      Advanced r db x db (raise (.insufficientBalance r.daysRequested q.2.effectiveAvailable))
  /-- A balance has been read that there is enough of, or the update has failed. -/
  | goOn (p q : Statement) {x' : Steps Unit} : x.head = some p → x'.head = some q →
      p ≠ .findEmployee → p ≠ .insertRequest → q ≠ .insertRequest → Advanced r db x db x'
  | exhausted {e : ServiceError} : x.head = some .findCurrent → e.isConflict →
      Advanced r db x db (raise e)
  | reserve {x' : Steps Unit} {version : ℕ} : x.head = some .reserveBalance →
      db.Fresh r.toBalanceKey r.daysRequested version → x'.head = some .insertRequest →
      Advanced r db x (db.reserve r.toBalanceKey r.daysRequested) x'
  | insert : x.head = some .insertRequest → Advanced r db x (db.insertRequest r) (done ())

variable {r : TimeOffRequest} {db db' : Database} {x x' : Steps Unit} {disturbed count : ℕ}

theorem reserved_eq_some {days : ℚ} {version : ℕ}
    (h : Steps.reserved key days version db = some db') : db' = db.reserve key days := by
  obtain ⟨balances, hu, rfl⟩ := Option.map_eq_some_iff.1 h
  obtain ⟨_, _, _, _, _, rfl⟩ := KeyedTable.updateKeyIf_eq_some.1 hu
  rfl

/-- How a statement of a submission can go, by where the submission is. -/
theorem Submission.Tried.advanced (hdays : 0 < r.daysRequested)
    (htried : Tried r db x disturbed count) (hstep : x.step db = some (db', x')) :
    Advanced r db x db' x' := by
  -- The same cases as in `Tried.execute`; here it matters what is written and with what
  -- result a submission ends.
  cases htried with
  | checking hx =>
    subst hx
    obtain ⟨rfl, rfl⟩ := Prod.mk.inj (Option.some.inj
      ((step_bind step_findEmployeeOrFail _).symm.trans hstep))
    cases he : db.employees.get r.employeeId with
    | none => exact .unknown rfl he
    | some e => exact .found rfl he rfl
  | @attempting failed n _ hn hle hcount hx =>
    subst hx
    cases n with
    | zero =>
      -- The last read is for the message only.
      cases hstep
      exact .exhausted rfl rfl
    | succ n =>
      obtain ⟨rfl, rfl⟩ := Prod.mk.inj (Option.some.inj
        ((step_bind (Reserving.step_attempt hdays) _).symm.trans hstep))
      cases hl : db.balances.lookup r.toBalanceKey with
      | none => exact .noRecord rfl hl
      | some q =>
        cases hlack : Reserving.lacks r.toBalanceKey r.daysRequested db with
        | true =>
          refine .insufficient rfl hl ((Reserving.effectiveAvailable_lt hdays).2 ?_)
          rw [Reserving.lacks, hl] at hlack
          exact of_decide_eq_true hlack
        | false =>
          exact .goOn .findBalance .reserveBalance rfl rfl (by decide) (by decide) (by decide)
  | @updating failed n _ version hn hle hfresh hcount hx =>
    subst hx
    obtain ⟨rfl, rfl⟩ := Prod.mk.inj (Option.some.inj
      ((step_bind Reserving.step_updating _).symm.trans hstep))
    cases hreserved : Steps.reserved r.toBalanceKey r.daysRequested version db with
    | some db' =>
      obtain rfl := reserved_eq_some hreserved
      exact .reserve rfl (reserved_isSome_iff.1 (by rw [hreserved]; rfl)) rfl
    | none =>
      cases n with
      | zero => exact .goOn .reserveBalance .findCurrent rfl rfl (by decide) (by decide) (by decide)
      | succ n =>
        exact .goOn .reserveBalance .findBalance rfl rfl (by decide) (by decide) (by decide)
  | holding hle hcount hx =>
    subst hx
    obtain ⟨rfl, rfl⟩ := Prod.mk.inj (Option.some.inj hstep)
    exact .insert rfl
  | ended _ _ hhead _ =>
    cases x with
    | stmt _ _ _ => cases hhead
    | _ => cases hstep

theorem Advanced.employees (h : Advanced r db x db' x') : db'.employees = db.employees := by
  cases h <;> rfl

theorem head_of_answer {r : Except ServiceError Unit} (h : answer x = some r) : x.head = none := by
  cases x with
  | stmt _ _ _ => cases h
  | _ => rfl

/-- What a statement writes, and whether the days are held before and after it. -/
theorem Advanced.effect (h : Advanced r db x db' x') :
    (x.head ≠ some .insertRequest ∧ x'.head ≠ some .insertRequest ∧ answer x' ≠ some (.ok ()) ∧
      db' = db) ∨
      (x.head ≠ some .insertRequest ∧ x'.head = some .insertRequest ∧
        db' = db.reserve r.toBalanceKey r.daysRequested) ∨
      (x.head = some .insertRequest ∧ x' = done () ∧ db' = db.insertRequest r) := by
  have hraise : ∀ e, (raise e : Steps Unit).head ≠ some .insertRequest ∧
      answer (raise e) ≠ some (.ok ()) := by
    refine fun e => ⟨fun h => ?_, fun h => ?_⟩
    · cases h
    · rw [answer] at h
      split at h <;> cases h
  have hgoing : ∀ {q : Statement}, x'.head = some q → answer x' ≠ some (.ok ()) := by
    intro q hx' h
    cases hx'.symm.trans (head_of_answer h)
  cases h with
  | unknown hx _ | noRecord hx _ | insufficient hx _ _ | exhausted hx _ =>
    exact .inl ⟨by rw [hx]; decide, (hraise _).1, (hraise _).2, rfl⟩
  | found hx _ hx' => exact .inl ⟨by rw [hx]; decide, by rw [hx']; decide, hgoing hx', rfl⟩
  | goOn p q hx hx' _ hp hq =>
    exact .inl ⟨by rw [hx]; simpa using hp, by rw [hx']; simpa using hq, hgoing hx', rfl⟩
  | reserve hx _ hx' => exact .inr (.inl ⟨by rw [hx]; decide, hx', rfl⟩)
  | insert hx => exact .inr (.inr ⟨hx, rfl, rfl⟩)

/-- Another balance is not affected. -/
theorem Advanced.eased (h : Advanced r db x db' x') (hne : r.toBalanceKey ≠ key) :
    db.balances.Eased key db'.balances := by
  cases h with
  | reserve _ _ _ => exact .of_ne hne (LeaveBalance.key_reserve _) _
  | _ => exact .refl _ _

/-! ## The same as one step -/

namespace Submission

/-- What `submitRequest` has been called with. -/
def dto (x : Submission) : SubmitRequestDto :=
  ⟨x.request.toBalanceKey, x.request.startDate, x.request.endDate⟩

/-- The employee, who calls it. -/
def caller (x : Submission) : RequestUser := ⟨x.request.employeeId, .employee, none⟩

/-- What holds of a submission that is called, with the database as it is. -/
structure Underway (x : Submission) (db : Database) : Prop where
  request : x.request = x.dto.request (calculateDaysRequested x.dto.startDate x.dto.endDate)
  order : x.request.startDate.getTime ≤ x.request.endDate.getTime
  employee : x.script.head ≠ some .findEmployee → x.script.head ≠ none →
    ∃ e, db.employees.get x.request.employeeId = some e
  /-- What it has reserved has been there. -/
  held : x.holds → ∃ version, 0 < version ∧ db.Fresh x.request.toBalanceKey 0 version

end Submission

/-- How `submitRequest` ends as one step. -/
def State.submit (cfg : Config) (s : State) (dto : SubmitRequestDto) (caller : RequestUser) :
    Except ServiceError Unit :=
  (atomically (submitRequest (localMidnight cfg.utcOffset s.now) dto caller) (.start s.db)).1.map
    fun _ => ()

variable {x : Submission} {s : State} {t : Session} {today : Instant} {e : ServiceError}
  {dto : SubmitRequestDto} {caller : RequestUser} {cfg : Config}

theorem submit_of_ok (h : (submitRequest (localMidnight cfg.utcOffset s.now) dto caller).run
    (.start s.db) = .ok r t) : s.submit cfg dto caller = .ok () := by
  rw [State.submit, atomically, h]
  rfl

/-- A submission that is refused changes nothing. -/
theorem step_of_submit (h : s.submit cfg dto caller = .error e) :
    step cfg s (.submitRequest dto caller) = some s := by
  have hdb : transaction (submitRequest (localMidnight cfg.utcOffset s.now) dto caller) s.db =
      s.db := by
    rcases transaction_cases (submitRequest (localMidnight cfg.utcOffset s.now) dto caller) s.db
      with ⟨_, _, hok, _⟩ | ⟨_, _, _, heq⟩
    · cases (submit_of_ok hok).symm.trans h
    · exact heq
  rw [step, State.commit, hdb]

namespace Submission.Underway

theorem daysRequested (hx : x.Underway db) :
    x.request.daysRequested = (calculateDaysRequested x.dto.startDate x.dto.endDate : ℚ) :=
  congrArg TimeOffRequest.daysRequested hx.request

/-- The submission waits. -/
theorem wait (hx : x.Underway db) (hemployees : db'.employees = db.employees)
    (hheld : x.holds → db.balances.Eased x.request.toBalanceKey db'.balances) :
    x.Underway db' where
  request := hx.request
  order := hx.order
  employee hhead hgoing := hemployees ▸ hx.employee hhead hgoing
  held hholds := by
    obtain ⟨version, hversion, hfresh⟩ := hx.held hholds
    exact ⟨version, hversion, hfresh.eased (hheld hholds)⟩

/-- A statement of the submission itself. -/
theorem execute {z : Steps Unit} (hx : x.Underway db)
    (h : Advanced x.request db x.script db' z) : Underway { x with script := z } db' where
  request := hx.request
  order := hx.order
  employee hhead hgoing := by
    have hgoing : z.head ≠ none := hgoing
    -- Only a statement after which the submission goes on has to be looked at.
    cases h with
    | found _ he _ => exact ⟨_, he⟩
    | goOn p q hp hq hne _ _ =>
      exact hx.employee (by rw [hp]; simpa using hne) (by rw [hp]; exact Option.some_ne_none p)
    | reserve hp _ _ => exact hx.employee (by rw [hp]; decide) (by rw [hp]; decide)
    | unknown _ _ | noRecord _ _ | insufficient _ _ _ | exhausted _ _ | insert _ =>
      exact absurd rfl hgoing
  held hholds := by
    have hhead : z.head = some .insertRequest := of_decide_eq_true hholds
    cases h with
    | reserve _ hfresh _ =>
      -- The days have just been reserved: the version is a new one, and they were
      -- available.
      obtain ⟨i, b, hb, hk, hversion, hdays⟩ := hfresh
      refine ⟨b.version + 1, Nat.succ_pos _, i, b.reserve x.request.daysRequested, ?_, hk, rfl, ?_⟩
      · rw [Database.reserve, Database.balances_updateBalance, KeyedTable.get_updateKey, hb,
          Option.map_some, if_pos hk]
      · change 0 ≤ b.totalDays - b.usedDays - (b.reservedDays + x.request.daysRequested)
        linarith
    | found _ _ hq =>
      rw [hq] at hhead
      cases hhead
    | goOn p q _ hq _ _ hne =>
      rw [hq] at hhead
      exact absurd (Option.some.inj hhead) hne
    | unknown _ _ | noRecord _ _ | insufficient _ _ _ | exhausted _ _ | insert _ => cases hhead

end Submission.Underway

/-- A submission whose transaction throws is refused with this error. -/
theorem submit_eq (hrole : caller.role = .employee) (hown : caller.employeeId = dto.employeeId)
    (hfuture : localMidnight cfg.utcOffset s.now ≤ dto.startDate.getTime)
    (horder : dto.startDate.getTime ≤ dto.endDate.getTime)
    (hrun : (submitTransaction dto (calculateDaysRequested dto.startDate dto.endDate) caller).run
      (.start s.db) = .error e t) : s.submit cfg dto caller = .error e := by
  rw [State.submit, submitRequest_eq hrole hown hfuture horder, atomically, hrun]
  rfl

/-- It throws if there is no such employee. -/
theorem run_unknown (hrole : caller.role = .employee) {days : ℤ}
    (he : t.db.employees.get dto.employeeId = none) : (submitTransaction dto days caller).run t =
      .error (.notFound s!"Employee {dto.employeeId} not found") t := by
  have hfind : (findEmployeeOrFail dto.employeeId).run t =
      .error (.notFound s!"Employee {dto.employeeId} not found") t := by
    rw [findEmployeeOrFail, run_get_bind, he]
    rfl
  rw [submitTransaction, EStateM.run_bind, ensureEmployeeScope, hrole]
  dsimp only
  rw [EStateM.run_bind, hfind]

/-- It throws what the reservation throws. -/
theorem run_refused (hrole : caller.role = .employee) (hown : caller.employeeId = dto.employeeId)
    {days : ℤ} {employee : Employee} (he : t.db.employees.get dto.employeeId = some employee)
    (hrun : (reserveBalanceWithRetry dto.toBalanceKey days).run t = .error e t) :
    (submitTransaction dto days caller).run t = .error e t := by
  rw [submitTransaction, EStateM.run_bind, ensureEmployeeScope_run hrole hown he]
  dsimp only
  rw [EStateM.run_bind, hrun]

/-- The reservation throws if there is no row. -/
theorem run_noRecord {days : ℚ} (hl : t.db.balances.lookup key = none) :
    (reserveBalanceWithRetry key days).run t = .error (.noBalanceRecord key) t := by
  have hfind : (findBalance key).run t = .ok none t := by
    rw [findBalance, run_get_bind, hl]
    rfl
  rw [reserveBalanceWithRetry, maxAttempts, reserveAttempts, EStateM.run_bind, hfind]
  rfl

/-- It throws if less is available than is asked for. -/
theorem run_insufficient {days : ℚ} {q : ℕ × LeaveBalance}
    (hl : t.db.balances.lookup key = some q) (hlt : q.2.effectiveAvailable < days) :
    (reserveBalanceWithRetry key days).run t =
      .error (.insufficientBalance days q.2.effectiveAvailable) t := by
  have hfind : (findBalance key).run t = .ok (some q.2) t := by
    rw [findBalance, run_get_bind, hl]
    rfl
  rw [reserveBalanceWithRetry, maxAttempts, reserveAttempts, EStateM.run_bind, hfind]
  dsimp only
  rw [if_pos hlt]
  rfl

end TimeOff
