import TimeOff.Covered
import TimeOff.Lib.Connection
import TimeOff.Reservation

/-!
# No overdraft

Any number of calls of `submitRequest` are in their transactions, statement by
statement, while the rest of the system goes on (`Concurrent`). A submission
holds its days from the update of `reserveBalance` to the insertion of its
request, and `reserved_days` is the sum of the days that are held and those of
the open requests (`Covered`).

A reservation looks at the row itself when it updates it, however old what it
has read is, and what is released or confirmed is there. So nothing but a sync
makes a row `Overdrawn` (`no_overdraft`), as long as what has been reserved
stays reserved.

It need not. There is one connection for all, so that the `rollbackTransaction`
of a submission that throws goes back to wherever the last transaction has
started from that is open, which may be that of another submission
(`TimeOff.SharedConnection`). If this has reserved its days in between, they
are not reserved any more when its request is inserted (`overdrawn_of_rollback`).
A submission that throws has not written anything itself. So nothing is lost if
nothing at all has been written since (`UndoesNothing`).

Only submissions are taken apart: the other transactions are one step each, as
in `TimeOff.System`, and so is what a sync does to a row.
-/

namespace TimeOff

open Transition Script

/-- `reserved_days` of the row of the key, or none if there is no such row. -/
def reservedDaysIn (t : Balances) (key : BalanceKey) : ℚ :=
  (t.lookup key).elim 0 fun b => b.2.reservedDays

variable {r : TimeOffRequest} {key : BalanceKey} {synced : Prop}

/-! ## Submissions -/

/-- How far a submission is with its transaction. -/
inductive TransactionPhase
  /-- Its `startTransaction` is to come. -/
  | called
  /-- Its transaction is open. -/
  | started
  | ended (r : Except ServiceError Unit)

namespace TransactionPhase

/-- The transaction is open. -/
def isStarted : TransactionPhase → Bool
  | .started => true
  | _ => false

/-- It has been committed or rolled back. -/
def isEnded : TransactionPhase → Bool
  | .ended _ => true
  | _ => false

end TransactionPhase

/-- A call of `submitRequest` that has passed its checks: the row that it is to
    insert, and what is left to do in its transaction. -/
structure Submission where
  request : TimeOffRequest
  script : Steps Unit
  phase : TransactionPhase

namespace Submission

/-- `startTransaction` -/
def startTransaction (c : Connection Database) (x : Submission) :
    Option (Connection Database × Submission) :=
  match x.phase with
  | .called => some (c.startTransaction, { x with phase := .started })
  | _ => none

/-- The next statement. -/
def execute (c : Connection Database) (x : Submission) :
    Option (Connection Database × Submission) :=
  match x.phase with
  | .started =>
    (x.script.step c.data).map fun p => ({ c with data := p.1 }, { x with script := p.2 })
  | _ => none

/-- `commitTransaction`, or `rollbackTransaction` once something has been thrown:
    both throw if no transaction is open. -/
def endTransaction (c : Connection Database) (x : Submission) :
    Option (Connection Database × Submission) :=
  match x.phase, x.script with
  | .started, .done u =>
    match c.commitTransaction with
    | some c' => some (c', { x with phase := .ended (.ok u) })
    | none => some (c, { x with script := .raise .transactionNotStarted })
  | .started, .raise e =>
    match c.rollbackTransaction with
    | some c' => some (c', { x with phase := .ended (.error e) })
    | none => some (c, { x with phase := .ended (.error .transactionNotStarted) })
  | _, _ => none

/-- The days are reserved, and the request is not inserted yet. -/
def holds (x : Submission) : Bool := x.script.head = some .insertRequest

/-- Where a submission of `r` can be, and whether it holds the days. -/
inductive Stage (r : TimeOffRequest) (x : Steps Unit) : ℕ → Prop
  | checking {y : Steps Unit} :
      y.All (fun label exec => label ≠ .insertRequest ∧ ∀ db, exec db = .ok none) →
      x = (do
        y
        Steps.reserveBalanceWithRetry r.toBalanceKey r.daysRequested
        Steps.insertRequest r) → Stage r x 0
  | reserving {y : Steps Unit} {issued taken : ℕ} {lack : Bool} :
      Reserving.Stage r.toBalanceKey r.daysRequested y id issued taken lack →
      x = (do
        y
        Steps.insertRequest r) → Stage r x taken
  | inserted : x = done () → Stage r x 0

/-- What a statement of a submission of `r` does, which holds the days or not
    before and after it. -/
inductive Executed (r : TimeOffRequest) (db db' : Database) : ℕ → ℕ → Prop
  | nothing {k : ℕ} : db' = db → Executed r db db' k k
  | reserve {i : ℕ} {b : LeaveBalance} : db.balances.get i = some b →
      b.toBalanceKey = r.toBalanceKey →
      r.daysRequested ≤ b.totalDays - b.usedDays - b.reservedDays →
      db' = db.reserve r.toBalanceKey r.daysRequested → Executed r db db' 0 1
  | insert : db' = db.insertRequest r → Executed r db db' 1 0

variable {x x' : Steps Unit} {k : ℕ} {db db' : Database}

/-- The days are held exactly while the insert of the request is next. -/
theorem Stage.head (hstage : Stage r x k) :
    k = if x.head = some .insertRequest then 1 else 0 := by
  cases hstage with
  | @checking y hy hx =>
    subst hx
    cases y with
    | done _ => rfl
    | raise _ => rfl
    | stmt label exec next => exact (if_neg fun h => hy.1.1 (Option.some.inj h)).symm
  | @reserving y issued _ lack hy hx =>
    subst hx
    cases hy with
    | @attempting _ n _ hy =>
      subst hy
      cases n <;> rfl
    | updating _ hy | returned _ hy | refused _ _ hy | exhausted _ hy =>
      subst hy
      rfl
  | inserted hx =>
    subst hx
    rfl

/-- The reservation of a submission has taken effect only if it is done. -/
theorem taken_eq_zero {y : Steps Unit} {days : ℚ} {issued taken : ℕ} {lack : Bool}
    (hy : Reserving.Stage key days y id issued taken lack) (hne : y ≠ done ()) : taken = 0 := by
  cases hy with
  | returned _ hy => exact absurd hy hne
  | _ => rfl

/-- A statement of the reservation, or the insert once that has returned. -/
theorem Stage.step_reserving {y : Steps Unit} {issued taken : ℕ} {lack : Bool}
    (hdays : 0 < r.daysRequested)
    (hy : Reserving.Stage r.toBalanceKey r.daysRequested y id issued taken lack)
    (hnext : (do
      y
      Steps.insertRequest r : Steps Unit).step db = some (db', x')) :
    ∃ k', Stage r x' k' ∧ Executed r db db' taken k' := by
  rcases step_bind_eq_some hnext with ⟨_, rfl, hinsert⟩ | ⟨y', hstep, rfl⟩
  · -- The days are reserved: the row is inserted.
    obtain ⟨rfl, rfl⟩ := Prod.mk.inj (Option.some.inj hinsert)
    cases hy with
    | @attempting _ n _ hy => cases n <;> cases hy
    | updating _ hy | refused _ _ hy | exhausted _ hy => cases hy
    | returned _ _ => exact ⟨0, .inserted rfl, .insert rfl⟩
  · have hexecute : Reserving.step ⟨db, y⟩ .execute = some ⟨db', y'⟩ := by
      rw [Reserving.step, hstep, Option.map_some]
    have hy' := hy.execute hdays hexecute
    -- It has not taken effect yet, or it would have returned.
    have htaken : taken = 0 := taken_eq_zero hy (by rintro rfl; cases hstep)
    refine ⟨_, .reserving hy' rfl, ?_⟩
    obtain rfl := htaken
    cases heffect : y.effect db with
    | none =>
      have hnone : Reserving.takesEffect (⟨db, y⟩, .execute) = false := by
        rw [Reserving.takesEffect, heffect, Option.isSome_none]
      rw [hnone, if_neg Bool.false_ne_true]
      exact .nothing (by rw [step_eq_some hstep, heffect, Option.getD_none])
    | some db₁ =>
      have hsome : Reserving.takesEffect (⟨db, y⟩, .execute) = true := by
        rw [Reserving.takesEffect, heffect, Option.isSome_some]
      rw [hsome, if_pos rfl]
      -- The days are available in the row as it is now, not as it has been read.
      obtain ⟨i, b, hb, hk, havail, hdb₁⟩ :=
        Reserving.effect_eq_some (s := ⟨db, y⟩) ⟨_, _, _, hy⟩ heffect
      refine .reserve hb hk havail ?_
      rw [step_eq_some hstep, heffect, Option.getD_some, hdb₁]

/-- A statement moves the submission on, and what it writes is known. -/
theorem Stage.step (hdays : 0 < r.daysRequested) (hstage : Stage r x k)
    (hnext : x.step db = some (db', x')) :
    ∃ k', Stage r x' k' ∧ Executed r db db' k k' := by
  cases hstage with
  | @checking y hy hx =>
    subst hx
    rcases step_bind_eq_some hnext with ⟨_, rfl, hreserve⟩ | ⟨y', hstep, rfl⟩
    · -- The checks are passed: the reservation starts.
      exact Stage.step_reserving hdays (.attempting (Nat.zero_add _) rfl) hreserve
    · refine ⟨0, .checking (hy.step hstep) rfl, .nothing ?_⟩
      cases y with
      | done _ | raise _ => cases hstep
      | stmt label exec next =>
        rw [step_eq_some hstep, effect, hy.1.2 db, Option.getD_none]
  | reserving hy hx =>
    subst hx
    exact Stage.step_reserving hdays hy hnext
  | inserted hx =>
    subst hx
    cases hnext

end Submission

/-! ## The system with submissions -/

/-- The system, whose database is what the connection sees, and the
    submissions. -/
structure Concurrent where
  system : State
  /-- What the open transactions have started from, the innermost first. -/
  snapshots : List Database
  submissions : Table Submission

namespace Concurrent

/-- What may happen next. -/
inductive Action
  | system (a : TimeOff.Action)
  /-- `submitRequest` is called, up to its `startTransaction`. -/
  | submitRequest (dto : SubmitRequestDto) (caller : RequestUser)
  | startTransaction (n : ℕ)
  /-- The submission `n` executes its next statement. -/
  | execute (n : ℕ)
  /-- The submission `n` commits, or rolls back. -/
  | endTransaction (n : ℕ)

/-- A sync takes over totals of the HCM. -/
def Action.isSync : Action → Bool
  | .system a => a.isSync
  | _ => false

/-- The one connection. -/
def connection (c : Concurrent) : Connection Database := ⟨c.system.db, c.snapshots⟩

/-- The submission `n` goes on with the connection. -/
def proceed (c : Concurrent) (n : ℕ)
    (f : Connection Database → Submission → Option (Connection Database × Submission)) :
    Option Concurrent :=
  (c.submissions.get n).bind fun x => (f c.connection x).map fun p =>
    { system := { c.system with db := p.1.data }
      snapshots := p.1.snapshots
      submissions := c.submissions.update n fun _ => p.2 }

/-- One step. The process does not die here. -/
def step (cfg : Config) (c : Concurrent) : Action → Option Concurrent
  | .system .crash => none
  | .system a => (TimeOff.step cfg c.system a).map ({ c with system := · })
  | .submitRequest dto caller =>
    match Steps.submitRequest (localMidnight cfg.utcOffset c.system.now) dto caller with
    | .done body => some { c with
        submissions := c.submissions.insert
          ⟨dto.request (calculateDaysRequested dto.startDate dto.endDate), body.transaction,
            .called⟩ }
    | _ => some c
  | .startTransaction n => c.proceed n Submission.startTransaction
  | .execute n => c.proceed n Submission.execute
  | .endTransaction n => c.proceed n Submission.endTransaction

/-- The step is a `rollbackTransaction`. -/
def rollsBack (c : Concurrent) : Action → Bool
  | .endTransaction n => (c.submissions.get n).any fun x =>
    match x.script with
    | .raise _ => true
    | _ => false
  | _ => false

/-- The step is no rollback, or one that undoes nothing: what it goes back to is
    what is there. -/
def UndoesNothing (c : Concurrent) (a : Action) : Prop :=
  c.rollsBack a → ∀ snapshot ∈ c.snapshots.head?, c.system.db = snapshot

/-- What a step does. -/
inductive Stepped (cfg : Config) (c : Concurrent) : Action → Concurrent → Prop
  | system {a : TimeOff.Action} {s : State} : TimeOff.step cfg c.system a = some s →
      Stepped cfg c (.system a) { c with system := s }
  /-- A submission is refused before its transaction. -/
  | refuse {dto : SubmitRequestDto} {caller : RequestUser} :
      Stepped cfg c (.submitRequest dto caller) c
  | submit {dto : SubmitRequestDto} {caller : RequestUser} {body : Steps.Body} :
      Steps.submitRequest (localMidnight cfg.utcOffset c.system.now) dto caller = .done body →
      Stepped cfg c (.submitRequest dto caller) { c with
        submissions := c.submissions.insert
          ⟨dto.request (calculateDaysRequested dto.startDate dto.endDate), body.transaction,
            .called⟩ }
  | start {n : ℕ} {x : Submission} : c.submissions.get n = some x → x.phase = .called →
      Stepped cfg c (.startTransaction n) { c with
        snapshots := c.system.db :: c.snapshots
        submissions := c.submissions.update n ({ · with phase := .started }) }
  | execute {n : ℕ} {x : Submission} {db : Database} {y : Steps Unit} :
      c.submissions.get n = some x → x.phase = .started →
      x.script.step c.system.db = some (db, y) →
      Stepped cfg c (.execute n) { c with
        system := { c.system with db := db }
        submissions := c.submissions.update n ({ · with script := y }) }
  | commit {n : ℕ} {x : Submission} {u : Unit} {snapshot : Database} {rest : List Database} :
      c.submissions.get n = some x → x.phase = .started → x.script = done u →
      c.snapshots = snapshot :: rest →
      Stepped cfg c (.endTransaction n) { c with
        snapshots := rest
        submissions := c.submissions.update n ({ · with phase := .ended (.ok u) }) }
  | rollback {n : ℕ} {x : Submission} {e : ServiceError} {snapshot : Database}
      {rest : List Database} :
      c.submissions.get n = some x → x.phase = .started → x.script = raise e →
      c.snapshots = snapshot :: rest →
      Stepped cfg c (.endTransaction n) {
        system := { c.system with db := snapshot }
        snapshots := rest
        submissions := c.submissions.update n ({ · with phase := .ended (.error e) }) }
  /-- There is no transaction to commit or to roll back. -/
  | lost {n : ℕ} {x : Submission} {c' : Concurrent} : c.submissions.get n = some x →
      x.phase = .started → c.snapshots = [] → Stepped cfg c (.endTransaction n) c'

/-- The days for `key` that submissions hold. -/
def heldIn (t : Table Submission) (key : BalanceKey) : ℚ :=
  t.sum fun _ x => if x.request.toBalanceKey = key ∧ x.holds then x.request.daysRequested else 0

/-- A state to start from: nothing is going on, no row is overdrawn, and the
    days of the open requests, which are not negative, are reserved. -/
structure Start (c : Concurrent) : Prop where
  calls : c.system.calls = .empty
  snapshots : c.snapshots = []
  submissions : c.submissions = .empty
  solvent : ∀ i b, c.system.db.balances.get i = some b → b.usedDays + b.reservedDays ≤ b.totalDays
  reserved : ∀ key, reservedDaysIn c.system.db.balances key =
    daysIn c.system.db.requests RequestStatus.isOpen key
  days : ∀ id r, c.system.db.requests.get id = some r → r.status.isOpen → 0 ≤ r.daysRequested

/-- What holds in every state, if no rollback has undone anything. -/
structure Ok (c : Concurrent) : Prop where
  calls : CallsOk c.system
  covered : Covered (heldIn c.submissions) c.system.db.books
  submissions : ∀ n x, c.submissions.get n = some x → 0 < x.request.daysRequested ∧
    x.request.status.isOpen ∧ ∃ k, Submission.Stage x.request x.script k
  ended : ∀ n x, c.submissions.get n = some x → x.phase.isEnded → x.script.head = none
  /-- As many transactions are open as there are submissions in one. -/
  depth : (c.snapshots.length : ℤ) =
    c.submissions.sum fun _ x => if x.phase.isStarted then 1 else 0

variable {cfg : Config} {c c' c₀ : Concurrent} {a : Action} {n : ℕ} {x : Submission}
  {hist : List (Concurrent × Action)} {ok : Concurrent → Action → Prop}

/-! ## What a step does -/

/-- The submission that goes on. -/
theorem proceed_eq_some
    {f : Connection Database → Submission → Option (Connection Database × Submission)}
    (h : c.proceed n f = some c') : ∃ x p, c.submissions.get n = some x ∧
      f c.connection x = some p ∧ ∀ g : Submission → Submission, g x = p.2 →
        c' = { system := { c.system with db := p.1.data }
               snapshots := p.1.snapshots
               submissions := c.submissions.update n g } := by
  obtain ⟨x, hx, h⟩ := Option.bind_eq_some_iff.1 h
  obtain ⟨p, hp, rfl⟩ := Option.map_eq_some_iff.1 h
  refine ⟨x, p, hx, hp, fun g hg => ?_⟩
  rw [Table.update_congr hx hg.symm]

/-- Every step is one of the list. -/
theorem step_stepped (h : step cfg c a = some c') : Stepped cfg c a c' := by
  -- Each action determines the constructor, and what `step` checks is what the constructor
  -- asks for.
  cases a with
  | system b =>
    rcases eq_or_ne b .crash with rfl | hcrash
    · cases h
    · rw [step, Option.map_eq_some_iff] at h
      · obtain ⟨s, hs, rfl⟩ := h
        exact .system hs
      · exact hcrash
  | submitRequest dto caller =>
    rw [step] at h
    split at h
    · next body hbody =>
      obtain rfl := Option.some.inj h
      exact .submit hbody
    · obtain rfl := Option.some.inj h
      exact .refuse
  | startTransaction n =>
    obtain ⟨x, p, hx, hp, hc'⟩ := proceed_eq_some h
    rw [Submission.startTransaction] at hp
    split at hp
    · next hphase =>
      obtain rfl := Option.some.inj hp
      rw [hc' ({ · with phase := .started }) rfl]
      exact .start hx hphase
    · cases hp
  | execute n =>
    obtain ⟨x, p, hx, hp, hc'⟩ := proceed_eq_some h
    rw [Submission.execute] at hp
    split at hp
    · next hphase =>
      obtain ⟨⟨db, y⟩, hy, rfl⟩ := Option.map_eq_some_iff.1 hp
      rw [hc' ({ · with script := y }) rfl]
      exact .execute hx hphase hy
    · cases hp
  | endTransaction n =>
    -- The script has ended: a result is committed, an error is rolled back, and without a
    -- transaction both of them throw.
    obtain ⟨x, p, hx, hp, hc'⟩ := proceed_eq_some h
    rw [Submission.endTransaction] at hp
    split at hp
    · next u hphase hscript =>
      split at hp
      · next d hd =>
        obtain rfl := Option.some.inj hp
        obtain ⟨snapshot, hsnapshots, hdata⟩ := Connection.commitTransaction_eq_some.1 hd
        rw [hc' ({ · with phase := .ended (.ok u) }) rfl]
        dsimp only
        rw [hdata]
        exact .commit hx hphase hscript hsnapshots
      · next hd => exact .lost hx hphase (Connection.commitTransaction_eq_none.1 hd)
    · next e hphase hscript =>
      split at hp
      · next d hd =>
        obtain rfl := Option.some.inj hp
        rw [hc' ({ · with phase := .ended (.error e) }) rfl]
        exact .rollback hx hphase hscript (Connection.rollbackTransaction_eq_some.1 hd)
      · next hd => exact .lost hx hphase (Connection.rollbackTransaction_eq_none.1 hd)
    · cases hp

/-- A rollback that undoes nothing leaves the database as it is. -/
theorem UndoesNothing.eq_of_raise (h : c.UndoesNothing (.endTransaction n))
    (hx : c.submissions.get n = some x) {e : ServiceError} (hscript : x.script = raise e)
    {snapshot : Database} {rest : List Database} (hsnapshots : c.snapshots = snapshot :: rest) :
    c.system.db = snapshot := by
  refine h ?_ snapshot (by rw [hsnapshots]; rfl)
  rw [rollsBack, hx, Option.any_some, hscript]

/-! ## What a step keeps -/

/-- A submission passes the checks before its transaction with a positive number
    of days, and is then checking. -/
theorem submitRequest_done {today : Instant} {dto : SubmitRequestDto} {caller : RequestUser}
    {body : Steps.Body} (h : Steps.submitRequest today dto caller = .done body) :
    0 < calculateDaysRequested dto.startDate dto.endDate ∧
      Submission.Stage (dto.request (calculateDaysRequested dto.startDate dto.endDate))
        body.transaction 0 := by
  rw [Steps.submitRequest] at h
  split at h
  · cases h
  split at h
  · cases h
  split at h
  · cases h
  split at h
  · cases h
  next hdays =>
  obtain rfl := Script.done.inj h
  exact ⟨not_le.1 hdays, .checking (y := Steps.ensureEmployeeScope dto.employeeId caller)
    (Steps.all_ensureEmployeeScope ⟨by decide, fun _ => rfl⟩) rfl⟩

theorem heldIn_insert {t : Table Submission} : heldIn (t.insert x) key =
    heldIn t key + if x.request.toBalanceKey = key ∧ x.holds then x.request.daysRequested else 0 :=
  Table.sum_insert

/-- The days that are held after a submission has gone on in its script. -/
theorem heldIn_update {t : Table Submission} (hx : t.get n = some x) (y : Steps Unit) :
    heldIn (t.update n ({ · with script := y })) key = heldIn t key
      - (if x.request.toBalanceKey = key ∧ x.holds then x.request.daysRequested else 0)
      + (if x.request.toBalanceKey = key ∧ ({ x with script := y } : Submission).holds
          then x.request.daysRequested else 0) :=
  Table.sum_update hx

/-- What is held does not depend on how far the transaction is. -/
theorem heldIn_phase {t : Table Submission} (hx : t.get n = some x) (p : TransactionPhase) :
    heldIn (t.update n ({ · with phase := p })) = heldIn t := by
  funext key
  exact (Table.sum_update hx).trans (sub_add_cancel _ _)

/-- No key has a negative number of days held. -/
theorem heldIn_nonneg {t : Table Submission}
    (h : ∀ n x, t.get n = some x → 0 ≤ x.request.daysRequested) : 0 ≤ heldIn t key :=
  Table.sum_nonneg fun n x hx => by
    split
    · exact h n x hx
    · exact le_rfl

/-- A submission is called: it does not hold its days yet. -/
theorem Ok.submitRequest (hok : c.Ok) {dto : SubmitRequestDto} {caller : RequestUser}
    {body : Steps.Body} {today : Instant}
    (hbody : Steps.submitRequest today dto caller = .done body) :
    Ok { c with
      submissions := c.submissions.insert
        ⟨dto.request (calculateDaysRequested dto.startDate dto.endDate), body.transaction,
          .called⟩ } := by
  -- The new submission is at its first statement, so that it holds nothing.
  obtain ⟨hdays, hstage⟩ := submitRequest_done hbody
  have hholds : ({ request := dto.request (calculateDaysRequested dto.startDate dto.endDate)
                   script := body.transaction
                   phase := .called } : Submission).holds = false := by
    refine decide_eq_false fun hhead => ?_
    have h := hstage.head
    rw [if_pos hhead] at h
    cases h
  have hheld : heldIn (c.submissions.insert
      ⟨dto.request (calculateDaysRequested dto.startDate dto.endDate), body.transaction,
        .called⟩) = heldIn c.submissions := by
    funext key
    rw [heldIn_insert, hholds, if_neg (by simp), add_zero]
  refine ⟨hok.calls, ?_, Table.forall_insert ⟨Int.cast_pos.2 hdays, rfl, 0, hstage⟩
    hok.submissions, Table.forall_insert (by nofun) hok.ended, ?_⟩
  · change Covered (heldIn (c.submissions.insert _)) _
    rw [hheld]
    exact hok.covered
  · rw [Table.sum_insert, ← hok.depth]
    exact (add_zero _).symm

/-- A transaction is started or ended, and the database stays as it is. -/
theorem Ok.bracket (hok : c.Ok) (hx : c.submissions.get n = some x) {p : TransactionPhase}
    {snapshots : List Database} (hended : p.isEnded → x.script.head = none)
    (hdepth : (snapshots.length : ℤ) = c.snapshots.length
      - (if x.phase.isStarted then 1 else 0) + if p.isStarted then 1 else 0) :
    Ok { c with
      snapshots := snapshots
      submissions := c.submissions.update n ({ · with phase := p }) } where
  calls := hok.calls
  covered := by
    dsimp only
    rw [heldIn_phase hx]
    exact hok.covered
  submissions := Table.forall_update (fun y hy => hok.submissions n y hy) hok.submissions
  ended := by
    refine Table.forall_update (fun y hy hp => ?_) hok.ended
    obtain rfl := Option.some.inj (hy.symm.trans hx)
    exact hended hp
  depth := by
    rw [Table.sum_update hx, ← hok.depth]
    exact hdepth

/-- A submission in its transaction has one to end. -/
theorem Ok.snapshots_ne_nil (hok : c.Ok) (hx : c.submissions.get n = some x)
    (hstarted : x.phase = .started) : c.snapshots ≠ [] := by
  intro hnil
  have hle := Table.le_sum (M := ℤ)
    (w := fun _ x => if x.phase.isStarted then 1 else 0)
    (fun m y _ => by split <;> decide) hx
  rw [← hok.depth, hnil, if_pos (by rw [hstarted]; rfl)] at hle
  exact absurd hle (by decide)

/-- A statement of a submission: its days are reserved, and then held, or its
    request is inserted, or nothing happens. -/
theorem Ok.execute (hok : c.Ok) (hx : c.submissions.get n = some x)
    (hstarted : x.phase = .started) {db' : Database} {y : Steps Unit}
    (hstep : x.script.step c.system.db = some (db', y)) :
    Ok { c with
      system := { c.system with db := db' }
      submissions := c.submissions.update n ({ · with script := y }) } ∧
      NotOverdrawn synced c.system.db.balances db'.balances := by
  obtain ⟨hdays, hopen, k, hstage⟩ := hok.submissions n x hx
  obtain ⟨k', hstage', hexecuted⟩ := hstage.step hdays hstep
  have hholds : ∀ {k : ℕ} {z : Steps Unit}, Submission.Stage x.request z k →
      (({ x with script := z } : Submission).holds ↔ k = 1) := by
    intro k z hz
    rw [hz.head, Submission.holds, decide_eq_true_eq]
    split <;> simp [*]
  -- The submission stops holding its days, or starts to.
  have hheld : heldIn (c.submissions.update n ({ · with script := y })) = fun key =>
      heldIn c.submissions key
        - (if x.request.toBalanceKey = key ∧ k = 1 then x.request.daysRequested else 0)
        + (if x.request.toBalanceKey = key ∧ k' = 1 then x.request.daysRequested else 0) := by
    funext key
    simp only [heldIn_update hx, hholds hstage', show x.holds ↔ k = 1 from hholds hstage]
  have hsubmissions : ∀ m z, (c.submissions.update n ({ · with script := y })).get m = some z →
      0 < z.request.daysRequested ∧ z.request.status.isOpen ∧
        ∃ k, Submission.Stage z.request z.script k := by
    refine Table.forall_update (fun z hz => ?_) hok.submissions
    obtain rfl : z = x := Option.some.inj (hz.symm.trans hx)
    exact ⟨hdays, hopen, k', hstage'⟩
  have hended : ∀ m z, (c.submissions.update n ({ · with script := y })).get m = some z →
      z.phase.isEnded → z.script.head = none := by
    refine Table.forall_update (fun z hz hend => ?_) hok.ended
    obtain rfl : z = x := Option.some.inj (hz.symm.trans hx)
    dsimp only at hend
    rw [hstarted] at hend
    cases hend
  have hdepth : (c.snapshots.length : ℤ) = (c.submissions.update n ({ · with script := y })).sum
      fun _ x => if x.phase.isStarted then 1 else 0 := by
    rw [Table.sum_update hx, ← hok.depth]
    exact (sub_add_cancel _ _).symm
  cases hexecuted with
  | nothing hdb =>
    subst hdb
    refine ⟨⟨hok.calls, ?_, hsubmissions, hended, hdepth⟩, .refl _⟩
    dsimp only
    rw [hheld]
    simpa using hok.covered
  | reserve hb hk havail hdb =>
    subst hdb
    refine ⟨⟨fun m d hd => ⟨(hok.calls m d hd).row, (hok.calls m d hd).cancel⟩, ?_, hsubmissions,
      hended, hdepth⟩, notOverdrawn_reserve hb hk havail⟩
    have hcovered : Covered _ (c.system.db.reserve _ _).books :=
      hok.covered.reserve ⟨_, _, hb, hk⟩ hdays.le
    dsimp only
    rw [hheld]
    simpa using hcovered
  | insert hdb =>
    subst hdb
    refine ⟨⟨fun m d hd => ?_, ?_, hsubmissions, hended, hdepth⟩, .refl _⟩
    · obtain ⟨⟨q, hq, hbefore⟩, hcancel⟩ := hok.calls m d hd
      exact ⟨⟨q, Table.get_insert_of_some hq, hbefore⟩, hcancel⟩
    · -- What has been held is now in an open request.
      have hcovered : Covered (heldIn (c.submissions.update n ({ · with script := y })))
          (c.system.db.books.insert x.request) := by
        refine .insert ?_ hopen hdays.le fun _ =>
          heldIn_nonneg fun m z hz => (hsubmissions m z hz).1.le
        rw [hheld]
        simpa using hok.covered
      exact hcovered

/-- Every step that undoes nothing keeps this, and nothing but a sync makes a row
    overdrawn. -/
theorem Ok.step (hok : c.Ok) (hundoes : c.UndoesNothing a) (hnext : step cfg c a = some c') :
    c'.Ok ∧ NotOverdrawn a.isSync c.system.db.balances c'.system.db.balances := by
  cases step_stepped hnext with
  | system hs =>
    have hstepped := TimeOff.step_stepped hs
    obtain ⟨hcovered, hnot⟩ := hok.covered.move (hstepped.move hok.calls)
    exact ⟨⟨hok.calls.step hstepped, hcovered, hok.submissions, hok.ended, hok.depth⟩, hnot⟩
  | refuse => exact ⟨hok, .refl _⟩
  | submit hbody => exact ⟨hok.submitRequest hbody, .refl _⟩
  | start hx hcalled =>
    refine ⟨hok.bracket hx (by nofun) ?_, .refl _⟩
    rw [hcalled]
    simp [TransactionPhase.isStarted]
  | execute hx hstarted hy => exact hok.execute hx hstarted hy
  | commit hx hstarted hscript hsnapshots =>
    refine ⟨hok.bracket hx (fun _ => by rw [hscript]; rfl) ?_, .refl _⟩
    rw [hstarted, hsnapshots]
    simp [TransactionPhase.isStarted]
  | @rollback n x e snapshot rest hx hstarted hscript hsnapshots =>
    -- What it goes back to is what is there.
    obtain rfl := hundoes.eq_of_raise hx hscript hsnapshots
    refine ⟨hok.bracket hx (fun _ => by rw [hscript]; rfl) ?_, .refl _⟩
    rw [hstarted, hsnapshots]
    simp [TransactionPhase.isStarted]
  | lost hx hstarted hnil => exact absurd hnil (hok.snapshots_ne_nil hx hstarted)

/-- Nothing is held in the beginning, and no transaction is open. -/
theorem ok_of_start (hstart : Start c) : c.Ok where
  calls n d hd := by
    rw [hstart.calls] at hd
    cases hd
  covered := by
    have hheld : heldIn c.submissions = fun _ => 0 := by
      funext key
      rw [hstart.submissions]
      rfl
    rw [hheld]
    refine ⟨fun i b hb => ?_, fun key hkey => ?_, hstart.days, fun _ => le_rfl⟩
    · have hlookup : c.system.db.balances.lookup b.toBalanceKey = some (i, b) :=
        KeyedTable.lookup_eq_some.2 ⟨hb, rfl⟩
      have hres := hstart.reserved b.toBalanceKey
      rw [reservedDaysIn, hlookup] at hres
      rw [add_zero]
      exact hres
    · have hlookup : c.system.db.balances.lookup key = none :=
        KeyedTable.lookup_eq_none.2 fun i b hb hk => hkey ⟨i, b, hb, hk⟩
      have hres := hstart.reserved key
      rw [reservedDaysIn, hlookup] at hres
      rw [add_zero]
      exact hres.symm
  submissions n x hx := by
    rw [hstart.submissions] at hx
    cases hx
  ended n x hx := by
    rw [hstart.submissions] at hx
    cases hx
  depth := by
    rw [hstart.snapshots, hstart.submissions]
    rfl

theorem ok_of_run (hstart : Start c₀) (hok : ∀ c a, ok c a → c.UndoesNothing a)
    (hrun : Run (step cfg) ok c₀ hist c) : c.Ok :=
  hrun.invariant (ok_of_start hstart) fun c a _ hc ha hnext => (hc.step (hok c a ha) hnext).1

/-! ## Where a rollback undoes nothing -/

theorem undoesNothing_of_keeps (h : c.rollsBack a = false) : c.UndoesNothing a :=
  fun hrollsBack => absurd (h.symm.trans hrollsBack) Bool.false_ne_true

/-- The submission `n` executes `k` statements. -/
def executes (n k : ℕ) : List Action := List.replicate k (.execute n)

end Concurrent

end TimeOff
