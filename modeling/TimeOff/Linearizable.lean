import TimeOff.Lib.Refinement
import TimeOff.Underway
import TimeOff.Unread

/-!
# A submission takes place at once

In `TimeOff.System` a submission is one step. In `Locked` it is a transaction
that is executed statement by statement, under the lock of its employee, while
anything else goes on in between. The finer system refines the other one
(`linearizable`): a submission takes place when it ends, and what it has reserved
until then is not seen (`Locked.view`).

That the view takes the same steps rests on two facts. Nothing but submissions
and syncs reads balances (`step_withBalances`), and what a submission has
reserved stays reserved for it (`Covered`), so that it is all the same whether
the balance of another request is settled before that or after it.

Between its two writes no sync may come: it can take the days away that are
reserved, and the submission would go on. And the day may not end that is the
last one to ask for its dates, which it only looks at when it is called. Nor may
a rollback undo what has been written for somebody else (`UndoesNothing`): then
a submission may have returned and nothing of it is there
(`TimeOff.SharedConnection`).
-/

namespace TimeOff

open Transition Transaction Script

variable {cfg : Config} {x : Submission}

namespace Locked

variable {l l' l₀ : Locked} {a : Action} {n : ℕ} {hist : List (Locked × Action)}

/-- What is seen of the system: nothing of the submissions that have not
    inserted their requests yet. -/
def view (l : Locked) : State :=
  l.concurrent.system.withBalances
    (l.concurrent.system.db.balances.before l.concurrent.submissions)

/-- What a step is seen as. A submission is seen when it ends. -/
def label (l : Locked) : Action → Option TimeOff.Action
  | .system a => some a
  | .execute n => (l.concurrent.submissions.get n).bind fun x =>
    (x.script.step l.concurrent.system.db).bind fun p =>
      (answer p.2).map fun _ => .submitRequest x.dto x.caller
  | _ => none

/-- No sync comes while days are held, and no submission goes on after the day
    of its start date. -/
def undisturbed (cfg : Config) (l : Locked) : Action → Bool
  | .system a => !a.isSync || l.concurrent.submissions.rows.all fun q => !q.2.holds
  | .execute n => (l.concurrent.submissions.get n).all fun x =>
    localMidnight cfg.utcOffset l.concurrent.system.now ≤ x.request.startDate.getTime
  | _ => true

/-! ## Invariants -/

/-- With the locks, at most one of the submissions of an employee holds days. -/
theorem Ok.alone (hok : l.Ok) : Alone l.concurrent.submissions := by
  intro n m x y hx hy hxholds hyholds hkey
  obtain ⟨c, hc, hpaired⟩ := hok.paired n x hx
  obtain ⟨d, hd, hpaired'⟩ := hok.paired m y hy
  have hinside : ∀ {x : Submission} {d : LockCall (Except ServiceError Unit)}, Paired x d →
      x.holds → d.phase ≠ .waiting ∧ ¬d.phase.isSettled := by
    intro x d hpaired hholds
    have hhead : x.script.head = some .insertRequest := of_decide_eq_true hholds
    exact hpaired.inside (by rw [hhead]; decide) (by rw [hhead]; decide)
  have hsame : c.employeeId = d.employeeId := hpaired.employeeId.trans
    ((congrArg BalanceKey.employeeId hkey).trans hpaired'.employeeId.symm)
  obtain ⟨hstarted, hin⟩ := hinside hpaired hxholds
  obtain ⟨hstarted', hin'⟩ := hinside hpaired' hyholds
  exact unique_of_lockOk hok.locks hc hd hsame hstarted hstarted' hin hin'

/-- While the submission executes a statement, nobody else holds days of its
    balance. -/
theorem Ok.holder_eq (hok : l.Ok) {y : Submission} {d : LockCall (Except ServiceError Unit)}
    (hy : l.concurrent.submissions.get n = some y) (hd : l.locks.calls.get n = some d)
    (hrunning : d.phase = .running) :
    holder l.concurrent.submissions y.request.toBalanceKey = if y.holds then some y else none := by
  split
  · next hholds => exact (holder_eq_some hok.alone).2 ⟨n, hy, rfl, hholds⟩
  · next hholds =>
    refine holder_eq_none.2 fun m x hx hkey hxholds => hholds ?_
    have hhead : x.script.head = some .insertRequest := of_decide_eq_true hxholds
    have hnm := hok.exclusive hx (by rw [hhead]; decide) (by rw [hhead]; decide) hy hd hrunning
      (congrArg BalanceKey.employeeId hkey)
    subst hnm
    rwa [← Option.some.inj (hx.symm.trans hy)]

/-- The days that are held are reserved. -/
theorem Ok.le_reservedDays (hok : l.Ok) {i : ℕ} {b : LeaveBalance} {x : Submission}
    (hb : l.concurrent.system.db.balances.get i = some b)
    (hholder : holder l.concurrent.submissions b.toBalanceKey = some x) :
    0 ≤ x.request.daysRequested ∧ x.request.daysRequested ≤ b.reservedDays := by
  obtain ⟨n, hx, hk, hholds⟩ := holds_of_holder hholder
  have hpos : ∀ m y, l.concurrent.submissions.get m = some y → 0 ≤ y.request.daysRequested :=
    fun m y hy => (hok.concurrent.submissions m y hy).1.le
  refine ⟨hpos n x hx, ?_⟩
  have hheld : x.request.daysRequested ≤
      Concurrent.heldIn l.concurrent.submissions b.toBalanceKey := by
    have hle := Table.le_sum (w := fun _ x =>
      if x.request.toBalanceKey = b.toBalanceKey ∧ x.holds then x.request.daysRequested else 0)
      (fun m y hy => by
        split
        · exact hpos m y hy
        · exact le_rfl) hx
    rwa [if_pos ⟨hk, hholds⟩] at hle
  have hopen : 0 ≤ daysIn l.concurrent.system.db.requests RequestStatus.isOpen b.toBalanceKey :=
    daysIn_nonneg hok.concurrent.covered.days
  have hreserved := hok.concurrent.covered.reserved i b hb
  rw [hreserved]
  exact hheld.trans (le_add_of_nonneg_left hopen)

/-- All submissions are under way. -/
def Sound (l : Locked) : Prop :=
  ∀ n x, l.concurrent.submissions.get n = some x → x.Underway l.concurrent.system.db

theorem Counted.advanced (hcounted : Counted hist l) (hok : l.Ok) {y : Submission} {db : Database}
    {z : Steps Unit} (hy : l.concurrent.submissions.get n = some y)
    (hz : y.script.step l.concurrent.system.db = some (db, z)) :
    Advanced y.request l.concurrent.system.db y.script db z :=
  (hcounted.tried n y hy).advanced (hok.concurrent.submissions n y hy).1 hz

/-- A submission that is called has passed the checks before its transaction. -/
theorem underway_of_submit {dto : SubmitRequestDto} {caller : RequestUser} {today : Instant}
    {body : Steps.Body} {db : Database}
    (hbody : Steps.submitRequest today dto caller = .done body) :
    Submission.Underway ⟨dto.request (calculateDaysRequested dto.startDate dto.endDate),
      body.transaction, .called⟩ db := by
  have hhead : body.transaction.head = some .findEmployee := by
    rw [Submission.transaction_of_done hbody]
    rfl
  refine ⟨rfl, ?_, fun hne => absurd hhead hne, fun hholds => ?_⟩
  · rw [Steps.submitRequest] at hbody
    split at hbody
    · cases hbody
    split at hbody
    · cases hbody
    split at hbody
    · cases hbody
    next horder => exact not_lt.1 horder
  · have hinsert : body.transaction.head = some .insertRequest := of_decide_eq_true hholds
    rw [hhead] at hinsert
    cases hinsert

/-- No submission holds days when a sync comes. -/
theorem not_holds_of_sync {b : TimeOff.Action} (hund : undisturbed cfg l (.system b))
    (hsync : b.isSync) (hx : l.concurrent.submissions.get n = some x) : ¬x.holds := by
  rw [undisturbed, hsync, Bool.not_true, Bool.false_or, List.all_eq_true] at hund
  simpa using hund (n, x) (Table.mem_rows.2 hx)

/-- A transaction is started or ended. -/
theorem Sound.bracket (hsound : l.Sound) {c : Concurrent} (hc : Bracketed n l.concurrent c) :
    Sound { l with concurrent := c } := by
  cases hc with
  | mk _ hy _ =>
    intro m x hx
    rcases Table.get_update_eq_some.1 hx with ⟨rfl, y, hy, rfl⟩ | ⟨_, hx⟩
    · have hunderway := hsound _ y hy
      exact ⟨hunderway.request, hunderway.order, hunderway.employee, hunderway.held⟩
    · exact hsound m x hx

/-- A step keeps what is known of the submissions underway. -/
theorem Sound.step (hsound : l.Sound) (hok : l.Ok) (hcounted : Counted hist l)
    (hund : undisturbed cfg l a) (hundoes : l.UndoesNothing a) (hstep : Stepped cfg l a l') :
    l'.Sound := by
  cases hstep with
  | @system b s hsubmit hs _ =>
    -- A sync does not come while a submission holds days; what else happens moves the books
    -- only in a way that a submission which waits does not notice.
    intro n x hx
    have hstepped := TimeOff.step_stepped hs
    refine (hsound n x hx).wait (hstepped.kept hsubmit).employees fun hholds => ?_
    by_cases hsync : b.isSync
    · exact absurd hholds (not_holds_of_sync hund hsync hx)
    · have hmove := (hstepped.move hok.concurrent.calls).unsynced hsync
      exact .move hok.concurrent.covered hmove (hstepped.kept hsubmit).nextId
  | refuse => exact hsound
  | @submit dto caller body c locks hbody hc _ =>
    obtain rfl := concurrent_of_submit hbody hc
    exact Table.forall_insert (underway_of_submit hbody) hsound
  | @execute m c d hd hrunning hc =>
    obtain ⟨y, db, z, hy, hz, rfl⟩ := concurrent_of_execute hc
    have hadvanced := hcounted.advanced hok hy hz
    -- The submission `m` advances. One of another employee has other rows; one of the same
    -- employee is not at its writes, as it would have the lock.
    intro n x hx
    rcases Table.get_update_eq_some.1 hx with ⟨rfl, y', hy', rfl⟩ | ⟨hne, hx⟩
    · obtain rfl := Option.some.inj (hy.symm.trans hy')
      exact (hsound n y hy).execute hadvanced
    · refine (hsound n x hx).wait hadvanced.employees fun hholds => hadvanced.eased fun hkey => ?_
      have hhead : x.script.head = some .insertRequest := of_decide_eq_true hholds
      exact hne (hok.exclusive hx (by rw [hhead]; decide) (by rw [hhead]; decide) hy hd hrunning
        (congrArg BalanceKey.employeeId hkey).symm)
  | startTransaction _ _ hc => exact hsound.bracket (bracketed_of_start hc)
  | endTransaction _ _ hc => exact hsound.bracket (bracketed_of_end hok.concurrent hundoes hc)
  | lock _ _ _ _ _ => exact hsound

/-- It is known after every run without an undoing rollback or a sync in between.
    -/
theorem sound_of_run (hstart : Start l₀)
    (hrun : Run (step cfg) (fun l a => undisturbed cfg l a ∧ l.UndoesNothing a) l₀ hist l) :
    l.Sound := by
  refine hrun.history (I := fun _ l => l.Sound) (fun n x hx => ?_)
    fun hist l a l' hrun hsound hok hnext =>
      hsound.step (ok_of_run hstart (fun _ _ h => h.2) hrun)
        (counted_of_run hstart (fun _ _ h => h.2) hrun) hok.1 hok.2 (step_stepped hnext)
  rw [hstart.concurrent.submissions] at hx
  cases hx

/-! ## The refinement -/

/-- What a submission holds has been there before. -/
theorem Sound.available (hsound : l.Sound) (hok : l.Ok) {y : Submission}
    (hy : l.concurrent.submissions.get n = some y) (hholds : y.holds) :
    ∃ i c, l.view.db.balances.get i = some c ∧ c.toBalanceKey = y.dto.toBalanceKey ∧
      (calculateDaysRequested y.dto.startDate y.dto.endDate : ℚ) ≤
        c.totalDays - c.usedDays - c.reservedDays := by
  obtain ⟨version, _, i, b, hb, hk, _, havail⟩ := (hsound n y hy).held hholds
  have hholder := (holder_eq_some hok.alone).2 ⟨n, hy, hk.symm, hholds⟩
  refine ⟨i, b.unreserve y.request.daysRequested, ?_, hk, ?_⟩
  · have hget : l.view.db.balances.get i = (l.concurrent.system.db.balances.get i).map
        (·.before l.concurrent.submissions) := rfl
    rw [hget, hb, Option.map_some, LeaveBalance.before, hholder, Option.elim_some]
  · rw [← (hsound n y hy).daysRequested, LeaveBalance.unreserve]
    dsimp only
    linarith

/-- What a submission holds has been reserved with a new version. -/
theorem Sound.version_pos (hsound : l.Sound) {y : Submission}
    (hy : l.concurrent.submissions.get n = some y) (hholds : y.holds) (i : ℕ) (b : LeaveBalance)
    (hb : l.concurrent.system.db.balances.get i = some b)
    (hk : b.toBalanceKey = y.request.toBalanceKey) : 0 < b.version := by
  obtain ⟨version, hpos, j, b', hb', hk', rfl, _⟩ := (hsound n y hy).held hholds
  obtain rfl := l.concurrent.system.db.balances.unique hb hb' (hk.trans hk'.symm)
  rwa [Option.some.inj (hb.symm.trans hb')]

/-- When the request is inserted, the submission can be one step. -/
theorem Sound.inserted (hsound : l.Sound) (hok : l.Ok) {y : Submission}
    (hy : l.concurrent.submissions.get n = some y) (hholds : y.holds)
    (hund : undisturbed cfg l (.execute n)) :
    l.view.submit cfg y.dto y.caller = .ok () ∧
      TimeOff.step cfg l.view (.submitRequest y.dto y.caller) = some { l.view with
        db := (l.view.db.reserve y.request.toBalanceKey y.request.daysRequested).insertRequest
          y.request } := by
  have hhead : y.script.head = some .insertRequest := of_decide_eq_true hholds
  rw [undisturbed, hy] at hund
  have hadmitted : SubmitRequestDto.Admitted y.dto
      (localMidnight cfg.utcOffset l.view.now) y.caller l.view.db :=
    { role := rfl
      own := rfl
      employee := (hsound n y hy).employee (by rw [hhead]; decide) (by rw [hhead]; decide)
      future := of_decide_eq_true hund
      order := (hsound n y hy).order }
  obtain ⟨r, t, hrun⟩ := (submitRequest_succeeds (t := .start l.view.db) hadmitted).2
    (hsound.available hok hy hholds)
  obtain ⟨hrole, _, _, _, _, htransaction⟩ := submitRequest_checked hrun
  obtain ⟨_, _, _, _, _, hdb, _⟩ := submitTransaction_ok hrole htransaction
  refine ⟨submit_of_ok hrun, ?_⟩
  rw [TimeOff.step, State.commit, transaction_eq hrun, hdb]
  rw [← (hsound n y hy).daysRequested, ← (hsound n y hy).request]
  rfl

/-- While no days are held, the system is seen as it is. -/
theorem view_eq_self (h : ∀ n x, l.concurrent.submissions.get n = some x → ¬x.holds) :
    l.view = l.concurrent.system := by
  rw [view, before_eq_self h]
  rfl

section

variable {y : Submission} {d : LockCall (Except ServiceError Unit)} {db : Database} {z : Steps Unit}

/-- As one step, a submission ends as it does. -/
theorem Sound.submit_eq (hsound : l.Sound) (hok : l.Ok) (hcounted : Counted hist l)
    (hund : undisturbed cfg l (.execute n)) (hy : l.concurrent.submissions.get n = some y)
    (hd : l.locks.calls.get n = some d) (hrunning : d.phase = .running)
    (hz : y.script.step l.concurrent.system.db = some (db, z)) {r : Except ServiceError Unit}
    (hr : answer z = some r) : l.view.submit cfg y.dto y.caller = r := by
  have hunderway := hsound n y hy
  have hfuture : localMidnight cfg.utcOffset l.view.now ≤ y.dto.startDate.getTime := by
    rw [undisturbed, hy] at hund
    exact of_decide_eq_true hund
  have herror : ∀ {e t}, (submitTransaction y.dto
      (calculateDaysRequested y.dto.startDate y.dto.endDate) y.caller).run (.start l.view.db) =
        .error e t → l.view.submit cfg y.dto y.caller = .error e :=
    TimeOff.submit_eq rfl rfl hfuture hunderway.order
  have hgoing : ∀ {q : Statement}, z.head ≠ some q := by
    intro q hq
    rw [head_of_answer hr] at hq
    cases hq
  have hlookup : l.view.db.balances.lookup y.dto.toBalanceKey =
      (l.concurrent.system.db.balances.lookup y.request.toBalanceKey).map
        (Prod.map id (·.before l.concurrent.submissions)) := lookup_before
  -- What the view shows of the row: the days of this very submission are taken back, if it
  -- holds any.
  have hholder := hok.holder_eq hy hd hrunning
  have hread : y.script.head = some .findBalance → (∃ e,
      l.view.db.employees.get y.dto.employeeId = some e) ∧ ¬y.holds := by
    intro hhead
    refine ⟨hunderway.employee (by rw [hhead]; decide) (by rw [hhead]; decide), fun hholds => ?_⟩
    cases hhead.symm.trans (of_decide_eq_true hholds)
  -- One case for each way in which a statement can go. Where it ends the submission, the
  -- submission as one step ends so on the view; where it does not, there is no answer.
  cases hcounted.advanced hok hy hz with
  | unknown _ he =>
    obtain rfl := Option.some.inj hr
    exact herror (run_unknown rfl he)
  | noRecord hhead hl =>
    obtain ⟨⟨e, he⟩, _⟩ := hread hhead
    obtain rfl := Option.some.inj hr
    rw [hl] at hlookup
    exact herror (run_refused rfl rfl he (run_noRecord hlookup))
  | @insufficient q hhead hl hlt =>
    obtain ⟨⟨e, he⟩, hholds⟩ := hread hhead
    obtain rfl := Option.some.inj hr
    rw [if_neg hholds] at hholder
    have hq : q.2.before l.concurrent.submissions = q.2 := by
      rw [LeaveBalance.before, (KeyedTable.lookup_eq_some.1 hl).2, hholder, Option.elim_none]
    rw [hl, Option.map_some, Prod.map, hq] at hlookup
    rw [hunderway.daysRequested] at hlt ⊢
    exact herror (run_refused rfl rfl he (run_insufficient hlookup hlt))
  | exhausted _ hconflict =>
    -- A conflict is no answer: the submission gives up its attempts for syncs only.
    rw [answer, if_pos hconflict] at hr
    cases hr
  | insert hhead =>
    obtain rfl := Option.some.inj hr
    exact (hsound.inserted hok hy (decide_eq_true hhead) hund).1
  | found _ _ hhead | goOn _ _ _ hhead _ _ _ | reserve _ _ hhead => exact absurd hhead hgoing

/-- A submission executes a statement. -/
theorem Sound.execute (hsound : l.Sound) (hok : l.Ok) (hcounted : Counted hist l)
    (hund : undisturbed cfg l (.execute n)) (hy : l.concurrent.submissions.get n = some y)
    (hd : l.locks.calls.get n = some d) (hrunning : d.phase = .running)
    (hz : y.script.step l.concurrent.system.db = some (db, z)) {c : Concurrent}
    (hc : c = { l.concurrent with
      system := { l.concurrent.system with db := db }
      submissions := l.concurrent.submissions.update n ({ · with script := z }) })
    (hok' : Ok { l with concurrent := c }) :
    (∃ b, label l (.execute n) = some b ∧
      TimeOff.step cfg l.view b = some (view { l with concurrent := c })) ∨
        (label l (.execute n) = none ∧ view { l with concurrent := c } = l.view) := by
  subst hc
  have hlabel : label l (.execute n) =
      (answer z).map fun _ => .submitRequest y.dto y.caller := by
    rw [label, hy, Option.bind_some, hz, Option.bind_some]
  have hother : ∀ key, key ≠ y.request.toBalanceKey →
      holder (l.concurrent.submissions.update n ({ · with script := z })) key =
        holder l.concurrent.submissions key :=
    fun key hne => holder_update hok.alone hok'.alone hy fun h => absurd h.symm hne
  have hbefore := hok.holder_eq hy hd hrunning
  have hafter := hok'.holder_eq (Table.get_update_self hy) hd hrunning
  -- What the statement writes: nothing, the days on the row, or the request.
  rcases (hcounted.advanced hok hy hz).effect with
    ⟨hhead, hhead', hne, rfl⟩ | ⟨hhead, hhead', rfl⟩ | ⟨hhead, rfl, rfl⟩
  · -- Nothing is written, and nothing is held.
    have hholds : ¬y.holds := fun h => hhead (of_decide_eq_true h)
    have hholds' : ¬({ y with script := z } : Submission).holds :=
      fun h => hhead' (of_decide_eq_true h)
    have hview : view { l with
        concurrent := { l.concurrent with
          submissions := l.concurrent.submissions.update n ({ · with script := z }) } } = l.view :=
      congrArg l.concurrent.system.withBalances (before_congr fun key => congrArg _
        (holder_update hok.alone hok'.alone hy fun _ => ⟨hholds, hholds'⟩))
    cases hr : answer z with
    | none =>
      rw [hr] at hlabel
      exact .inr ⟨hlabel, hview⟩
    | some r =>
      rw [hr] at hlabel
      refine .inl ⟨_, hlabel, ?_⟩
      have hsubmit := hsound.submit_eq hok hcounted hund hy hd hrunning hz hr
      cases r with
      | ok u => exact absurd hr hne
      | error e => exact (step_of_submit hsubmit).trans (congrArg some hview.symm)
  · -- The days are reserved.
    have hholds : ¬y.holds := fun h => hhead (of_decide_eq_true h)
    have hholds' : ({ y with script := z } : Submission).holds := decide_eq_true hhead'
    have hnone : answer z = none := by
      refine Option.eq_none_iff_forall_ne_some.2 fun r hr => ?_
      cases hhead'.symm.trans (head_of_answer hr)
    rw [if_neg hholds] at hbefore
    rw [if_pos hholds'] at hafter
    rw [hnone] at hlabel
    refine .inr ⟨hlabel, ?_⟩
    exact congrArg l.concurrent.system.withBalances
      (before_reserve (x := { y with script := z }) hother hbefore hafter)
  · -- The request is inserted.
    have hholds : y.holds := decide_eq_true hhead
    have hholds' : ¬({ y with script := done () } : Submission).holds := Bool.false_ne_true
    rw [if_pos hholds] at hbefore
    rw [if_neg hholds'] at hafter
    refine .inl ⟨_, hlabel, ?_⟩
    rw [(hsound.inserted hok hy hholds hund).2]
    have hinserted := before_insert hother hbefore hafter (hsound.version_pos hy hholds)
    exact congrArg (fun t => some { l.concurrent.system with
      db := { l.concurrent.system.db.insertRequest y.request with balances := t } }) hinserted.symm

end

/-- That a transaction starts or ends is not seen. -/
theorem Ok.view_bracket (hok : l.Ok) {c : Concurrent} (hc : Bracketed n l.concurrent c)
    (hok' : Ok { l with concurrent := c }) : view { l with concurrent := c } = l.view := by
  cases hc with
  | mk _ _ _ =>
    exact congrArg l.concurrent.system.withBalances
      (before_congr fun key => holder_phase hok.alone hok'.alone)

/-- A step of the system with its locks is one of the system, or it is not seen
    there. -/
theorem Sound.refines (hsound : l.Sound) (hok : l.Ok) (hcounted : Counted hist l)
    (hund : undisturbed cfg l a) (hundoes : l.UndoesNothing a) (hstep : Stepped cfg l a l') :
    (∃ b, label l a = some b ∧ TimeOff.step cfg l.view b = some l'.view) ∨
      (label l a = none ∧ l'.view = l.view) := by
  -- Only a step of the system, or the statement that decides a submission, is seen; each
  -- other kind of step leaves the view as it is.
  have hok' := hok.step hundoes hstep
  cases hstep with
  | @system b s hsubmit hs _ =>
    refine .inl ⟨b, rfl, ?_⟩
    by_cases hsync : b.isSync
    · -- No submission holds days when a sync comes: the view is the database itself.
      have hnone : ∀ n x, l.concurrent.submissions.get n = some x → ¬x.holds :=
        fun n x hx => not_holds_of_sync hund hsync hx
      have hview' := view_eq_self (l := { l with concurrent := { l.concurrent with system := s } })
        hnone
      rw [view_eq_self hnone, hview']
      exact hs
    · -- Another step settles days of one row at most, and does so on any balances; the days
      -- that a submission holds can be taken back before or after.
      obtain ⟨target, key, days, hbalances, hall⟩ := step_withBalances hsync hsubmit hs
      refine (hall _).trans (congrArg (fun t => some (s.withBalances t)) ?_)
      have hle := fun i b x => hok'.le_reservedDays (i := i) (b := b) (x := x)
      rw [hbalances] at hle ⊢
      exact (before_settle hle).symm
  | refuse => exact .inr ⟨rfl, rfl⟩
  | @submit dto caller body c locks hbody hc _ =>
    obtain rfl := concurrent_of_submit hbody hc
    refine .inr ⟨rfl, ?_⟩
    refine congrArg l.concurrent.system.withBalances (before_congr fun key => congrArg _ ?_)
    refine holder_insert hok.alone hok'.alone fun hholds => ?_
    -- A submission that has just been called holds nothing.
    have hhead : body.transaction.head = some .insertRequest := of_decide_eq_true hholds
    rw [Submission.transaction_of_done hbody] at hhead
    cases hhead
  | execute hd hrunning hc =>
    obtain ⟨y, db, z, hy, hz, hc⟩ := concurrent_of_execute hc
    exact hsound.execute hok hcounted hund hy hd hrunning hz hc hok'
  | startTransaction _ _ hc => exact .inr ⟨rfl, hok.view_bracket (bracketed_of_start hc) hok'⟩
  | endTransaction _ _ hc =>
    exact .inr ⟨rfl, hok.view_bracket (bracketed_of_end hok.concurrent hundoes hc) hok'⟩
  | @lock a b locks hexecute hsystem _ _ _ =>
    refine .inr ⟨?_, rfl⟩
    cases a with
    | execute n => exact absurd rfl (hexecute n)
    | system b => exact absurd rfl (hsystem b)
    | _ => rfl

/-! ## Once, and with the same result -/

/-- The submission `n` takes place with the step. -/
def takesPlace (n : ℕ) (e : Locked × Action) : Bool := executes n e && (label e.1 e.2).isSome

/-- The submission has taken place at one of its statements and has ended as it
    does there, or it has not taken place. -/
def TookPlace (cfg : Config) (hist : List (Locked × Action)) (n : ℕ) (x : Submission) : Prop :=
  match answer x.script with
  | some r => ∃ l, hist.filter (takesPlace n) = [(l, .execute n)] ∧
      label l (.execute n) = some (.submitRequest x.dto x.caller) ∧
      l.view.submit cfg x.dto x.caller = r
  | none => hist.filter (takesPlace n) = []

/-- A step of another kind adds nothing to the places of a submission. -/
theorem filter_takesPlace (ha : a ≠ .execute n) :
    (hist ++ [(l, a)]).filter (takesPlace n) = hist.filter (takesPlace n) := by
  have hfalse : takesPlace n (l, a) = false := by
    cases a with
    | execute m =>
      refine Bool.and_eq_false_iff.2 (.inl (decide_eq_false ?_))
      rintro rfl
      exact ha rfl
    | _ => rfl
  rw [List.filter_append, List.filter_singleton, hfalse, cond_false, List.append_nil]

/-- A step that is not a statement of the submission. -/
theorem TookPlace.wait (h : TookPlace cfg hist n x) (ha : a ≠ .execute n) :
    TookPlace cfg (hist ++ [(l, a)]) n x := by
  rw [TookPlace, filter_takesPlace ha]
  exact h

/-- Which submissions have taken place, by what has happened. -/
structure Placed (cfg : Config) (hist : List (Locked × Action)) (l : Locked) : Prop where
  placed : ∀ n x, l.concurrent.submissions.get n = some x → TookPlace cfg hist n x
  new : ∀ n, l.concurrent.submissions.nextId ≤ n → hist.filter (takesPlace n) = []

/-- A transaction is started or ended. -/
theorem Placed.bracket (hplaced : Placed cfg hist l) (ha : ∀ m, a ≠ .execute m) {c : Concurrent}
    (hc : Bracketed n l.concurrent c) :
    Placed cfg (hist ++ [(l, a)]) { l with concurrent := c } := by
  cases hc with
  | mk _ _ _ =>
    refine ⟨fun m x hx => ?_, fun m hm => (filter_takesPlace (ha m)).trans (hplaced.new m hm)⟩
    rcases Table.get_update_eq_some.1 hx with ⟨rfl, y, hy, rfl⟩ | ⟨_, hx⟩
    · exact (hplaced.placed _ y hy).wait (ha _)
    · exact (hplaced.placed m x hx).wait (ha m)

/-- A step keeps which submissions have taken place. -/
theorem Placed.step (hplaced : Placed cfg hist l) (hsound : l.Sound) (hok : l.Ok)
    (hcounted : Counted hist l) (hund : undisturbed cfg l a) (hundoes : l.UndoesNothing a)
    (hstep : Stepped cfg l a l') : Placed cfg (hist ++ [(l, a)]) l' := by
  -- Only a statement of a submission, the last one that it executes, can be where it takes
  -- place.
  cases hstep with
  | system _ _ _ =>
    exact ⟨fun n x hx => (hplaced.placed n x hx).wait (by simp),
      fun n hn => (filter_takesPlace (by simp)).trans (hplaced.new n hn)⟩
  | refuse =>
    exact ⟨fun n x hx => (hplaced.placed n x hx).wait (by simp),
      fun n hn => (filter_takesPlace (by simp)).trans (hplaced.new n hn)⟩
  | startTransaction _ _ hc => exact hplaced.bracket (by simp) (bracketed_of_start hc)
  | endTransaction _ _ hc =>
    exact hplaced.bracket (by simp) (bracketed_of_end hok.concurrent hundoes hc)
  | lock hexecute _ _ _ _ =>
    exact ⟨fun n x hx => (hplaced.placed n x hx).wait (hexecute n),
      fun n hn => (filter_takesPlace (hexecute n)).trans (hplaced.new n hn)⟩
  | @submit dto caller body c locks hbody hc _ =>
    obtain rfl := concurrent_of_submit hbody hc
    refine ⟨fun n x hx => ?_, fun n hn => ?_⟩
    · rcases Table.get_insert_eq_some.1 hx with ⟨rfl, rfl⟩ | hx
      · rw [TookPlace, Submission.transaction_of_done hbody, filter_takesPlace (by simp)]
        exact hplaced.new _ le_rfl
      · exact (hplaced.placed n x hx).wait (by simp)
    · exact (filter_takesPlace (by simp)).trans (hplaced.new n ((Nat.le_succ _).trans hn))
  | @execute m c d hd hrunning hc =>
    obtain ⟨y, db, z, hy, hz, rfl⟩ := concurrent_of_execute hc
    refine ⟨fun n x hx => ?_, fun n hn => ?_⟩
    · rcases Table.get_update_eq_some.1 hx with ⟨rfl, y', hy', rfl⟩ | ⟨hne, hx⟩
      · obtain rfl := Option.some.inj (hy.symm.trans hy')
        have hlabel : label l (.execute n) =
            (answer z).map fun _ => .submitRequest y.dto y.caller := by
          rw [label, hy, Option.bind_some, hz, Option.bind_some]
        -- The submission goes on, so that it has not taken place before.
        have hbefore : hist.filter (takesPlace n) = [] := by
          have hgoing : answer y.script = none := by
            refine Option.eq_none_iff_forall_ne_some.2 fun r hr => ?_
            cases hs : y.script with
            | stmt _ _ _ => rw [hs] at hr; cases hr
            | done _ | raise _ => rw [hs] at hz; cases hz
          have htook := hplaced.placed n y hy
          rwa [TookPlace, hgoing] at htook
        have htakes : takesPlace n (l, .execute n) = (answer z).isSome := by
          rw [takesPlace, hlabel, Option.isSome_map]
          exact Bool.and_eq_right_iff_imp.2 fun _ => decide_eq_true rfl
        rw [TookPlace, List.filter_append, hbefore, List.nil_append, List.filter_singleton, htakes]
        cases hr : answer z with
        | none => rfl
        | some r =>
          rw [hr] at hlabel
          exact ⟨l, rfl, hlabel, hsound.submit_eq hok hcounted hund hy hd hrunning hz hr⟩
      · exact (hplaced.placed n x hx).wait (by simpa using hne.symm)
    · have hne : n ≠ m := by
        rintro rfl
        exact absurd (Table.lt_nextId hy) (not_lt.2 hn)
      exact (filter_takesPlace (by simpa using hne.symm)).trans (hplaced.new n hn)

end Locked

end TimeOff
