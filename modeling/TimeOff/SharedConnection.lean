import TimeOff.Lib.Connection
import TimeOff.Lib.Run
import TimeOff.Request.Stepwise
import TimeOff.System

/-!
# One connection for all

The driver has a single connection, and every query runner is the same one. So
the operations (`Operation`) execute their statements on one connection, turn
by turn, and a transaction that starts while another is open is a savepoint in
it. A commit or a rollback acts on whatever has been started last, by whoever.

What the connection sees is kept as the *journal* of the statements that have
had an effect, each with the call that has executed it; the database is what
they make of the initial one (`view`).

A rollback is sound if the writes since the innermost `BEGIN` or `SAVEPOINT`
are those of the call that rolls back. If all rollbacks of a run are, then what
has been committed in the end is what the calls that have returned have
written, and nothing else (`committed_of_run`). Otherwise it need not be: the
lock of an employee does not keep the transactions of different calls apart.
-/

namespace TimeOff

open Transition Script

/-- A statement that has had an effect. -/
structure Write where
  call : ℕ
  effect : Database → Database

/-- The database after the writes. -/
def view (db₀ : Database) (journal : List Write) : Database :=
  journal.foldl (fun db w => w.effect db) db₀

/-- Where an operation is. -/
inductive CallStage
  /-- It has not started its transaction. -/
  | before (x : Steps Steps.Body)
  /-- In its transaction, with `response` to follow. -/
  | inside (x response : Steps Unit)
  /-- It has committed. -/
  | responding (x : Steps Unit)
  | returned
  | threw (e : ServiceError)

namespace CallStage

/-- Its transaction is open. -/
def isInside : CallStage → Bool
  | .inside .. => true
  | _ => false

/-- It has returned its response. -/
def isReturned : CallStage → Bool
  | .returned => true
  | _ => false

/-- It has thrown. -/
def isThrown : CallStage → Bool
  | .threw _ => true
  | _ => false

/-- It has returned or thrown. -/
def isFinished (st : CallStage) : Bool := st.isReturned || st.isThrown

end CallStage

/-- The connection, and the operations on it. -/
structure Shared where
  connection : Connection (List Write)
  calls : Table CallStage

/-- What may happen next. -/
inductive SharedAction
  | invoke (op : Operation)
  /-- The call `n` goes on to its next `await`. -/
  | proceed (n : ℕ)

/-- What the next statement of the call `n` writes to `db`, if anything. -/
def writeOf {α : Type} (n : ℕ) (db : Database) (x : Steps α) : Option Write :=
  if (x.effect db).isSome then some ⟨n, fun db => (x.effect db).getD db⟩ else none

/-- What the call `n` writes in its next step, if anything. -/
def CallStage.write (n : ℕ) (db : Database) : CallStage → Option Write
  | .before x => writeOf n db x
  | .inside x _ | .responding x => writeOf n db x
  | .returned | .threw _ => none

namespace Shared

/-- The service starts. -/
def start : Shared := ⟨.idle [], .empty⟩

/-- The next step of a call at a stage. -/
def goOn (db₀ : Database) (n : ℕ) (c : Connection (List Write)) (st : CallStage) :
    Option (Connection (List Write) × CallStage) :=
  let db := view db₀ c.data
  let written := c.modify (· ++ (st.write n db).toList)
  match st with
  | .before x =>
    match x with
    | .done body => some (c.startTransaction, .inside body.transaction body.response)
    | .raise e => some (c, .threw e)
    | .stmt .. => (x.step db).map fun p => (written, .before p.2)
  | .inside x response =>
    match x with
    | .done () =>
      match c.commitTransaction with
      | some c' => some (c', .responding response)
      | none => some (c, .inside (.raise .transactionNotStarted) response)
    | .raise e =>
      match c.rollbackTransaction with
      | some c' => some (c', .threw e)
      | none => some (c, .threw .transactionNotStarted)
    | .stmt .. => (x.step db).map fun p => (written, .inside p.2 response)
  | .responding x =>
    match x with
    | .done () => some (c, .returned)
    | .raise e => some (c, .threw e)
    | .stmt .. => (x.step db).map fun p => (written, .responding p.2)
  | .returned | .threw _ => none

/-- One step. -/
def step (db₀ : Database) (s : Shared) : SharedAction → Option Shared
  | .invoke op => some { s with calls := s.calls.insert (.before op.script) }
  | .proceed n =>
    (s.calls.get n).bind fun st =>
      (goOn db₀ n s.connection st).map fun p => ⟨p.1, s.calls.update n fun _ => p.2⟩

/-- What a step writes, if anything. -/
def writing (db₀ : Database) : Shared × SharedAction → Option Write
  | (s, .proceed n) => (s.calls.get n).bind (CallStage.write n (view db₀ s.connection.data))
  | (_, .invoke _) => none

/-- All that has been written, committed or not. -/
def executed (db₀ : Database) (hist : List (Shared × SharedAction)) : List Write :=
  hist.filterMap (writing db₀)

end Shared

/-! ## What the operations write -/

/-- There is a request with this id. -/
def Present (db : Database) (id : ℕ) : Prop := db.requests.get id ≠ none

/-- A statement that removes no request. -/
def Adds (_ : Statement) (exec : Database → Except ServiceError (Option Database)) : Prop :=
  ∀ db db', exec db = .ok (some db') → ∀ id, Present db id → Present db' id

/-- A statement that neither adds nor removes a request. -/
def Keeps (_ : Statement) (exec : Database → Except ServiceError (Option Database)) : Prop :=
  ∀ db db', exec db = .ok (some db') → ∀ id, Present db id ↔ Present db' id

/-- A write that neither adds nor removes a request. -/
def Write.Keeps (w : Write) : Prop := ∀ db id, Present db id ↔ Present (w.effect db) id

/-- The response of an operation: nothing, or a request that is there. -/
inductive ResponseOk (db : Database) : Steps Unit → Prop
  | none : ResponseOk db (.done ())
  | reread {id : ℕ} : Present db id → ResponseOk db (Steps.reread id)

/-- A transaction that removes no request, and only adds one at its end, with a
    response to follow. -/
structure BodyOk (db : Database) (b : Steps.Body) : Prop where
  adds : b.transaction.All Adds
  keeps : b.transaction.AllButLast Keeps
  response : ResponseOk db b.response

variable {db db' db₀ : Database} {label : Statement} {id : ℕ}
  {exec : Database → Except ServiceError (Option Database)}

theorem adds_of_keeps (h : Keeps label exec) : Adds label exec :=
  fun db db' hexec id => (h db db' hexec id).1

theorem keeps_read : Keeps label fun _ => .ok none := fun _ _ h => nomatch h

theorem keeps_of_requests {w : Database → Option Database}
    (h : ∀ db db', w db = some db' → db'.requests = db.requests) :
    Keeps label fun db => .ok (w db) := by
  intro db db' hexec id
  rw [Present, Present, h db db' (Except.ok.inj hexec)]

/-- An update of a request neither adds nor removes one. -/
theorem keeps_update {w : Database → Option Database}
    (h : ∀ db db', w db = some db' → ∃ i f, db'.requests = db.requests.update i f) :
    Keeps label fun db => .ok (w db) := by
  intro db db' hexec id
  obtain ⟨i, f, hreq⟩ := h db db' (Except.ok.inj hexec)
  rw [Present, Present, hreq, Table.get_update]
  split <;> simp

namespace Steps

variable {key : BalanceKey} {days : ℚ} {caller : RequestUser} {n : ℕ} {now : Instant}
  {c : Call}

theorem keeps_findOrFail : (findOrFail id).All Keeps :=
  all_bind (all_query keeps_read) fun o => by cases o <;> trivial

/-- The attempts of a reservation add no request. -/
theorem keeps_reserveAttempts : (reserveAttempts key days n).All Keeps := by
  induction n with
  | zero => exact all_bind (all_query keeps_read) fun _ => trivial
  | succ n ih =>
    refine all_bind (all_query keeps_read) fun o => ?_
    cases o with
    | none => trivial
    | some balance =>
      dsimp only
      split
      · trivial
      · refine all_bind (all_update (keeps_of_requests fun db db' h => ?_)) fun r => ?_
        · obtain ⟨_, _, rfl⟩ := Option.map_eq_some_iff.1 h
          rfl
        · cases r with
          | false => exact ih
          | true => trivial

theorem keeps_releaseReserved : (releaseReserved key days).All Keeps :=
  all_write (keeps_of_requests fun db db' h => by
    obtain ⟨_, _, rfl⟩ := Option.map_eq_some_iff.1 h
    rfl)

theorem keeps_confirmDeduction : (confirmDeduction key days).All Keeps :=
  all_write (keeps_of_requests fun db db' h => by
    obtain ⟨_, _, rfl⟩ := Option.map_eq_some_iff.1 h
    rfl)

/-- Nor does a transition. -/
theorem keeps_transitionRequest {target : RequestStatus} {v : ℕ} {x : ExtraFields} :
    (transitionRequest id target v x).All Keeps := by
  refine all_bind keeps_findOrFail fun _ => all_bind all_check fun _ =>
    all_bind (all_update (keeps_update fun db db' h => ?_)) fun r => ?_
  · obtain ⟨t, ht, rfl⟩ := Option.map_eq_some_iff.1 h
    obtain ⟨_, _, _, rfl⟩ := Table.updateIf_eq_some.1 ht
    exact ⟨_, _, rfl⟩
  · cases r with
    | false => trivial
    | true => exact keeps_findOrFail

theorem keeps_insertEvent {e : OutboxEvent} :
    (write .insertEvent fun db => some (db.insertEvent e) : Steps Unit).All Keeps :=
  all_write (keeps_of_requests fun db db' h => by
    obtain rfl := Option.some.inj h
    rfl)

/-- Nor do the transactions of the calls. -/
theorem keeps_transaction : (transaction now c).All Keeps := by
  rw [transaction]
  split
  · exact all_bind keeps_transitionRequest fun _ => keeps_insertEvent
  · exact all_bind keeps_transitionRequest fun _ => keeps_releaseReserved
  · rw [cancelTransaction]
    split
    · exact all_bind keeps_insertEvent fun _ => all_bind keeps_releaseReserved fun _ =>
        all_bind keeps_transitionRequest fun _ => trivial
    · exact all_bind keeps_releaseReserved fun _ =>
        all_bind keeps_transitionRequest fun _ => trivial

/-- Nor does the completion of a deduction. -/
theorem keeps_completeDeductionFromOutbox {hcmRequestId : String} :
    (completeDeductionFromOutbox id hcmRequestId).All Keeps := by
  refine all_bind keeps_findOrFail fun request => ?_
  split
  · trivial
  split
  · refine all_bind (all_write (keeps_update fun db db' h => ?_)) fun _ => keeps_findOrFail
    obtain ⟨_, _, rfl⟩ := Option.map_eq_some_iff.1 h
    exact ⟨_, _, rfl⟩
  · exact all_bind keeps_transitionRequest fun _ => all_bind keeps_confirmDeduction fun _ => trivial

/-- Nor does the transaction of a handler. -/
theorem keeps_deductTransaction {event : OutboxEvent} {hcmRequestId : String} :
    (deductTransaction id event hcmRequestId).All Keeps :=
  all_bind keeps_completeDeductionFromOutbox fun _ =>
    all_write (keeps_of_requests fun db db' h => by
      obtain rfl := Option.some.inj h
      rfl)

/-- The transaction of a submission inserts its request at the end. -/
theorem bodyOk_submit {dto : SubmitRequestDto} {m : ℤ} :
    BodyOk db ⟨submitTransaction dto m caller, pure ()⟩ where
  adds := by
    refine all_bind (all_ensureEmployeeScope (adds_of_keeps keeps_read)) fun _ =>
      all_bind (all_mono (fun _ _ => adds_of_keeps) keeps_reserveAttempts) fun _ =>
        all_write fun db db' hexec id hid => ?_
    obtain rfl := Option.some.inj (Except.ok.inj hexec)
    obtain ⟨r, hr⟩ := Option.ne_none_iff_exists'.1 hid
    exact Option.ne_none_iff_exists'.2 ⟨r, Table.get_insert_of_some hr⟩
  keeps := allButLast_bind (all_ensureEmployeeScope keeps_read) fun _ =>
    allButLast_bind keeps_reserveAttempts fun _ => allButLast_write
  response := .none

theorem bodyOk_of_keeps {x response : Steps Unit} (hx : x.All Keeps)
    (hresponse : ResponseOk db response) : BodyOk db ⟨x, response⟩ :=
  ⟨all_mono (fun _ _ => adds_of_keeps) hx, allButLast_of_all hx, hresponse⟩

/-- A check, and what follows it. -/
theorem ensures_check {α : Type} {p : Prop} [Decidable p] {e : ServiceError} {f : Unit → Steps α}
    {Q : α → Database → Prop} (h : (f ()).Ensures Q db) :
    ((if p then pure () else throw e : Steps Unit) >>= f).Ensures Q db := by
  split
  · exact h
  · trivial

/-- A request that has been found is there. -/
theorem ensures_findOrFail : (findOrFail id).Ensures (fun _ db => Present db id) db := by
  refine ensures_bind (ensures_query fun db => ?_)
  split
  · next r hr =>
    change Present db id
    rw [Present, hr]
    exact Option.some_ne_none r
  · trivial

/-- The check of the scope goes on with what holds. -/
theorem ensures_ensureRequestScope {α : Type} {r : TimeOffRequest} {f : Unit → Steps α}
    {Q : α → Database → Prop} (h : (f ()).Ensures Q db) :
    (ensureRequestScope r caller >>= f).Ensures Q db := by
  rw [ensureRequestScope]
  split
  · exact h
  · exact ensures_check h
  · exact ensures_check h

/-- The request of a call has been there. -/
theorem ensures_preRead {kind : CallKind} :
    (preRead kind id caller).Ensures (fun _ db => Present db id) db := by
  have hread : ∀ {f : TimeOffRequest → Steps Call},
      (∀ r db, Present db id → (f r).Ensures (fun _ db => Present db id) db) →
      (findOrFail id >>= fun r => ensureRequestScope r caller >>= fun _ => f r).Ensures
        (fun _ db => Present db id) db := fun hf =>
    ensures_bind (ensures_findOrFail.imp fun r db hid => ensures_ensureRequestScope (hf r db hid))
  cases kind with
  | approve => exact ensures_check (hread fun r db hid => hid)
  | reject reason =>
    rw [preRead]
    split
    · trivial
    · exact ensures_check (hread fun r db hid => hid)
  | cancel =>
    refine hread fun r db hid => ?_
    split
    · trivial
    · exact hid

end Steps

/-- What an operation is left with when it starts its transaction. -/
theorem ensures_script (op : Operation) (db : Database) :
    op.script.Ensures (fun b db => BodyOk db b) db := by
  -- Each of the operations reads before its transaction; a submission checks its input
  -- besides.
  cases op with
  | submitRequest today dto caller =>
    rw [Operation.script, Steps.submitRequest]
    split
    · trivial
    split
    · trivial
    split
    · trivial
    split
    · trivial
    · exact Steps.bodyOk_submit
  | callRequest now kind id caller =>
    refine ensures_bind (Steps.ensures_preRead.imp fun c db hid => ?_)
    refine Steps.bodyOk_of_keeps Steps.keeps_transaction ?_
    cases kind with
    | cancel => exact .none
    | _ => exact .reread hid
  | processDeductEvent id event answer =>
    refine ⟨fun _ => rfl, fun db => ?_⟩
    cases answer with
    | error e => trivial
    | ok hcmRequestId => exact Steps.bodyOk_of_keeps Steps.keeps_deductTransaction .none

/-! ## What a step does -/

variable {n m : ℕ} {c c' : Connection (List Write)} {st st' : CallStage} {W journal : List Write}
  {s s' : Shared} {a : SharedAction}

/-- What a step of the call `n` does. -/
inductive Went (db₀ : Database) (n : ℕ) (c : Connection (List Write)) :
    CallStage → Connection (List Write) → CallStage → Prop
  | start (b : Steps.Body) :
      Went db₀ n c (.before (.done b)) c.startTransaction (.inside b.transaction b.response)
  | refuse (e : ServiceError) : Went db₀ n c (.before (.raise e)) c (.threw e)
  | read {x : Steps Steps.Body} {p : Database × Steps Steps.Body} :
      x.step (view db₀ c.data) = some p →
      Went db₀ n c (.before x) (c.modify (· ++ (writeOf n (view db₀ c.data) x).toList))
        (.before p.2)
  | commit {response : Steps Unit} {c' : Connection (List Write)} :
      c.commitTransaction = some c' →
      Went db₀ n c (.inside (.done ()) response) c' (.responding response)
  | rollback (e : ServiceError) {response : Steps Unit} {c' : Connection (List Write)} :
      c.rollbackTransaction = some c' →
      Went db₀ n c (.inside (.raise e) response) c' (.threw e)
  /-- There is no transaction to commit or to roll back. -/
  | lost {x response : Steps Unit} {st' : CallStage} : c.snapshots = [] →
      Went db₀ n c (.inside x response) c st'
  | statement {x response : Steps Unit} {p : Database × Steps Unit} :
      x.step (view db₀ c.data) = some p →
      Went db₀ n c (.inside x response) (c.modify (· ++ (writeOf n (view db₀ c.data) x).toList))
        (.inside p.2 response)
  | return : Went db₀ n c (.responding (.done ())) c .returned
  | refuseResponse (e : ServiceError) : Went db₀ n c (.responding (.raise e)) c (.threw e)
  | reread {x : Steps Unit} {p : Database × Steps Unit} :
      x.step (view db₀ c.data) = some p →
      Went db₀ n c (.responding x) (c.modify (· ++ (writeOf n (view db₀ c.data) x).toList))
        (.responding p.2)

namespace Shared

/-- Every step of a call is one of the list. -/
theorem goOn_went (h : goOn db₀ n c st = some (c', st')) : Went db₀ n c st c' st' := by
  -- By the stage of the call and what its script does next. Without an open transaction, a
  -- commit and a rollback both throw.
  cases st with
  | before x =>
    cases x with
    | done b =>
      obtain ⟨rfl, rfl⟩ := Prod.mk.inj (Option.some.inj h)
      exact .start b
    | raise e =>
      obtain ⟨rfl, rfl⟩ := Prod.mk.inj (Option.some.inj h)
      exact .refuse e
    | stmt label exec next =>
      obtain ⟨rfl, rfl⟩ := Prod.mk.inj (Option.some.inj h)
      exact .read rfl
  | inside x response =>
    cases x with
    | done u =>
      rw [goOn] at h
      split at h
      · next c'' hc =>
        obtain ⟨rfl, rfl⟩ := Prod.mk.inj (Option.some.inj h)
        exact .commit hc
      · next hc =>
        obtain ⟨rfl, rfl⟩ := Prod.mk.inj (Option.some.inj h)
        refine .lost (not_not.1 fun hne => ?_)
        have hsome := Connection.isSome_commitTransaction.2 hne
        rw [hc] at hsome
        cases hsome
    | raise e =>
      rw [goOn] at h
      split at h
      · next c'' hc =>
        obtain ⟨rfl, rfl⟩ := Prod.mk.inj (Option.some.inj h)
        exact .rollback e hc
      · next hc =>
        obtain ⟨rfl, rfl⟩ := Prod.mk.inj (Option.some.inj h)
        refine .lost (not_not.1 fun hne => ?_)
        have hsome := Connection.isSome_rollbackTransaction.2 hne
        rw [hc] at hsome
        cases hsome
    | stmt label exec next =>
      obtain ⟨rfl, rfl⟩ := Prod.mk.inj (Option.some.inj h)
      exact .statement rfl
  | responding x =>
    cases x with
    | done u =>
      obtain ⟨rfl, rfl⟩ := Prod.mk.inj (Option.some.inj h)
      exact .return
    | raise e =>
      obtain ⟨rfl, rfl⟩ := Prod.mk.inj (Option.some.inj h)
      exact .refuseResponse e
    | stmt label exec next =>
      obtain ⟨rfl, rfl⟩ := Prod.mk.inj (Option.some.inj h)
      exact .reread rfl
  | returned => cases h
  | threw e => cases h

/-- An open transaction has started from what has been written before those that
    are open within it. -/
theorem nested_of_went (h : Went db₀ n c st c' st')
    (hnested : (c.data :: c.snapshots).Pairwise fun inner outer => outer <+: inner) :
    (c'.data :: c'.snapshots).Pairwise fun inner outer => outer <+: inner := by
  obtain ⟨hdata, hrest⟩ := List.pairwise_cons.1 hnested
  have happend : ∀ written, ((c.data ++ written) :: c.snapshots).Pairwise
      fun inner outer => outer <+: inner := fun written =>
    List.pairwise_cons.2
      ⟨fun outer houter => (hdata outer houter).trans (List.prefix_append _ _), hrest⟩
  cases h with
  | start _ =>
    -- The new snapshot is what is there.
    refine List.pairwise_cons.2 ⟨fun outer houter => ?_, hnested⟩
    rcases List.mem_cons.1 houter with rfl | houter
    · exact List.prefix_refl _
    · exact hdata outer houter
  | commit hc =>
    obtain ⟨snapshot, hsnapshots, hcdata⟩ := Connection.commitTransaction_eq_some.1 hc
    rw [hsnapshots] at hdata hrest
    rw [hcdata]
    exact List.pairwise_cons.2 ⟨fun outer houter => hdata outer (List.mem_cons_of_mem _ houter),
      (List.pairwise_cons.1 hrest).2⟩
  | rollback _ hc => rwa [Connection.rollbackTransaction_eq_some.1 hc] at hrest
  | read _ | statement _ | reread _ => exact happend _
  | refuse _ | lost _ | «return» | refuseResponse _ => exact hnested

/-- The call has returned. -/
def hasReturned (s : Shared) (n : ℕ) : Bool := (s.calls.get n).any (·.isReturned)

/-- The call has thrown. -/
def hasThrown (s : Shared) (n : ℕ) : Bool := (s.calls.get n).any (·.isThrown)

/-- What the call `n` has written since the innermost `BEGIN` or `SAVEPOINT` is
    all that has been written since then, and all that it has written. -/
def OwnSince (n : ℕ) (c : Connection (List Write)) : Prop :=
  ∀ snapshot rest, c.snapshots = snapshot :: rest → ∃ own, c.data = snapshot ++ own ∧
    (∀ w ∈ own, w.call = n) ∧ ∀ w ∈ snapshot, w.call ≠ n

/-- The step is no rollback, or one of what the call itself has written. -/
def RollsBackOwn (s : Shared) (a : SharedAction) : Prop :=
  ∀ n e response, a = .proceed n → s.calls.get n = some (.inside (.raise e) response) →
    OwnSince n s.connection

/-! ## The invariant -/

/-- What is known of a call, where `db` is the database, and `journal` is what
    has been written to it. -/
def StageOk (db : Database) (journal : List Write) (n : ℕ) : CallStage → Prop
  | .before x => x.Ensures (fun b db => BodyOk db b) db ∧ ∀ w ∈ journal, w.call ≠ n
  | .inside x response => x.All Adds ∧ x.AllButLast Keeps ∧ ResponseOk db response ∧
      ((∃ u, x = .done u) ∨ ∀ w ∈ journal, w.call = n → w.Keeps)
  | .responding x => ResponseOk db x
  | .returned | .threw _ => True

/-- The state of the connection, where `W` is all that has ever been written: it
    lacks what has been rolled back, and an open transaction has started from a
    part of the journal. -/
structure Sound (db₀ : Database) (W : List Write) (s : Shared) : Prop where
  journal : s.connection.data = W.filter fun w => !s.hasThrown w.call
  nested : (s.connection.data :: s.connection.snapshots).Pairwise fun inner outer => outer <+: inner
  depth : (s.connection.snapshots.length : ℤ) = s.calls.sum fun _ st => if st.isInside then 1 else 0
  stages : ∀ n st, s.calls.get n = some st → StageOk (view db₀ s.connection.data) W n st
  made : ∀ w ∈ W, ∃ st, s.calls.get w.call = some st

/-- What is known of a call stays so, when no request is removed, and nothing
    is written by the call. -/
theorem StageOk.change (h : StageOk db journal n st) (hdb : ∀ id, Present db id → Present db' id)
    (hjournal : ∀ w ∈ W, w.call = n → w ∈ journal) : StageOk db' W n st := by
  have hresponse : ∀ {x}, ResponseOk db x → ResponseOk db' x := by
    rintro x (_ | hid)
    · exact .none
    · exact .reread (hdb _ hid)
  cases st with
  | before x =>
    refine ⟨h.1.change fun b hb => ⟨hb.adds, hb.keeps, hresponse hb.response⟩, fun w hw hn => ?_⟩
    exact h.2 w (hjournal w hw hn) hn
  | inside x response =>
    obtain ⟨hadds, hkeeps, hok, hown⟩ := h
    refine ⟨hadds, hkeeps, hresponse hok, hown.imp_right fun hown w hw hn => ?_⟩
    exact hown w (hjournal w hw hn) hn
  | responding x => exact hresponse h
  | returned => trivial
  | threw e => trivial

/-! ## What a step preserves -/

theorem view_append : view db₀ (journal ++ W) = view (view db₀ journal) W := List.foldl_append

/-- Writes that keep the requests do so together. -/
theorem present_view (hkeeps : ∀ w ∈ W, w.Keeps) : Present db id ↔ Present (view db W) id := by
  induction W generalizing db with
  | nil => rfl
  | cons w W ih =>
    exact (hkeeps w List.mem_cons_self db id).trans
      (ih fun v hv => hkeeps v (List.mem_cons_of_mem _ hv))

section
variable {α : Type} {x : Steps α} {p : Database × Steps α} {w : Write}

/-- A write is made by the call whose statement it is. -/
theorem call_writeOf (h : w ∈ (writeOf n db x).toList) : w.call = n := by
  rw [Option.mem_toList, writeOf] at h
  split at h
  · obtain rfl := Option.some.inj h
    rfl
  · cases h

/-- The write of a statement makes of the database what the statement does. -/
theorem view_writeOf (h : x.step db = some p) : view db (writeOf n db x).toList = p.1 := by
  have hstep : x.step db = some (p.1, p.2) := h
  rw [step_eq_some hstep, writeOf]
  split
  · rfl
  · next hnone =>
    rw [Option.not_isSome_iff_eq_none.1 hnone]
    rfl

/-- A statement that only adds requests removes none. -/
theorem present_step (hx : x.All Adds) (h : x.step db = some p) (hid : Present db id) :
    Present p.1 id := by
  have hstep : x.step db = some (p.1, p.2) := h
  rw [step_eq_some hstep]
  cases x with
  | stmt label exec next =>
    rw [effect]
    cases hexec : exec db with
    | error e => exact hid
    | ok o =>
      cases o with
      | none => exact hid
      | some db' => exact hx.1 db db' hexec id hid
  | _ => cases h

/-- A statement of a transaction keeps the requests, or it is the last one. -/
theorem keeps_writeOf (hx : x.AllButLast Keeps) (h : x.step db = some p)
    (hw : w ∈ (writeOf n db x).toList) : (∃ a, p.2 = .done a) ∨ w.Keeps := by
  -- A script that has ended executes no statement.
  cases x with
  | stmt label exec next =>
    obtain rfl := Option.some.inj h
    rw [Option.mem_toList, writeOf] at hw
    split at hw
    · next hsome =>
      obtain rfl := Option.some.inj hw
      rcases hx.1 with hkeeps | hlast
      · refine .inr fun db id => ?_
        change Present db id ↔ Present (((stmt label exec next).effect db).getD db) id
        rw [effect]
        cases hexec : exec db with
        | error e => rfl
        | ok o =>
          cases o with
          | none => rfl
          | some db' => exact hkeeps db db' hexec id
      · -- It is the last one: whatever it does, the transaction is done.
        left
        rw [effect] at hsome
        split at hsome
        · next o hexec =>
          obtain ⟨a, ha⟩ := hlast db
          refine ⟨a, ?_⟩
          rw [attempt, hexec]
          exact ha
        · cases hsome
    · cases hw
  | _ => cases h

end

/-- The state after a step of the call `n`, which has written `own`. -/
theorem Sound.proceed (hsound : Sound db₀ W s) (hn : s.calls.get n = some st) {own : List Write}
    (hown : ∀ w ∈ own, w.call = n)
    (hjournal : c'.data = (W ++ own).filter fun w =>
      !(Shared.mk c' (s.calls.update n fun _ => st')).hasThrown w.call)
    (hnested : (c'.data :: c'.snapshots).Pairwise fun inner outer => outer <+: inner)
    (hdepth : (c'.snapshots.length : ℤ) = s.connection.snapshots.length -
      (if st.isInside then 1 else 0) + if st'.isInside then 1 else 0)
    (hpresent : ∀ id, Present (view db₀ s.connection.data) id → Present (view db₀ c'.data) id)
    (hstage : StageOk (view db₀ c'.data) (W ++ own) n st') :
    Sound db₀ (W ++ own) ⟨c', s.calls.update n fun _ => st'⟩ where
  journal := hjournal
  nested := hnested
  -- Only the stage of this call changes, so that the sum changes by what it adds.
  depth := by
    rw [Table.sum_update hn, ← hsound.depth]
    exact hdepth
  stages m stm hm := by
    rcases Table.get_update_eq_some.1 hm with ⟨rfl, _, _, rfl⟩ | ⟨hmn, hm⟩
    · exact hstage
    · refine (hsound.stages m stm hm).change hpresent fun w hw hwm => ?_
      exact (List.mem_append.1 hw).resolve_right fun hw => hmn (hwm.symm.trans (hown w hw))
  -- No call is removed.
  made w hw := by
    obtain ⟨stw, hstw⟩ : ∃ stw, s.calls.get w.call = some stw := by
      rcases List.mem_append.1 hw with hw | hw
      · exact hsound.made w hw
      · exact ⟨st, hown w hw ▸ hn⟩
    rw [Table.get_update, hstw]
    split
    · exact ⟨st', rfl⟩
    · exact ⟨stw, rfl⟩

/-- Which calls have thrown after a step of one of them. -/
theorem hasThrown_proceed (hn : s.calls.get n = some st) :
    (Shared.mk c' (s.calls.update n fun _ => st')).hasThrown m =
      if m = n then st'.isThrown else s.hasThrown m := by
  rw [hasThrown, hasThrown, Table.get_update]
  split
  · next hm => rw [hm, hn, Option.map_some, Option.any_some]
  · rfl

/-- A step of a call that does not throw. -/
theorem Sound.journal_of_kept (hsound : Sound db₀ W s) (hn : s.calls.get n = some st)
    (hst : st.isThrown = false) (hst' : st'.isThrown = false) {own : List Write}
    (hown : ∀ w ∈ own, w.call = n) : s.connection.data ++ own = (W ++ own).filter fun w =>
      !(Shared.mk c' (s.calls.update n fun _ => st')).hasThrown w.call := by
  rw [hsound.journal, List.filter_append]
  congr 1
  · refine List.filter_congr fun w _ => ?_
    rw [hasThrown_proceed hn]
    split
    · next hw => rw [hw, hasThrown, hn, Option.any_some, hst, hst']
    · rfl
  · refine (List.filter_eq_self.2 fun w hw => ?_).symm
    rw [hasThrown_proceed hn, if_pos (hown w hw), hst']
    rfl

/-- The writes of a call that throws are not there any more. -/
theorem Sound.journal_of_thrown (hsound : Sound db₀ W s) (hn : s.calls.get n = some st)
    (hst' : st'.isThrown) : s.connection.data.filter (fun w => w.call ≠ n) = W.filter fun w =>
      !(Shared.mk c' (s.calls.update n fun _ => st')).hasThrown w.call := by
  rw [hsound.journal, List.filter_filter]
  refine List.filter_congr fun w _ => ?_
  rw [hasThrown_proceed hn]
  by_cases hw : w.call = n
  · simp [hw, hst']
  · simp [hw]

/-- A transaction is open while a call is in one. -/
theorem Sound.snapshots_ne_nil (hsound : Sound db₀ W s) (hn : s.calls.get n = some st)
    (hst : st.isInside) : s.connection.snapshots ≠ [] := by
  intro hnil
  have hle : (if st.isInside then 1 else 0 : ℤ) ≤
      s.calls.sum fun _ st => if st.isInside then 1 else 0 := by
    refine Table.le_sum (M := ℤ) (w := fun _ st => if st.isInside then 1 else 0)
      (fun _ st _ => ?_) hn
    split <;> decide
  rw [← hsound.depth, hnil, if_pos hst] at hle
  exact absurd hle (by decide)

/-- A statement of a call, at whatever stage. -/
theorem Sound.statement {α : Type} {x : Steps α} {p : Database × Steps α}
    (hsound : Sound db₀ W s) (hn : s.calls.get n = some st)
    (hst : st.isThrown = false) (hst' : st'.isThrown = false) (hinside : st'.isInside = st.isInside)
    (hadds : x.All Adds) (hx : x.step (view db₀ s.connection.data) = some p)
    (hstage : StageOk p.1 (W ++ (writeOf n (view db₀ s.connection.data) x).toList) n st') :
    Sound db₀ (W ++ (writeOf n (view db₀ s.connection.data) x).toList)
      ⟨s.connection.modify (· ++ (writeOf n (view db₀ s.connection.data) x).toList),
        s.calls.update n fun _ => st'⟩ := by
  have hview : view db₀ (s.connection.data ++ (writeOf n (view db₀ s.connection.data) x).toList) =
      p.1 := by rw [view_append, view_writeOf hx]
  have hown : ∀ w ∈ (writeOf n (view db₀ s.connection.data) x).toList, w.call = n := fun w hw =>
    call_writeOf hw
  obtain ⟨hdata, hrest⟩ := List.pairwise_cons.1 hsound.nested
  refine hsound.proceed hn hown (hsound.journal_of_kept hn hst hst' hown) ?_ ?_
    (fun id hid => ?_) ?_
  · refine List.pairwise_cons.2 ⟨fun outer houter => ?_, hrest⟩
    exact (hdata outer houter).trans (List.prefix_append _ _)
  · rw [hinside, Connection.snapshots_modify]
    omega
  · rw [Connection.data_modify, hview]
    exact present_step hadds hx hid
  · rw [Connection.data_modify, hview]
    exact hstage

/-- A step of a call that writes nothing. -/
theorem Sound.quiet (hsound : Sound db₀ W s) (hn : s.calls.get n = some st)
    (hst : st.isThrown = false) (hst' : st'.isThrown = false)
    (hdata : c'.data = s.connection.data)
    (hnested : (c'.data :: c'.snapshots).Pairwise fun inner outer => outer <+: inner)
    (hdepth : (c'.snapshots.length : ℤ) = s.connection.snapshots.length -
      (if st.isInside then 1 else 0) + if st'.isInside then 1 else 0)
    (hstage : StageOk (view db₀ s.connection.data) W n st') :
    Sound db₀ (W ++ []) ⟨c', s.calls.update n fun _ => st'⟩ := by
  refine hsound.proceed hn nofun ?_ hnested hdepth (fun id hid => ?_) ?_
  · rw [hdata, ← hsound.journal_of_kept hn hst hst' fun w hw => absurd hw List.not_mem_nil,
      List.append_nil]
  · rwa [hdata]
  · rwa [hdata, List.append_nil]

/-- The request is found again. -/
theorem step_reread (hid : Present db id) :
    (Steps.reread id).step db = some (db, .done ()) := by
  obtain ⟨r, hr⟩ := Option.ne_none_iff_exists'.1 hid
  have hfind : (Steps.findOrFail id).step db = some (db, .done r) := by
    rw [Steps.findOrFail, step_query, hr]
    rfl
  exact step_bind hfind fun _ => .done ()

/-- The last read of a call writes nothing, and it succeeds. -/
theorem effect_eq_none_of_responseOk {x : Steps Unit} {p : Database × Steps Unit}
    (hx : ResponseOk db x) (h : x.step db = some p) :
    writeOf n db x = none ∧ p.2 = .done () := by
  cases hx with
  | none => cases h
  | reread hid =>
    obtain rfl := Option.some.inj ((step_reread hid).symm.trans h)
    exact ⟨rfl, rfl⟩

/-- A step of a call, in which a rollback only undoes what the call has written
    itself. -/
theorem Sound.went (hsound : Sound db₀ W s) (hn : s.calls.get n = some st)
    (hok : ∀ e response, st = .inside (.raise e) response → OwnSince n s.connection)
    (h : Went db₀ n s.connection st c' st') :
    Sound db₀ (W ++ (st.write n (view db₀ s.connection.data)).toList)
      ⟨c', s.calls.update n fun _ => st'⟩ := by
  -- What the stage of the call says of it decides each case; the journal changes by a write
  -- or by a rollback only.
  have hstage := hsound.stages n st hn
  have hnested := nested_of_went h hsound.nested
  cases h with
  | start b =>
    obtain ⟨hbody, hnone⟩ := hstage
    refine hsound.quiet hn rfl rfl rfl hnested ?_ ?_
    · simp [Connection.startTransaction, CallStage.isInside]
    · exact ⟨hbody.adds, hbody.keeps, hbody.response,
        .inr fun w hw hwn => absurd hwn (hnone w hw)⟩
  | refuse e =>
    -- Before its transaction a call has not written anything.
    refine hsound.proceed hn (fun w hw => absurd hw List.not_mem_nil) ?_ hsound.nested
      (by simp [CallStage.isInside]) (fun _ hid => hid) trivial
    change _ = (W ++ []).filter _
    rw [List.append_nil, ← hsound.journal_of_thrown hn rfl]
    refine (List.filter_eq_self.2 fun w hw => decide_eq_true ?_).symm
    rw [hsound.journal] at hw
    exact hstage.2 w (List.mem_filter.1 hw).1
  | @read x p hx =>
    have hstep : x.step (view db₀ s.connection.data) = some (p.1, p.2) := hx
    obtain ⟨hdb, hnone, hrest'⟩ := hstage.1.step hstep
    have hwrite : writeOf n (view db₀ s.connection.data) x = none := by
      rw [writeOf, hnone]
      rfl
    change Sound db₀ (W ++ (writeOf n (view db₀ s.connection.data) x).toList) _
    rw [hwrite]
    exact hsound.quiet hn rfl rfl (List.append_nil _)
      (by simpa [Connection.modify] using hsound.nested) (by simp [CallStage.isInside])
      ⟨hrest', hstage.2⟩
  | commit hc =>
    -- What has been written stays, as a part of the transaction around it, if any.
    obtain ⟨snapshot, hsnapshots, hcdata⟩ := Connection.commitTransaction_eq_some.1 hc
    refine hsound.quiet hn rfl rfl hcdata hnested ?_ hstage.2.2.1
    simp [hsnapshots, CallStage.isInside]
  | @rollback e response c' hc =>
    -- The journal loses what the call has written, all of it and nothing else.
    have hsnapshots := Connection.rollbackTransaction_eq_some.1 hc
    obtain ⟨own, hown, hmine, hothers⟩ := hok e response rfl _ _ hsnapshots
    refine hsound.proceed hn (fun w hw => absurd hw List.not_mem_nil) ?_ hnested
      (by simp [hsnapshots, CallStage.isInside]) (fun id hid => ?_) trivial
    · change _ = (W ++ []).filter _
      rw [List.append_nil, ← hsound.journal_of_thrown hn rfl, hown, List.filter_append,
        List.filter_eq_self.2 fun w hw => decide_eq_true (hothers w hw),
        List.filter_eq_nil_iff.2 fun w hw => by simp [hmine w hw], List.append_nil]
    · -- What is undone has added no request.
      rw [hown, view_append] at hid
      refine (present_view fun w hw => ?_).2 hid
      refine (hstage.2.2.2.resolve_left nofun) w ?_ (hmine w hw)
      have hmem : w ∈ s.connection.data := hown ▸ List.mem_append_right _ hw
      rw [hsound.journal] at hmem
      exact (List.mem_filter.1 hmem).1
  | lost hnil => exact absurd hnil (hsound.snapshots_ne_nil hn rfl)
  | @statement x response p hx =>
    obtain ⟨hadds, hkeeps, hresponse, hown⟩ := hstage
    refine hsound.statement hn rfl rfl rfl hadds hx
      ⟨hadds.step hx, hkeeps.step hx, ?_, ?_⟩
    · rcases hresponse with _ | hid
      · exact .none
      · exact .reread (present_step hadds hx hid)
    · -- Only the last statement may add a request: until then nothing that others
      -- might read again can be undone.
      by_cases hdone : ∃ u, p.2 = .done u
      · exact .inl hdone
      · refine .inr fun w hw hwn => ?_
        rcases List.mem_append.1 hw with hw | hw
        · refine hown.resolve_left ?_ w hw hwn
          rintro ⟨u, rfl⟩
          cases hx
        · exact (keeps_writeOf hkeeps hx hw).resolve_left hdone
  | «return» =>
    exact hsound.quiet hn rfl rfl rfl hsound.nested (by simp [CallStage.isInside]) trivial
  | refuseResponse e => nomatch hstage
  | @reread x p hx =>
    obtain ⟨hwrite, hdone⟩ := effect_eq_none_of_responseOk (n := n) hstage hx
    change Sound db₀ (W ++ (writeOf n (view db₀ s.connection.data) x).toList) _
    rw [hwrite]
    refine hsound.quiet hn rfl rfl (List.append_nil _)
      (by simpa [Connection.modify] using hsound.nested) (by simp [CallStage.isInside]) ?_
    rw [hdone]
    exact .none

/-- In the beginning nothing has been written. -/
theorem sound_start : Sound db₀ [] start where
  journal := rfl
  nested := List.pairwise_singleton _ _
  depth := rfl
  stages _ _ h := nomatch h
  made _ h := absurd h List.not_mem_nil

theorem Sound.call_ne (hsound : Sound db₀ W s) {w : Write} (hw : w ∈ W) :
    w.call ≠ s.calls.nextId := by
  obtain ⟨st, hst⟩ := hsound.made w hw
  exact (Table.lt_nextId hst).ne

/-- A call that is made has not written anything. -/
theorem Sound.invoke (hsound : Sound db₀ W s) (op : Operation) :
    Sound db₀ W { s with calls := s.calls.insert (.before op.script) } where
  journal := by
    rw [hsound.journal]
    refine List.filter_congr fun w hw => ?_
    rw [hasThrown, hasThrown, Table.get_insert, if_neg (hsound.call_ne hw)]
  nested := hsound.nested
  depth := by
    rw [Table.sum_insert, ← hsound.depth]
    exact (add_zero _).symm
  stages n st hn := by
    rcases Table.get_insert_eq_some.1 hn with ⟨rfl, rfl⟩ | hn
    · exact ⟨ensures_script op _, fun w hw => hsound.call_ne hw⟩
    · exact hsound.stages n st hn
  made w hw := by
    obtain ⟨st, hst⟩ := hsound.made w hw
    exact ⟨st, Table.get_insert_of_some hst⟩

/-- A step keeps the journal. -/
theorem Sound.step (hsound : Sound db₀ W s) (hok : RollsBackOwn s a)
    (hnext : step db₀ s a = some s') : Sound db₀ (W ++ (writing db₀ (s, a)).toList) s' := by
  cases a with
  | invoke op =>
    obtain rfl := Option.some.inj hnext
    change Sound db₀ (W ++ []) _
    rw [List.append_nil]
    exact hsound.invoke op
  | proceed n =>
    obtain ⟨st, hn, hnext⟩ := Option.bind_eq_some_iff.1 hnext
    obtain ⟨⟨c', st'⟩, hgo, rfl⟩ := Option.map_eq_some_iff.1 hnext
    rw [writing, hn, Option.bind_some]
    exact hsound.went hn (fun e response hst => hok n e response rfl (hst ▸ hn)) (goOn_went hgo)

variable {hist : List (Shared × SharedAction)}

/-- The journal is right after every run in which each rollback undoes only its
    own. -/
theorem sound_of_run (hrun : Run (Shared.step db₀) RollsBackOwn start hist s) :
    Sound db₀ (executed db₀ hist) s :=
  hrun.history (I := fun hist s => Sound db₀ (executed db₀ hist) s) sound_start
    fun hist s a s' _ hsound hok hnext => by
      rw [executed, filterMap_snoc]
      exact hsound.step hok hnext

/-- If every rollback is one of what the call itself has written, then once all
    calls have finished, no transaction is open, and what has been committed is
    what has been written by the calls that have returned, in order. -/
theorem committed_of_run (hrun : Run (Shared.step db₀) RollsBackOwn start hist s)
    (hfinished : ∀ n st, s.calls.get n = some st → st.isFinished) :
    s.connection.snapshots = [] ∧
      s.connection.committed = (executed db₀ hist).filter fun w => s.hasReturned w.call := by
  have hsound := sound_of_run hrun
  -- As many transactions are open as there are calls in one.
  have hnil : s.connection.snapshots = [] := by
    have hzero : (s.calls.sum fun _ st => if st.isInside then 1 else 0 : ℤ) = 0 := by
      refine Table.sum_eq_zero fun n st hn => ?_
      have hst := hfinished n st hn
      cases st <;> first | rfl | cases hst
    have hdepth := hsound.depth
    rw [hzero] at hdepth
    exact List.length_eq_zero_iff.1 (by exact_mod_cast hdepth)
  refine ⟨hnil, ?_⟩
  rw [Connection.committed_of_snapshots_eq_nil hnil, hsound.journal]
  refine List.filter_congr fun w hw => ?_
  -- A call that has finished has thrown if it has not returned.
  obtain ⟨st, hst⟩ := hsound.made w hw
  have hfinished := hfinished w.call st hst
  rw [hasThrown, hasReturned, hst, Option.any_some, Option.any_some]
  cases st <;> first | rfl | cases hfinished

/-! ## Samples -/

/-- An open transaction has started from what is there, or from a part of it. -/
theorem nested_of_run {ok : Shared → SharedAction → Prop}
    (hrun : Run (Shared.step db₀) ok start hist s) :
    (s.connection.data :: s.connection.snapshots).Pairwise fun inner outer => outer <+: inner := by
  refine hrun.invariant (I := fun s => (s.connection.data :: s.connection.snapshots).Pairwise
    fun inner outer => outer <+: inner) (List.pairwise_singleton _ _) fun s a s' hs _ hnext => ?_
  cases a with
  | invoke op =>
    obtain rfl := Option.some.inj hnext
    exact hs
  | proceed n =>
    obtain ⟨st, _, hnext⟩ := Option.bind_eq_some_iff.1 hnext
    obtain ⟨⟨c', st'⟩, hgo, rfl⟩ := Option.map_eq_some_iff.1 hnext
    exact nested_of_went (goOn_went hgo) hs

/-- The step is no rollback, or what has been written since the innermost
    transaction has started has been written by the call that rolls back, and
    nothing before. -/
def undoesOwn (x : Shared × SharedAction) : Bool :=
  match x.2 with
  | .invoke _ => true
  | .proceed n =>
    match x.1.calls.get n with
    | some (.inside (.raise _) _) => x.1.connection.snapshots.head?.all fun snapshot =>
      snapshot.all (·.call ≠ n) && (x.1.connection.data.drop snapshot.length).all (·.call = n)
    | _ => true

/-- What is undone is read off the journal: the writes after the innermost
    snapshot. -/
theorem rollsBackOwn_of_undoesOwn
    (hnested : (s.connection.data :: s.connection.snapshots).Pairwise
      fun inner outer => outer <+: inner)
    (h : undoesOwn (s, a)) : RollsBackOwn s a := by
  rintro n e response rfl hn snapshot rest hsnapshots
  rw [undoesOwn] at h
  simp only [hn, hsnapshots, List.head?_cons, Option.all_some, Bool.and_eq_true, List.all_eq_true,
    decide_eq_true_eq] at h
  have hprefix : snapshot <+: s.connection.data :=
    (List.pairwise_cons.1 hnested).1 snapshot (hsnapshots ▸ List.mem_cons_self)
  obtain ⟨own, hown⟩ := hprefix
  rw [← hown, List.drop_left] at h
  exact ⟨own, hown.symm, h.2, h.1⟩

/-- An employee asks for two days, and another one, who has no balance, too. -/
def sampleOperations : List SharedAction :=
  [.invoke (.submitRequest 0 ⟨sampleKey, .ofDay 0, .ofDay 1⟩ sampleEmployee),
    .invoke (.submitRequest 0 ⟨{ sampleKey with employeeId := 0 }, .ofDay 0, .ofDay 1⟩
      ⟨0, .employee, none⟩)]

/-- The call `n` goes on, `k` times. -/
def proceeds (n k : ℕ) : List SharedAction := List.replicate k (.proceed n)

/-- A request is cancelled twice. The second call releases the days once more
    before it finds the request cancelled, in a savepoint of another submission. -/
def earlyRollback : List SharedAction :=
  let submit : SharedAction :=
    .invoke (.submitRequest 0 ⟨sampleKey, .ofDay 0, .ofDay 1⟩ sampleEmployee)
  let cancel : SharedAction := .invoke (.callRequest 0 .cancel 0 sampleEmployee)
  [submit] ++ proceeds 0 7 ++ [cancel, cancel] ++ proceeds 2 1 ++ proceeds 1 8 ++ [submit] ++
    proceeds 3 4 ++ proceeds 2 4 ++ proceeds 3 3

/-- A run in which a call has written when it is rolled back, and another one
    returns. -/
theorem committed_of_run_earlyRollback : ∃ s : Shared, s.hasReturned 3 ∧ s.hasThrown 2 ∧
    (executed (sampleDb 10) (trace (Shared.step (sampleDb 10)) start earlyRollback)).any
      (·.call = 2) ∧
    s.connection.snapshots = [] ∧ s.connection.committed =
      (executed (sampleDb 10) (trace (Shared.step (sampleDb 10)) start earlyRollback)).filter
        fun w => s.hasReturned w.call := by
  have hexec : ∃ s ∈ exec (Shared.step (sampleDb 10)) start earlyRollback,
      (s.hasReturned 3 ∧ s.hasThrown 2) ∧ s.calls.rows.all (·.2.isFinished) := by decide +kernel
  have hwritten : (executed (sampleDb 10) (trace (Shared.step (sampleDb 10)) start
      earlyRollback)).any (·.call = 2) := by decide +kernel
  have hown : ∀ x ∈ trace (Shared.step (sampleDb 10)) start earlyRollback, undoesOwn x := by
    decide +kernel
  obtain ⟨s, hs, ⟨hreturned, hthrown⟩, hfinished⟩ := hexec
  have hany : Run (Shared.step (sampleDb 10)) (fun _ _ => True) start _ s :=
    run_of_exec (fun _ _ => trivial) hs
  have hrun : Run (Shared.step (sampleDb 10)) (fun s a => True ∧ RollsBackOwn s a) start
      (trace (Shared.step (sampleDb 10)) start earlyRollback) s := by
    refine hany.and fun x hx => ?_
    obtain ⟨_, _, hbefore, _⟩ := hany.of_mem hx
    exact rollsBackOwn_of_undoesOwn (nested_of_run hbefore) (hown x hx)
  have hcommitted := committed_of_run (hrun.mono fun _ _ h => h.2) fun n st hn =>
    List.all_eq_true.1 hfinished (n, st) (Table.mem_rows.2 hn)
  exact ⟨s, hreturned, hthrown, hwritten, hcommitted⟩

/-- The second starts a savepoint in the transaction of the first, which
    releases it by its commit, and rolls this transaction back when it throws. -/
def lateRollback : List SharedAction :=
  sampleOperations ++ proceeds 0 1 ++ proceeds 1 1 ++ proceeds 0 6 ++ proceeds 1 3

/-- The first call has returned, and what it has written is lost. -/
theorem writes_lost : ∃ s ∈ Transition.exec (Shared.step (sampleDb 10)) start lateRollback,
    s.hasReturned 0 ∧ s.hasThrown 1 ∧ s.connection.committed.length = 0 ∧
    ((executed (sampleDb 10) (trace (Shared.step (sampleDb 10)) start lateRollback)).filter
      fun w => s.hasReturned w.call).length = 2 := by
  decide +kernel

end Shared

end TimeOff
