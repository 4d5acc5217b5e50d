import TimeOff.Correspondence
import TimeOff.Stranded

/-!
# Ticks

`tick` of the `OutboxProcessor` as it is written: a loop over the events that
are due, with `processEvent` and its `try` and `catch` for each of them. How
long its statements and calls take, and what becomes of them, is given with
its *course* (`Course`).

`TimeOff.System` takes a tick apart at everything it awaits, so that others
come between. A tick that is left alone is one of its runs (`tick_run`), and
settles what it has fetched: each of the ten oldest due events is `DONE`
afterwards or has one failure more, and the others are as they were
(`tick_settles`).
-/

namespace TimeOff

open Transaction Transition

/-- What a tick works on. -/
structure World where
  db : Database
  hcm : HcmState
  now : Instant

/-- What is awaited takes `ms` milliseconds, and `outcome` becomes of it. -/
structure Fate where
  ms : ℕ
  outcome : Outcome

/-- The fate of what a tick awaits: of its claims, by the event, and of the
    steps of its handlers, by the event and by what the handler is about to do. -/
structure Course where
  claim : ℕ → Fate
  handle : ℕ → Phase → Fate

/-- Time passes. -/
def World.wait (w : World) (f : Fate) : World := { w with now := w.now + f.ms }

/-! ## The processor -/

section
variable (cfg : Config) (fate : Phase → Fate) (id : ℕ) (event : OutboxEvent) (w : World)

/-- `hcmClient.deductBalance` for an event: the id that is answered, or `none`
    if it throws. -/
def awaitDeduction (f : Fate) : Option String × World :=
  let w := w.wait f
  match event.payload with
  | none => (none, w)
  | some payload =>
    if f.outcome = .throws then (none, w)
    else
      match w.hcm.deductBalance payload.toBalanceKey payload.days (some (idempotencyKey id))
          w.now with
      | .ok (hcmRequestId, hcm) =>
        (if f.outcome = .ok then some hcmRequestId else none, { w with hcm := hcm })
      | .error _ => (none, w)

/-- `hcmClient.reverseDeduction`: whether it returns. It ignores a 404. -/
def awaitReversal (hcmRequestId : String) (f : Fate) : Bool × World :=
  let w := w.wait f
  if f.outcome = .throws then (false, w)
  else
    match w.hcm.reverseDeduction hcmRequestId with
    | .ok hcm => (f.outcome = .ok, { w with hcm := hcm })
    | .error (.notFound _) => (f.outcome = .ok, w)
    | .error (.unprocessable _) => (false, w)

/-- `processDeductEvent`: whether it returns, or throws. -/
def processDeductEvent : Bool × World :=
  match awaitDeduction id event w (fate .deductBalance) with
  | (none, w) => (false, w)
  | (some hcmRequestId, w) =>
    let f := fate (.completeDeduction hcmRequestId)
    let w := w.wait f
    if f.outcome ≠ .ok then (false, w)
    else
      match (deductTransaction id event hcmRequestId).run (.start w.db) with
      | .ok _ t => (true, { w with db := t.db })
      | .error _ _ => (false, w)

/-- `processReverseEvent`: whether it returns, or throws. -/
def processReverseEvent : Bool × World :=
  let f := fate .readHcmRequestId
  let w := w.wait f
  if f.outcome ≠ .ok then (false, w)
  else
    match HcmState.truthy ((w.db.requests.get event.requestId).bind (·.hcmRequestId)) with
    | none => (false, w)
    | some hcmRequestId =>
      match awaitReversal w hcmRequestId (fate (.reverseDeduction hcmRequestId)) with
      | (false, w) => (false, w)
      | (true, w) =>
        let f := fate .markDone
        let w := w.wait f
        if f.outcome ≠ .ok then (false, w)
        else (true, { w with db := w.db.updateEvent id (·.setStatus .done) })

/-- The `catch` of `processEvent`: whether `handleEventFailure` returns. -/
def catchEventFailure (f : Fate) : Bool × World :=
  let w := w.wait f
  if f.outcome ≠ .ok then (false, w)
  else
    match (handleEventFailure cfg w.now id event).run (.start w.db) with
    | .ok _ t => (true, { w with db := t.db })
    | .error _ _ => (false, w)

/-- `processEvent`: whether it returns, or throws. -/
def processEvent : Bool × World :=
  let r :=
    match event.eventType with
    | .hcmDeduct => processDeductEvent fate id event w
    | .hcmReverse => processReverseEvent fate id event w
  if r.1 then r else catchEventFailure cfg id event r.2 (fate .handleEventFailure)

/-- The loop of a tick over the events it has fetched. What is thrown ends it. -/
def processEvents (c : Course) : List (ℕ × OutboxEvent) → World → World
  | [], w => w
  | (id, event) :: queue, w =>
    let w := w.wait (c.claim id)
    if (c.claim id).outcome ≠ .ok then w
    else
      match claimEvent w.db id with
      | none => processEvents c queue w
      | some db =>
        let r := processEvent cfg (c.handle id) id (event.setStatus .processing)
          { w with db := db }
        if r.1 then processEvents c queue r.2 else r.2

/-- `tick` -/
def tick (c : Course) : World := processEvents cfg c (fetchDue w.db w.now) w

end

/-! ## Handlers that run to their end -/

/-- A step of a handler, when what it awaits is there. -/
def Handler.next (cfg : Config) (fate : Phase → Fate) (h : Handler) (w : World) :
    Progress × World :=
  let w := w.wait (fate h.phase)
  let (db, hcm, p) := h.step cfg w.now w.db w.hcm (fate h.phase).outcome
  (p, { w with db := db, hcm := hcm })

/-- The handler runs to its end without an interruption: whether it has
    recorded its outcome, and what it leaves. -/
inductive Handler.Runs (cfg : Config) (fate : Phase → Fate) :
    Handler → World → Bool × World → Prop
  | finish {h : Handler} {w w' : World} : h.next cfg fate w = (.finished, w') →
      Runs cfg fate h w (true, w')
  | abort {h : Handler} {w w' : World} : h.next cfg fate w = (.aborted, w') →
      Runs cfg fate h w (false, w')
  | proceed {h : Handler} {w w' : World} {phase : Phase} {r : Bool × World} :
      h.next cfg fate w = (.running phase, w') → Runs cfg fate { h with phase := phase } w' r →
      Runs cfg fate h w r

variable {cfg : Config} {fate : Phase → Fate} {id : ℕ} {event : OutboxEvent} {w w' : World}
  {h : Handler}

@[simp] theorem db_wait (w : World) (f : Fate) : (w.wait f).db = w.db := rfl
@[simp] theorem hcm_wait (w : World) (f : Fate) : (w.wait f).hcm = w.hcm := rfl
@[simp] theorem now_wait (w : World) (f : Fate) : (w.wait f).now = w.now + f.ms := rfl

/-- The catch block of `processEvent` is a run of the handler. -/
theorem runs_catch (w : World) : Handler.Runs cfg fate ⟨id, event, .handleEventFailure⟩ w
    (catchEventFailure cfg id event w (fate .handleEventFailure)) := by
  rw [catchEventFailure]
  by_cases hok : (fate .handleEventFailure).outcome = .ok
  · rw [if_neg (not_not.2 hok)]
    cases hrun : (handleEventFailure cfg (w.wait (fate .handleEventFailure)).now id event).run
        (.start (w.wait (fate .handleEventFailure)).db) with
    | ok u t => exact .finish (by simp only [Handler.next, Handler.step, hok, hrun]; rfl)
    | error e t => exact .abort (by simp only [Handler.next, Handler.step, hok, hrun]; rfl)
  · rw [if_pos hok]
    exact .abort (by simp only [Handler.next, Handler.step, ne_eq, hok, not_false_iff, if_true])

/-- What is thrown is caught. -/
theorem runs_throw {phase : Phase} (hnext : Handler.next cfg fate ⟨id, event, phase⟩ w =
    (.running .handleEventFailure, w')) : Handler.Runs cfg fate ⟨id, event, phase⟩ w
      (catchEventFailure cfg id event w' (fate .handleEventFailure)) :=
  .proceed hnext (runs_catch w')

/-- What comes after the call of a deduction. -/
theorem next_deductBalance (cfg : Config) (fate : Phase → Fate) (id : ℕ) (event : OutboxEvent)
    (w : World) : Handler.next cfg fate ⟨id, event, .deductBalance⟩ w =
    (.running ((awaitDeduction id event w (fate .deductBalance)).1.elim .handleEventFailure
      .completeDeduction), (awaitDeduction id event w (fate .deductBalance)).2) := by
  rw [awaitDeduction]
  cases hpayload : event.payload with
  | none =>
    simp only [Handler.next, Handler.step, Handler.callDeduct, hpayload]
    split <;> rfl
  | some payload =>
    by_cases hthrows : (fate .deductBalance).outcome = .throws
    · simp only [Handler.next, Handler.step, hthrows, if_true]
      rfl
    · simp only [Handler.next, Handler.step, Handler.callDeduct, hpayload, hthrows, if_false]
      cases hd : (w.wait (fate .deductBalance)).hcm.deductBalance payload.toBalanceKey payload.days
          (some (idempotencyKey id)) (w.wait (fate .deductBalance)).now with
      | ok x =>
        simp only [respond]
        split <;> rfl
      | error e => rfl

/-- What comes after the call of a reversal. -/
theorem next_reverseDeduction (cfg : Config) (fate : Phase → Fate) (id : ℕ) (event : OutboxEvent)
    (w : World) (hcmRequestId : String) :
    Handler.next cfg fate ⟨id, event, .reverseDeduction hcmRequestId⟩ w =
      (.running (if (awaitReversal w hcmRequestId (fate (.reverseDeduction hcmRequestId))).1
        then .markDone else .handleEventFailure),
        (awaitReversal w hcmRequestId (fate (.reverseDeduction hcmRequestId))).2) := by
  rw [awaitReversal]
  by_cases hthrows : (fate (.reverseDeduction hcmRequestId)).outcome = .throws
  · simp only [Handler.next, Handler.step, hthrows, if_true]
    rfl
  · simp only [Handler.next, Handler.step, Handler.callReverse, hthrows, if_false, hcm_wait]
    cases hr : w.hcm.reverseDeduction hcmRequestId with
    | ok hcm => simp only [respond, decide_eq_true_eq]
    | error e =>
      cases e with
      | notFound m => simp only [respond, decide_eq_true_eq]; rfl
      | unprocessable m => rfl

/-- The handler of a deduction runs as `processDeductEvent` does. -/
theorem runs_deduct : Handler.Runs cfg fate ⟨id, event, .deductBalance⟩ w
    (if (processDeductEvent fate id event w).1 then processDeductEvent fate id event w
      else catchEventFailure cfg id event (processDeductEvent fate id event w).2
        (fate .handleEventFailure)) := by
  have hnext := next_deductBalance cfg fate id event w
  -- The call of the HCM, then the transaction; whatever throws first leads to the catch
  -- block.
  rw [processDeductEvent]
  generalize awaitDeduction id event w (fate .deductBalance) = x at hnext ⊢
  obtain ⟨o, w₁⟩ := x
  cases o with
  | none => exact runs_throw hnext
  | some hcmRequestId =>
    have hnext : Handler.next cfg fate ⟨id, event, .deductBalance⟩ w =
      (.running (.completeDeduction hcmRequestId), w₁) := hnext
    refine .proceed hnext ?_
    by_cases hok : (fate (.completeDeduction hcmRequestId)).outcome = .ok
    · simp only [hok, ne_eq, not_true, if_false]
      cases hrun : (deductTransaction id event hcmRequestId).run (.start w₁.db) with
      | ok u t =>
        simp only [db_wait, hrun, if_true]
        exact .finish (by simp only [Handler.next, Handler.step, hok, db_wait, hrun]; rfl)
      | error e t =>
        simp only [db_wait, hrun]
        exact runs_throw (by simp only [Handler.next, Handler.step, hok, db_wait, hrun]; rfl)
    · simp only [hok, ne_eq, not_false_iff, if_true]
      exact runs_throw (by
        simp only [Handler.next, Handler.step, ne_eq, hok, not_false_iff, if_true])

/-- The handler of a reversal runs as `processReverseEvent` does. -/
theorem runs_reverse : Handler.Runs cfg fate ⟨id, event, .readHcmRequestId⟩ w
    (if (processReverseEvent fate id event w).1 then processReverseEvent fate id event w
      else catchEventFailure cfg id event (processReverseEvent fate id event w).2
        (fate .handleEventFailure)) := by
  -- The read of the id, the call of the HCM, then the mark.
  rw [processReverseEvent]
  by_cases hread : (fate .readHcmRequestId).outcome = .ok
  · simp only [hread, ne_eq, not_true, if_false, db_wait]
    cases hsel : HcmState.truthy ((w.db.requests.get event.requestId).bind (·.hcmRequestId)) with
    | none =>
      exact runs_throw (by
        simp only [Handler.next, Handler.step, Handler.selectHcmRequestId, hread, db_wait, hsel]
        rfl)
    | some hcmRequestId =>
      have hnext := next_reverseDeduction cfg fate id event (w.wait (fate .readHcmRequestId))
        hcmRequestId
      have hfound : Handler.next cfg fate ⟨id, event, .readHcmRequestId⟩ w =
          (.running (.reverseDeduction hcmRequestId), w.wait (fate .readHcmRequestId)) := by
        simp only [Handler.next, Handler.step, Handler.selectHcmRequestId, hread, db_wait, hsel]
        rfl
      refine .proceed hfound ?_
      rcases hx : awaitReversal (w.wait (fate .readHcmRequestId)) hcmRequestId
        (fate (.reverseDeduction hcmRequestId)) with ⟨b, w₁⟩
      simp only [hx] at hnext ⊢
      cases b with
      | false => exact runs_throw hnext
      | true =>
        have hnext : Handler.next cfg fate ⟨id, event, .reverseDeduction hcmRequestId⟩
          (w.wait (fate .readHcmRequestId)) = (.running .markDone, w₁) := hnext
        refine .proceed hnext ?_
        by_cases hdone : (fate .markDone).outcome = .ok
        · simp only [hdone, not_true, if_false]
          exact .finish (by simp only [Handler.next, Handler.step, hdone]; rfl)
        · simp only [hdone, not_false_iff, if_true]
          exact runs_throw (by
            simp only [Handler.next, Handler.step, ne_eq, hdone, not_false_iff, if_true])
  · simp only [hread, ne_eq, not_false_iff, if_true]
    exact runs_throw (by
      simp only [Handler.next, Handler.step, ne_eq, hread, not_false_iff, if_true])

/-- The handler that is started for an event runs as `processEvent` does. -/
theorem processEvent_runs (id : ℕ) (event : OutboxEvent) (w : World) :
    (Handler.start id event).Runs cfg fate w
      (processEvent cfg fate id (event.setStatus .processing) w) := by
  obtain ⟨eventType, payload, status, attempts, nextRetryAt, requestId, createdAt⟩ := event
  cases eventType with
  | hcmDeduct => exact runs_deduct
  | hcmReverse => exact runs_reverse

/-! ## A tick that is left alone -/

/-- The step is one of the tick `i`, as its course has it, or time passes. The
    tick claims what it has fetched. -/
inductive Course.Step (c : Course) (i : ℕ) (s : State) : Action → Prop
  | advance (ms : ℕ) : c.Step i s (.advance ms)
  | tick : s.ticks.nextId = i → c.Step i s .tick
  | claim {id : ℕ} {event : OutboxEvent} {queue : List (ℕ × OutboxEvent)} :
      s.ticks.get i = some ⟨(id, event) :: queue, none⟩ → s.db.outbox.get id = some event →
      c.Step i s (.claim i (c.claim id).outcome)
  | handle {h : Handler} : s.handler i = some h →
      c.Step i s (.handle i (c.handle h.id h.phase).outcome)

namespace State

/-- What a tick that starts now works on. -/
def world (s : State) : World := ⟨s.db, s.hcm, s.now⟩

/-- The tick `i` has got to `t`, and its work to `w`. -/
def withTick (s : State) (i : ℕ) (t : Tick) (w : World) : State :=
  { s with db := w.db, hcm := w.hcm, now := w.now, ticks := s.ticks.update i fun _ => t }

end State

variable {c : Course} {s : State} {i : ℕ} {t t' t₀ : Tick} {queue : List (ℕ × OutboxEvent)}
  {r : Bool × World}

theorem get_withTick (ht : s.ticks.get i = some t₀) :
    (s.withTick i t w).ticks.get i = some t := Table.get_update_self ht

theorem handler_withTick (ht : s.ticks.get i = some t₀) :
    (s.withTick i t w).handler i = t.handler := by
  rw [State.handler, get_withTick ht, Option.bind_some]

/-- The tick goes on in the new world. -/
theorem update_withTick (w' : World) (f : Tick → Tick) : { (s.withTick i t w) with
    db := w'.db, hcm := w'.hcm, now := w'.now
    ticks := (s.withTick i t w).ticks.update i f } = s.withTick i (f t) w' := by
  have hticks : (s.ticks.update i fun _ => t).update i f = s.ticks.update i fun _ => f t := by
    refine Table.ext_get rfl (funext fun j => ?_)
    simp only [Table.get_update]
    split
    · rw [Option.map_map]
      rfl
    · rfl
  simp only [State.withTick, hticks]

/-- Time passes until what is awaited is there. -/
theorem step_wait (f : Fate) :
    step cfg (s.withTick i t w) (.advance f.ms) = some (s.withTick i t (w.wait f)) := rfl

theorem next_eq {p : Progress} (hnext : h.next cfg fate w = (p, w')) :
    h.step cfg (w.wait (fate h.phase)).now w.db w.hcm (fate h.phase).outcome =
      (w'.db, w'.hcm, p) ∧ w'.now = (w.wait (fate h.phase)).now := by
  obtain ⟨rfl, rfl⟩ := Prod.mk.inj hnext
  exact ⟨rfl, rfl⟩

/-- A step of the handler of the tick. -/
theorem run_next {p : Progress} (queue : List (ℕ × OutboxEvent)) (ht : s.ticks.get i = some t₀)
    (hnext : h.next cfg (c.handle h.id) w = (p, w')) : ∃ hist, Run (step cfg) (c.Step i)
      (s.withTick i ⟨queue, some h⟩ w) hist (s.withTick i (Tick.goOn p ⟨queue, some h⟩) w') := by
  obtain ⟨hstep, hnow⟩ := next_eq hnext
  let s' := s.withTick i ⟨queue, some h⟩ (w.wait (c.handle h.id h.phase))
  have hget : s'.ticks.get i = some ⟨queue, some h⟩ := get_withTick ht
  have hstep : h.step cfg s'.now s'.db s'.hcm (c.handle h.id h.phase).outcome =
    (w'.db, w'.hcm, p) := hstep
  have hnow : s'.now = w'.now := hnow.symm
  have hwait : Run (step cfg) (c.Step i) (s.withTick i ⟨queue, some h⟩ w) _ s' :=
    .step .init (.advance _) (step_wait (c.handle h.id h.phase))
  refine ⟨_, .step hwait (.handle (handler_withTick ht)) ?_⟩
  simp only [step, hget, hstep]
  rw [hnow]
  exact congrArg some (update_withTick w' _)

/-- The handler of the tick runs to its end. -/
theorem runs_run (queue : List (ℕ × OutboxEvent)) (ht : s.ticks.get i = some t₀)
    (hruns : h.Runs cfg (c.handle h.id) w r) : ∃ hist, Run (step cfg) (c.Step i)
      (s.withTick i ⟨queue, some h⟩ w) hist
      (s.withTick i ⟨if r.1 then queue else [], none⟩ r.2) := by
  generalize hfate : c.handle h.id = fate at hruns
  induction hruns with
  | finish hnext => exact run_next queue ht (hfate ▸ hnext)
  | abort hnext => exact run_next queue ht (hfate ▸ hnext)
  | proceed hnext _ ih =>
    obtain ⟨hist, hrun⟩ := run_next queue ht (hfate ▸ hnext)
    obtain ⟨hist', hrun'⟩ := ih hfate
    exact ⟨_, hrun.append hrun'⟩

/-! ## What a tick does to the outbox -/

/-- What an event becomes that is processed between `t₀` and `t₁`: it is
    `DONE`, or a failure of it has been recorded. -/
def OutboxEvent.Settles (cfg : Config) (t₀ t₁ : Instant) (e e' : OutboxEvent) : Prop :=
  e' = e.setStatus .done ∨
    ∃ now, t₀ ≤ now ∧ now ≤ t₁ ∧ e' = e.recordFailure cfg now (e.attempts + 1)

/-- The events are in the outbox as they have been fetched, waiting, and have
    been fetched once. -/
structure FreshQueue (outbox : Table OutboxEvent) (queue : List (ℕ × OutboxEvent)) : Prop where
  rows : ∀ q ∈ queue, outbox.get q.1 = some q.2
  pending : ∀ q ∈ queue, q.2.status = .pending
  nodup : (queue.map Prod.fst).Nodup

variable {db db' : Database} {hcm hcm' : HcmState} {now : Instant} {e : OutboxEvent}

/-- A handler that goes on has not touched the outbox. -/
theorem Handled.outbox_running {phase : Phase}
    (hh : Handled cfg now db hcm h db' hcm' (.running phase)) : db'.outbox = db.outbox := by
  generalize hp : Progress.running phase = p at hh
  cases hh with
  | completed _ _ | marked _ | recorded _ _ | aborted _ => cases hp
  | _ => rfl

/-- Nor has one that is given up. -/
theorem Handled.outbox_aborted (hh : Handled cfg now db hcm h db' hcm' .aborted) :
    db'.outbox = db.outbox := by
  generalize hp : Progress.aborted = p at hh
  cases hh with
  | aborted _ => rfl
  | _ => cases hp

/-- A handler that finishes records the outcome of its event. -/
theorem Handled.outbox_finished (hh : Handled cfg now db hcm h db' hcm' .finished) :
    db'.outbox = db.outbox.update h.id (·.setStatus .done) ∨
      db'.outbox = db.outbox.update h.id (·.recordFailure cfg now (h.event.attempts + 1)) := by
  generalize hp : Progress.finished = p at hh
  cases hh with
  | completed _ hrun => exact .inl (outbox_deductTransaction hrun)
  | marked _ => exact .inl rfl
  | recorded _ hrun => exact .inr (outbox_handleEventFailure hrun)
  | _ => cases hp

theorem next_handled {p : Progress} (hnext : h.next cfg fate w = (p, w')) :
    Handled cfg w'.now w.db w.hcm h w'.db w'.hcm p ∧ w.now ≤ w'.now := by
  obtain ⟨hstep, hnow⟩ := next_eq hnext
  rw [hnow]
  exact ⟨Handler.step_handled hstep, le_add_of_nonneg_right (Int.natCast_nonneg _)⟩

/-- A handler that runs to its end leaves the other events alone, and its own
    one settled if it returns. -/
theorem Handler.Runs.outbox (hruns : h.Runs cfg fate w r) : w.now ≤ r.2.now ∧
    if r.1 then ∃ f, r.2.db.outbox = w.db.outbox.update h.id f ∧
      ∀ e : OutboxEvent, e.attempts = h.event.attempts → e.Settles cfg w.now r.2.now (f e)
    else r.2.db.outbox = w.db.outbox := by
  -- On the steps of the handler. Only the last one writes to the outbox, and only the row
  -- of its event.
  induction hruns with
  | finish hnext =>
    obtain ⟨hh, hle⟩ := next_handled hnext
    refine ⟨hle, ?_⟩
    rcases hh.outbox_finished with hout | hout
    · exact ⟨_, hout, fun e _ => .inl rfl⟩
    · exact ⟨_, hout, fun e he => .inr ⟨_, hle, le_rfl, by rw [he]⟩⟩
  | abort hnext =>
    obtain ⟨hh, hle⟩ := next_handled hnext
    exact ⟨hle, hh.outbox_aborted⟩
  | @proceed h w w₁ phase r hnext _ ih =>
    obtain ⟨hh, hle⟩ := next_handled hnext
    obtain ⟨hle', hout⟩ := ih
    rw [hh.outbox_running] at hout
    refine ⟨hle.trans hle', ?_⟩
    cases hr : r.1 with
    | false =>
      rw [hr] at hout
      exact hout
    | true =>
      rw [hr] at hout
      obtain ⟨f, hf, hsettles⟩ := hout
      refine ⟨f, hf, fun e he => ?_⟩
      rcases hsettles e he with hdone | ⟨now, hnow, hnow', hfailed⟩
      · exact .inl hdone
      · exact .inr ⟨now, hle.trans hnow, hnow', hfailed⟩

/-- What is fetched is as fresh as can be. -/
theorem fetchDue_fresh (db : Database) (now : Instant) :
    FreshQueue db.outbox (fetchDue db now) where
  rows q hq := (mem_fetchDue hq).1
  pending q hq := of_decide_eq_true (Bool.and_eq_true_iff.1 (mem_fetchDue hq).2).1
  nodup := by
    have hsub : ((db.outbox.rows.filter (·.2.isDue now)).map Prod.fst).Nodup :=
      (List.filter_sublist.map _).nodup Table.nodup_rows
    refine ((List.take_sublist _ _).map _).nodup ?_
    exact (((List.perm_insertionSort _ _).map _).nodup_iff).2 hsub

/-- The events that come after one that has been processed are as they were. -/
theorem FreshQueue.tail {outbox outbox' : Table OutboxEvent} {q : ℕ × OutboxEvent}
    (hfresh : FreshQueue outbox (q :: queue))
    (hout : ∀ j, j ≠ q.1 → outbox'.get j = outbox.get j) : FreshQueue outbox' queue := by
  obtain ⟨hq, hnodup⟩ := List.nodup_cons.1 hfresh.nodup
  refine ⟨fun q' hq' => ?_, fun q' hq' => hfresh.pending q' (List.mem_cons_of_mem _ hq'), hnodup⟩
  rw [hout q'.1 fun heq => hq (heq ▸ List.mem_map_of_mem hq')]
  exact hfresh.rows q' (List.mem_cons_of_mem _ hq')

theorem OutboxEvent.Approved.next {p : Progress} (he : e.Approved w.db.books)
    (hnext : h.next cfg fate w = (p, w')) : e.Approved w'.db.books := by
  have hmove : Move False w.db.books w'.db.books := move_handled (next_handled hnext).1
  exact he.move hmove

/-- What has been approved stays so while a handler runs. -/
theorem Handler.Runs.approved (hruns : h.Runs cfg fate w r) (he : e.Approved w.db.books) :
    e.Approved r.2.db.books := by
  induction hruns with
  | finish hnext => exact he.next hnext
  | abort hnext => exact he.next hnext
  | proceed hnext _ ih => exact ih (he.next hnext)

/-- A handler returns, if the database does not throw when it records a
    failure. -/
theorem Handler.Runs.returns (hruns : h.Runs cfg fate w r)
    (hok : (fate .handleEventFailure).outcome = .ok) (he : h.event.Approved w.db.books) :
    r.1 = true := by
  induction hruns with
  | finish _ => rfl
  | @abort h w w' hnext =>
    have hne : (h.step cfg (w.wait (fate h.phase)).now w.db w.hcm (fate h.phase).outcome).2.2 ≠
        .aborted :=
      step_ne_aborted (s := .start w.db w.hcm (w.wait (fate h.phase)).now) he
        fun hphase => hphase ▸ hok
    rw [(next_eq hnext).1] at hne
    exact absurd rfl hne
  | proceed hnext _ ih => exact ih (he.next hnext)

/-- The database does not throw in the claims of a tick, nor when it records a
    failure. Whatever else may throw. -/
structure Course.Reliable (c : Course) : Prop where
  claim : ∀ id, (c.claim id).outcome = .ok
  failure : ∀ id, (c.handle id .handleEventFailure).outcome = .ok

theorem claimEvent_of_pending (he : db.outbox.get id = some e) (hpending : e.status = .pending) :
    claimEvent db id = some (db.updateEvent id (·.setStatus .processing)) := by
  rw [claimEvent, Table.updateIf_eq_some.2 ⟨e, he, decide_eq_true hpending, rfl⟩]
  rfl

/-- The world in which an event has been claimed. -/
def World.claimed (w : World) (f : Fate) (id : ℕ) : World :=
  { w.wait f with db := w.db.updateEvent id (·.setStatus .processing) }

/-- The event at the head of the queue is claimed, and processed. -/
theorem processEvents_cons (cfg : Config) (hfresh : FreshQueue w.db.outbox ((id, event) :: queue))
    (hok : (c.claim id).outcome = .ok) : ∃ r, (Handler.start id event).Runs cfg (c.handle id)
      (w.claimed (c.claim id) id) r ∧ processEvents cfg c ((id, event) :: queue) w =
        if r.1 then processEvents cfg c queue r.2 else r.2 := by
  refine ⟨_, processEvent_runs id event _, ?_⟩
  have hclaim := claimEvent_of_pending (hfresh.rows _ List.mem_cons_self)
    (hfresh.pending _ List.mem_cons_self)
  rw [processEvents]
  simp only [hok, ne_eq, not_true, if_false, db_wait, hclaim]
  rfl

/-- The claim and the handler of an event leave the others alone. -/
theorem get_processed {f : Fate} (hruns : (Handler.start id event).Runs cfg fate (w.claimed f id) r)
    {j : ℕ} (hj : j ≠ id) : r.2.db.outbox.get j = w.db.outbox.get j := by
  have hclaimed : (w.claimed f id).db.outbox.get j = w.db.outbox.get j :=
    Table.get_update_of_ne hj
  have hout := hruns.outbox.2
  split at hout
  · obtain ⟨g, hg, _⟩ := hout
    rw [hg]
    exact (Table.get_update_of_ne hj).trans hclaimed
  · rw [hout, hclaimed]

/-- The event itself is settled. -/
theorem get_processed_self {f : Fate}
    (hruns : (Handler.start id event).Runs cfg fate (w.claimed f id) r) (hr : r.1 = true)
    (he : w.db.outbox.get id = some event) :
    ∃ e', r.2.db.outbox.get id = some e' ∧ event.Settles cfg w.now r.2.now e' := by
  obtain ⟨hle, hout⟩ := hruns.outbox
  rw [if_pos hr] at hout
  obtain ⟨g, hg, hsettles⟩ := hout
  have hclaimed : (w.claimed f id).db.outbox.get id = some (event.setStatus .processing) :=
    Table.get_update_self he
  refine ⟨g (event.setStatus .processing), ?_, ?_⟩
  · rw [hg]
    exact Table.get_update_self hclaimed
  · have hnow : w.now ≤ (w.claimed f id).now := le_add_of_nonneg_right (Int.natCast_nonneg _)
    rcases hsettles (event.setStatus .processing) rfl with hdone | ⟨now, hlo, hhi, hfailed⟩
    · exact .inl hdone
    · refine .inr ⟨now, hnow.trans hlo, hhi, ?_⟩
      rw [hfailed, OutboxEvent.recordFailure, OutboxEvent.recordFailure]
      rfl

/-- Time does not go back. -/
theorem now_le_processEvents (w : World) (hfresh : FreshQueue w.db.outbox queue) :
    w.now ≤ (processEvents cfg c queue w).now := by
  induction queue generalizing w with
  | nil => exact le_rfl
  | cons q queue ih =>
    obtain ⟨id, event⟩ := q
    have hwait : w.now ≤ w.now + (c.claim id).ms := le_add_of_nonneg_right (Int.natCast_nonneg _)
    by_cases hok : (c.claim id).outcome = .ok
    · obtain ⟨r, hruns, heq⟩ := processEvents_cons cfg hfresh hok
      have hle : w.now ≤ r.2.now := hwait.trans hruns.outbox.1
      rw [heq]
      split
      · exact hle.trans (ih r.2 (hfresh.tail fun _ hj => get_processed hruns hj))
      · exact hle
    · rw [processEvents]
      simp only [ne_eq, hok, not_false_iff, if_true]
      exact hwait

theorem OutboxEvent.Settles.mono {t₀ t₁ t₀' t₁' : Instant} {e e' : OutboxEvent}
    (h : e.Settles cfg t₀ t₁ e') (hlo : t₀' ≤ t₀) (hhi : t₁ ≤ t₁') : e.Settles cfg t₀' t₁' e' := by
  rcases h with hdone | ⟨now, h₀, h₁, hfailed⟩
  · exact .inl hdone
  · exact .inr ⟨now, hlo.trans h₀, h₁.trans hhi, hfailed⟩

/-- The loop leaves the events that have not been fetched alone. -/
theorem get_processEvents (hfresh : FreshQueue w.db.outbox queue)
    (hid : id ∉ queue.map Prod.fst) :
    (processEvents cfg c queue w).db.outbox.get id = w.db.outbox.get id := by
  induction queue generalizing w with
  | nil => rfl
  | cons q queue ih =>
    obtain ⟨j, event⟩ := q
    obtain ⟨hj, hrest⟩ := not_or.1 (mt List.mem_cons.2 hid)
    by_cases hok : (c.claim j).outcome = .ok
    · obtain ⟨r, hruns, heq⟩ := processEvents_cons cfg hfresh hok
      have hkept := get_processed hruns hj
      rw [heq]
      split
      · rw [ih (hfresh.tail fun _ hk => get_processed hruns hk) hrest, hkept]
      · exact hkept
    · rw [processEvents]
      simp only [ne_eq, hok, not_false_iff, if_true]
      rfl

/-- The loop settles every event that has been fetched. -/
theorem processEvents_settles (hfresh : FreshQueue w.db.outbox queue) (hc : c.Reliable)
    (happroved : ∀ q ∈ queue, q.2.Approved w.db.books) (hq : (id, event) ∈ queue) :
    ∃ e', (processEvents cfg c queue w).db.outbox.get id = some e' ∧
      event.Settles cfg w.now (processEvents cfg c queue w).now e' := by
  induction queue generalizing w with
  | nil => cases hq
  | cons q queue ih =>
    obtain ⟨j, event'⟩ := q
    obtain ⟨r, hruns, heq⟩ := processEvents_cons cfg hfresh (hc.claim j)
    have hhead : event'.Approved w.db.books := happroved _ List.mem_cons_self
    have hr : r.1 = true := hruns.returns (hc.failure j) hhead
    have htail := hfresh.tail fun _ hk => get_processed hruns hk
    have hnow : r.2.now ≤ (processEvents cfg c queue r.2).now := now_le_processEvents r.2 htail
    rw [heq, if_pos hr]
    rcases List.mem_cons.1 hq with hself | hq
    · obtain ⟨rfl, rfl⟩ := Prod.mk.inj hself
      -- The events that come after it leave it alone.
      obtain ⟨e', he', hsettles⟩ := get_processed_self hruns hr (hfresh.rows _ List.mem_cons_self)
      rw [get_processEvents htail (List.nodup_cons.1 hfresh.nodup).1]
      exact ⟨e', he', hsettles.mono le_rfl hnow⟩
    · have hle : w.now ≤ r.2.now :=
        (le_add_of_nonneg_right (Int.natCast_nonneg _)).trans hruns.outbox.1
      obtain ⟨e', he', hsettles⟩ := ih htail
        (fun q hq => hruns.approved (happroved q (List.mem_cons_of_mem _ hq))) hq
      exact ⟨e', he', hsettles.mono hle le_rfl⟩

/-- The loop is a run of the system, in which the tick `i` claims one event
    after the other, and waits for its handler. -/
theorem processEvents_run (cfg : Config) (c : Course) (ht : s.ticks.get i = some t₀) (w : World)
    (hfresh : FreshQueue w.db.outbox queue) : ∃ hist, Run (step cfg) (c.Step i)
      (s.withTick i ⟨queue, none⟩ w) hist
      (s.withTick i ⟨[], none⟩ (processEvents cfg c queue w)) := by
  -- On the events that are left. The steps of the claim and of the handler are put together
  -- to those of an iteration.
  induction queue generalizing w with
  | nil => exact ⟨[], .init⟩
  | cons q queue ih =>
    obtain ⟨id, event⟩ := q
    let s' := s.withTick i ⟨(id, event) :: queue, none⟩ (w.wait (c.claim id))
    have hwait : Run (step cfg) (c.Step i) (s.withTick i ⟨(id, event) :: queue, none⟩ w) _ s' :=
      .step .init (.advance _) (step_wait (c.claim id))
    have hget : s'.ticks.get i = some ⟨(id, event) :: queue, none⟩ := get_withTick ht
    have hrow : s'.db.outbox.get id = some event := hfresh.rows _ List.mem_cons_self
    have hclaim := Course.Step.claim (c := c) hget hrow
    by_cases hok : (c.claim id).outcome = .ok
    · obtain ⟨r, hruns, heq⟩ := processEvents_cons cfg hfresh hok
      have hstep : step cfg s' (.claim i (c.claim id).outcome) = some (s.withTick i
          ⟨queue, some (.start id event)⟩ (w.claimed (c.claim id) id)) := by
        simp only [step, hget, hok, ne_eq, not_true, if_false,
          claimEvent_of_pending hrow (hfresh.pending _ List.mem_cons_self)]
        exact congrArg some (update_withTick (w.claimed (c.claim id) id) _)
      obtain ⟨hist, hrun⟩ := runs_run (h := .start id event) queue ht hruns
      have hrun := (hwait.step hclaim hstep).append hrun
      rw [heq]
      cases hr : r.1 with
      | false =>
        rw [hr] at hrun
        exact ⟨_, hrun⟩
      | true =>
        rw [hr] at hrun
        obtain ⟨hist', hrun'⟩ := ih r.2 (hfresh.tail fun _ hj => get_processed hruns hj)
        exact ⟨_, hrun.append hrun'⟩
    · have hstep : step cfg s' (.claim i (c.claim id).outcome) =
          some (s.withTick i ⟨[], none⟩ (w.wait (c.claim id))) := by
        simp only [step, hget, hok, ne_eq, not_false_iff, if_true]
        exact congrArg some (update_withTick (w.wait (c.claim id)) _)
      rw [processEvents]
      simp only [ne_eq, hok, not_false_iff, if_true]
      exact ⟨_, hwait.step hclaim hstep⟩

/-- What is due and has not been fetched is no older than what has been, and
    there are ten of these. -/
theorem fetchDue_oldest (he : db.outbox.get id = some e) (hdue : e.isDue now)
    (hid : (id, e) ∉ fetchDue db now) : (fetchDue db now).length = 10 ∧
      ∀ q ∈ fetchDue db now, q.2.createdAt ≤ e.createdAt := by
  let older : ℕ × OutboxEvent → ℕ × OutboxEvent → Prop := (·.2.createdAt ≤ ·.2.createdAt)
  have : Std.Total older := ⟨fun q q' => le_total q.2.createdAt q'.2.createdAt⟩
  have : IsTrans (ℕ × OutboxEvent) older := ⟨fun _ _ _ h h' => le_trans h h'⟩
  let due := (db.outbox.rows.filter (·.2.isDue now)).insertionSort older
  have hmem : (id, e) ∈ due :=
    (List.mem_insertionSort _).2 (List.mem_filter.2 ⟨Table.mem_rows.2 he, hdue⟩)
  have hsorted : due.Pairwise older := List.pairwise_insertionSort older _
  rw [← List.take_append_drop 10 due] at hmem hsorted
  have hdrop : (id, e) ∈ due.drop 10 := (List.mem_append.1 hmem).resolve_left hid
  refine ⟨?_, fun q hq => (List.pairwise_append.1 hsorted).2.2 q hq _ hdrop⟩
  have hpos : 0 < (due.drop 10).length := List.length_pos_of_mem hdrop
  change (due.take 10).length = 10
  rw [List.length_drop] at hpos
  rw [List.length_take]
  omega

/-- The system after a tick that has been left alone. -/
def State.ticked (s : State) (w : World) : State :=
  { s with db := w.db, hcm := w.hcm, now := w.now, ticks := s.ticks.insert ⟨[], none⟩ }

/-- A tick that is left alone is a run of the system. -/
theorem tick_run (cfg : Config) (c : Course) (s : State) :
    ∃ hist, Run (step cfg) (c.Step s.ticks.nextId) s hist (s.ticked (tick cfg s.world c)) := by
  let s' : State := { s with ticks := s.ticks.insert ⟨fetchDue s.db s.now, none⟩ }
  have hget : s'.ticks.get s.ticks.nextId = some ⟨fetchDue s.db s.now, none⟩ := if_pos rfl
  have hticks : ∀ t, s'.ticks.update s.ticks.nextId (fun _ => t) = s.ticks.insert t := fun t => by
    refine Table.ext_get rfl (funext fun j => ?_)
    simp only [s', Table.get_update, Table.get_insert]
    split <;> rfl
  obtain ⟨hist, hrun⟩ := processEvents_run cfg c hget s.world (fetchDue_fresh s.db s.now)
  simp only [State.withTick, hticks] at hrun
  exact ⟨_, (Run.step .init (.tick rfl) rfl).append hrun⟩

/-- **A tick settles what it fetches.** In every state that a run has reached,
    a tick that is left alone is a run of the system; it fetches the ten oldest
    of the events that are due, settles each of them, and leaves the others as
    they are. -/
theorem tick_settles {s₀ : State} {ok : State → Action → Prop} {hist : List (State × Action)}
    (hcalls : s₀.calls = .empty) (hticks : s₀.ticks = .empty)
    (houtbox : ∀ id, s₀.db.outbox.get id = none) (hrun : Run (step cfg) ok s₀ hist s)
    (hc : c.Reliable) :
    (∃ hist', Run (step cfg) (c.Step s.ticks.nextId) s hist' (s.ticked (tick cfg s.world c))) ∧
    (∀ id e, s.db.outbox.get id = some e → e.isDue s.now → (id, e) ∉ fetchDue s.db s.now →
      (fetchDue s.db s.now).length = 10 ∧
        ∀ q ∈ fetchDue s.db s.now, q.2.createdAt ≤ e.createdAt) ∧
    (∀ q ∈ fetchDue s.db s.now, ∃ e', (tick cfg s.world c).db.outbox.get q.1 = some e' ∧
      q.2.Settles cfg s.now (tick cfg s.world c).now e') ∧
    ∀ id, id ∉ (fetchDue s.db s.now).map Prod.fst →
      (tick cfg s.world c).db.outbox.get id = s.db.outbox.get id := by
  have hfresh := fetchDue_fresh s.db s.now
  have happroved := deductionsApproved_of_run hcalls hticks houtbox hrun
  refine ⟨tick_run cfg c s, fun id e he hdue hid => fetchDue_oldest he hdue hid, ?_, ?_⟩
  · intro q hq
    exact processEvents_settles hfresh hc
      (fun q hq => happroved.rows q.1 q.2 (mem_fetchDue hq).1) hq
  · exact fun id hid => get_processEvents hfresh hid

/-- Nothing fails, and nothing takes time. -/
def sampleCourse : Course := ⟨fun _ => ⟨0, .ok⟩, fun _ _ => ⟨0, .ok⟩⟩

theorem sampleCourse_reliable : sampleCourse.Reliable := ⟨fun _ => rfl, fun _ => rfl⟩

/-- The deduction of an approved request is delivered by the first tick. -/
theorem tick_settles_sample : ∃ hist s,
    Run (step sampleConfig) (fun _ _ => True) (sampleStart 10) hist s ∧
    ((tick sampleConfig s.world sampleCourse).db.outbox.get 0).any (·.status = .done) ∧
    ∀ q ∈ fetchDue s.db s.now,
      ∃ e', (tick sampleConfig s.world sampleCourse).db.outbox.get q.1 = some e' ∧
        q.2.Settles sampleConfig s.now (tick sampleConfig s.world sampleCourse).now e' := by
  have hexec : ∃ s ∈ exec (step sampleConfig) (sampleStart 10) (sampleApproval 2),
      ((tick sampleConfig s.world sampleCourse).db.outbox.get 0).any (·.status = .done) := by
    decide +kernel
  obtain ⟨s, hrun, hdone⟩ := exists_run_of_exec (p := fun _ => True) (fun _ _ => trivial) hexec
  exact ⟨_, s, hrun, hdone,
    (tick_settles rfl rfl (fun _ => rfl) hrun sampleCourse_reliable).2.2.1⟩

end TimeOff
