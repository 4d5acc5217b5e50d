import TimeOff.Delivery
import TimeOff.Lifecycle

/-!
# Stranded events

An event that is `PROCESSING` waits for its handler: no tick claims it, and no
retry accepts it. It is stranded when the handler is lost, i.e., when the
process dies, or when the database throws in `handleEventFailure`. In the runs
in which neither happens (`Unbroken`), every event that is `PROCESSING` has a
handler (`Tended`).

`handleEventFailure` itself does not throw: the request of a deduction has
been approved, so that it is settled already or can be failed.

* `deductionsApproved_of_run`: why it does not throw;
* `no_event_stranded`: the handlers of the events, in unbroken runs;
* `event_stranded`: the two ways to lose a handler.
-/

namespace TimeOff

open Transaction Transition

variable {cfg : Config} {s s' s₀ : State} {a : Action} {id i j : ℕ} {e event : OutboxEvent}
  {h : Handler} {hist : List (State × Action)} {B B' : Books} {now : Instant} {t : Session}
  {r : TimeOffRequest} {synced : Prop}

/-! ## Deductions are approved -/

/-- If the event is a deduction, its request has been approved once. -/
def OutboxEvent.Approved (B : Books) (e : OutboxEvent) : Prop :=
  e.eventType = .hcmDeduct →
    ∃ r, B.requests.get e.requestId = some r ∧ r.status ≠ .pending ∧ r.status ≠ .rejected

theorem OutboxEvent.Approved.same (happroved : e.Approved B) (hsame : e.Same event) :
    event.Approved B := by
  intro htype
  rw [hsame.requestId]
  exact happroved (hsame.eventType ▸ htype)

/-- No edge leads to `PENDING`, and none to `REJECTED` from elsewhere. -/
theorem OutboxEvent.Approved.move (happroved : e.Approved B) (hmove : Move synced B B') :
    e.Approved B' := by
  intro htype
  obtain ⟨r, hr, hpending, hrejected⟩ := happroved htype
  obtain ⟨r', hr', hstatus⟩ := hmove.status hr
  refine ⟨r', hr', ?_⟩
  rcases hstatus with ⟨hsame, _⟩ | ⟨hcan, _⟩
  · rw [hsame]
    exact ⟨hpending, hrejected⟩
  · exact ⟨ne_pending_of_canTransition hcan, fun hrejected' =>
      hpending (eq_pending_of_canTransition (hrejected' ▸ hcan))⟩

/-- The deductions in the outbox, in the queues and in the handlers are those
    of approved requests. -/
structure DeductionsApproved (s : State) : Prop where
  rows : ∀ id e, s.db.outbox.get id = some e → e.Approved s.db.books
  queued : ∀ i q, s.Queued i q → q.2.Approved s.db.books
  handled : ∀ i h, s.handler i = some h → h.event.Approved s.db.books

/-- A deduction is posted when its request is approved, and no move of an approved
    request makes it pending or rejected. -/
theorem DeductionsApproved.step (hok : DeductionsApproved s) (hstep : Stepped cfg s a s')
    (hmove : Move synced s.db.books s'.db.books) : DeductionsApproved s' := by
  -- Rows, queues and handlers in turn: a copy comes from a row, at a time when that was
  -- right, and the moves of the request keep it so.
  have hd := hstep.delivered
  have hkept : ∀ i h, s.handler i = some h → h.event.Approved s'.db.books :=
    fun i h hh => (hok.handled i h hh).move hmove
  refine ⟨fun id e he => ?_, fun i q hq => ?_, fun i h hh => ?_⟩
  · rcases hd.event he with ⟨e₀, he₀, hsame⟩ | ⟨_, hposted⟩
    · exact ((hok.rows id e₀ he₀).move hmove).same hsame
    · intro htype
      cases hposted with
      | deduct _ hr' hstatus => exact ⟨_, hr', by rw [hstatus]; exact ⟨nofun, nofun⟩⟩
      | reverse _ => cases htype
  · rcases hstep.queued hq with hq | hq
    · exact (hok.queued i q hq).move hmove
    · exact (hok.rows _ _ (mem_fetchDue hq).1).move hmove
  · cases hd with
    | stay _ _ hhandler => exact hkept i h (hhandler ▸ hh)
    | post _ _ _ hhandler => exact hkept i h (hhandler ▸ hh)
    | claim _ ht _ _ _ _ _ hhandler =>
      rw [hhandler, PartialMap.set_eq_some] at hh
      rcases hh with ⟨_, rfl⟩ | ⟨_, hh⟩
      · exact (hok.queued _ _ ⟨_, ht, List.mem_cons_self⟩).move hmove
      · exact hkept i h hh
    | proceed _ hh₀ _ _ hhandler =>
      rw [hhandler, PartialMap.set_eq_some] at hh
      rcases hh with ⟨_, rfl⟩ | ⟨_, hh⟩
      · exact (hok.handled _ _ hh₀).move hmove
      · exact hkept i h hh
    | finish _ _ _ hhandler | record _ _ _ _ hhandler | abort _ _ _ _ _ hhandler =>
      rw [hhandler, PartialMap.unset_eq_some] at hh
      exact hkept i h hh.2
    | requeue _ _ _ hhandler => exact hkept i h (hhandler ▸ hh)
    | crash _ _ _ hhandler => rw [hhandler] at hh; cases hh

/-- It holds after every run of the system. -/
theorem deductionsApproved_of_run (hcalls : s₀.calls = .empty) (hticks : s₀.ticks = .empty)
    (houtbox : ∀ id, s₀.db.outbox.get id = none) {ok : State → Action → Prop}
    (hrun : Run (step cfg) ok s₀ hist s) : DeductionsApproved s := by
  refine hrun.history (I := fun _ s => DeductionsApproved s) ⟨?_, ?_, ?_⟩
    fun _ _ _ _ hrun hok _ hnext => hok.step (step_stepped hnext) (move_of_run hcalls hrun hnext)
  · intro id e he
    rw [houtbox] at he
    cases he
  · rintro i q ⟨t, ht, _⟩
    rw [hticks] at ht
    cases ht
  · intro i h hh
    rw [State.handler, hticks] at hh
    cases hh

/-- `handleEventFailure` does not throw of itself. -/
theorem handleEventFailure_run {db : Database} (happroved : event.Approved db.books) :
    ∃ t, (handleEventFailure cfg now id event).run (.start db) = .ok () t := by
  rw [handleEventFailure]
  split
  · split
    · next htype =>
      obtain ⟨r, hr, hpending, hrejected⟩ := happroved htype
      obtain ⟨r', t, hrun⟩ := failRequestFromOutbox_run (s := ⟨db.updateEvent id
        (·.exhaust (event.attempts + 1)), false⟩) hr hpending hrejected
      exact ⟨t, bind_eq_ok.2 ⟨(), _, rfl, bind_eq_ok.2 ⟨r', t, hrun, rfl⟩⟩⟩
    · exact ⟨_, rfl⟩
  · exact ⟨_, rfl⟩

/-! ## Handlers are not lost -/

/-- The step does not lose a handler: the process does not die while there is
    one, and the database does not throw in `handleEventFailure`. -/
structure Unbroken (s : State) (a : Action) : Prop where
  crash : a = .crash → ∀ i, s.handler i = none
  failure : ∀ i o h, a = .handle i o → s.handler i = some h → h.phase = .handleEventFailure →
    o = .ok

/-- Every event that is being processed has a handler. -/
def Tended (s : State) : Prop :=
  ∀ id e, s.db.outbox.get id = some e → e.status = .processing →
    ∃ i h, s.handler i = some h ∧ h.id = id

/-- A handler that ends without a throw leaves its event in another status. -/
theorem Tended.release (htended : Tended s) {f : OutboxEvent → OutboxEvent}
    (hf : ∀ e, (f e).status ≠ .processing) (hh : s.handler i = some h)
    (hout : s'.db.outbox = s.db.outbox.update h.id f)
    (hhandler : s'.handler = Function.update s.handler i none) : Tended s' := by
  intro id e he hprocessing
  rw [hout] at he
  rcases Table.get_update_eq_some.1 he with ⟨_, e₀, _, rfl⟩ | ⟨hid, he⟩
  · exact absurd hprocessing (hf e₀)
  · obtain ⟨j, h', hh', rfl⟩ := htended id e he hprocessing
    refine ⟨j, h', ?_, rfl⟩
    rw [hhandler, Function.update_of_ne, hh']
    rintro rfl
    rw [hh] at hh'
    exact hid (congrArg Handler.id (Option.some.inj hh').symm)

/-- A handler is aborted by a throw of the database only. -/
theorem step_ne_aborted {o : Outcome} (happroved : h.event.Approved s.db.books)
    (hok : h.phase = .handleEventFailure → o = .ok) :
    (h.step cfg s.now s.db s.hcm o).2.2 ≠ .aborted := by
  intro haborted
  rcases hstep : h.step cfg s.now s.db s.hcm o with ⟨db, hcm, p⟩
  obtain rfl : p = .aborted := by rw [hstep] at haborted; exact haborted
  have hphase := (Handler.step_handled hstep).phase_eq rfl
  obtain ⟨t, hrun⟩ : ∃ t, (handleEventFailure cfg s.now h.id h.event).run (.start s.db) =
      .ok () t := handleEventFailure_run happroved
  rw [Handler.step, hphase, hok hphase] at hstep
  simp only [ne_eq, not_true, if_false, hrun] at hstep
  cases hstep

/-- In an unbroken step no handler of an event gets lost. -/
theorem Tended.step (htended : Tended s) (hdeductions : DeductionsApproved s)
    (hok : Unbroken s a) (hd : Delivered cfg s a s') : Tended s' := by
  -- An event that is `PROCESSING` has its handler still, except where the handler ends, and
  -- then the event is not `PROCESSING` any more.
  cases hd with
  | stay _ hout hhandler =>
    intro id e he hprocessing
    rw [hhandler]
    exact htended id e (hout ▸ he) hprocessing
  | post _ hposted hout hhandler =>
    rw [Tended, hout, hhandler]
    refine Table.forall_insert (fun hprocessing => ?_) htended
    rw [hposted.status] at hprocessing
    cases hprocessing
  | @claim i id event e queue _ ht _ _ _ _ hout hhandler =>
    -- The tick that claims has had no handler, so that none gets lost.
    have hnone : s.handler i = none := by rw [State.handler, ht, Option.bind_some]
    intro j e' he' hprocessing
    rw [hhandler]
    by_cases hj : j = id
    · exact ⟨i, _, Function.update_self .., hj.symm⟩
    · rw [hout, Table.get_update_of_ne hj] at he'
      obtain ⟨k, h, hh, hid⟩ := htended j e' he' hprocessing
      refine ⟨k, h, ?_, hid⟩
      rw [Function.update_of_ne, hh]
      rintro rfl
      rw [hnone] at hh
      cases hh
  | @proceed i h phase hh _ hout hhandler =>
    intro id e he hprocessing
    obtain ⟨j, h', hh', hid⟩ := htended id e (hout ▸ he) hprocessing
    rw [hhandler]
    by_cases hj : j = i
    · obtain rfl := Option.some.inj (hh.symm.trans (hj ▸ hh'))
      exact ⟨i, _, Function.update_self .., hid⟩
    · exact ⟨j, h', by rw [Function.update_of_ne hj, hh'], hid⟩
  | finish hh _ hout hhandler =>
    exact htended.release (fun _ hdone => by cases hdone) hh hout hhandler
  | record hh _ _ hout hhandler =>
    refine htended.release (fun e => ?_) hh hout hhandler
    rw [OutboxEvent.recordFailure]
    split <;> exact fun hprocessing => by cases hprocessing
  | @abort i o h ha hh haborted _ _ _ =>
    -- The request of a failed deduction can be failed: it is still approved.
    exact absurd haborted (step_ne_aborted (hdeductions.handled i h hh) (hok.failure i o h ha hh))
  | requeue _ _ hout hhandler =>
    rw [Tended, hout, hhandler]
    exact Table.forall_update (fun e _ hprocessing => by cases hprocessing) htended
  | crash ha _ hout _ =>
    intro id e he hprocessing
    obtain ⟨i, h, hh, _⟩ := htended id e (hout ▸ he) hprocessing
    rw [hok.crash ha i] at hh
    cases hh

/-- **No event is stranded**, in the runs in which no handler is lost: every
    event that is `PROCESSING` has a handler. -/
theorem no_event_stranded (hcalls : s₀.calls = .empty) (hticks : s₀.ticks = .empty)
    (houtbox : ∀ id, s₀.db.outbox.get id = none) (hrun : Run (step cfg) Unbroken s₀ hist s) :
    (∀ id e, s.db.outbox.get id = some e → e.status = .processing →
      ∃ i h, s.handler i = some h ∧ h.id = id) ∧
    ∀ id e, s.db.outbox.get id = some e → e.status ≠ .done →
      (¬∃ i h, s.handler i = some h ∧ h.id = id) → e.status = .pending ∨ e.status = .failed := by
  have htended : Tended s := by
    refine hrun.history (I := fun _ s => Tended s) (fun id e he => ?_) ?_
    · rw [houtbox] at he
      cases he
    · intro hist s a s' hrun htended hok hnext
      exact htended.step (deductionsApproved_of_run hcalls hticks houtbox hrun) hok
        (step_stepped hnext).delivered
  refine ⟨htended, fun id e he hdone hfree => ?_⟩
  cases hstatus : e.status with
  | pending => exact .inl rfl
  | processing => exact absurd (htended id e he hstatus) hfree
  | done => exact absurd hstatus hdone
  | failed => exact .inr rfl

/-- The event that a tick has just claimed has a handler. -/
theorem no_event_stranded_sample : ∃ hist s,
    Run (step sampleConfig) Unbroken (sampleStart 10) hist s ∧
    (s.db.outbox.get 0).any (·.status = .processing) ∧
    ∀ id e, s.db.outbox.get id = some e → e.status = .processing →
      ∃ i h, s.handler i = some h ∧ h.id = id := by
  have hexec : ∃ s ∈ exec (step sampleConfig) (sampleStart 10)
      (sampleApproval 2 ++ [.tick, .claim 0 .ok]),
      (s.db.outbox.get 0).any (·.status = .processing) := by decide +kernel
  have hquiet : ∀ a ∈ sampleApproval 2 ++ [.tick, .claim 0 .ok],
      (fun a => a ≠ Action.crash ∧ ∀ i o, a ≠ .handle i o) a := by
    simp [sampleApproval, sampleSubmit]
  obtain ⟨s, hrun, hs⟩ := exists_run_of_exec hquiet hexec
  have hrun' : Run (step sampleConfig) Unbroken (sampleStart 10) _ s :=
    hrun.mono fun _ _ ha => ⟨fun hcrash => absurd hcrash ha.1,
      fun i o _ hhandle => absurd hhandle (ha.2 i o)⟩
  exact ⟨_, s, hrun', hs, (no_event_stranded rfl rfl (fun _ => rfl) hrun').1⟩

/-- No tick has a handler, and the event is being processed. -/
def strands (s : State) (id : ℕ) : Prop :=
  (s.db.outbox.get id).any (·.status = .processing) ∧ ∀ i < s.ticks.nextId, s.handler i = none

/-- What the test says of a state. -/
theorem stranded_of_strands (hs : strands s id) : ∃ e, s.db.outbox.get id = some e ∧
    e.status = .processing ∧ ∀ i, s.handler i = none := by
  obtain ⟨hprocessing, hnone⟩ := hs
  obtain ⟨e, he, hstatus⟩ := (Option.any_eq_true _ _).1 hprocessing
  refine ⟨e, he, of_decide_eq_true hstatus, fun i => ?_⟩
  by_cases hi : i < s.ticks.nextId
  · exact hnone i hi
  · exact handler_of_le (not_lt.1 hi)

/-- An event is stranded by a crash between its claim and its outcome, and by
    a failure that the database does not record. -/
theorem event_stranded :
    (∃ hist s e, Run (step sampleConfig) (fun _ a => ∀ i o, a ≠ .handle i o)
      (sampleStart 10) hist s ∧ s.db.outbox.get 0 = some e ∧ e.status = .processing ∧
      ∀ i, s.handler i = none) ∧
    ∃ hist s e, Run (step sampleConfig) (fun _ a => a ≠ .crash) (sampleStart 10) hist s ∧
      s.db.outbox.get 0 = some e ∧ e.status = .processing ∧ ∀ i, s.handler i = none := by
  -- After a crash between the claim and the call of the HCM, and after a second throw in
  -- the catch block.
  constructor
  · have hexec : ∃ s ∈ exec (step sampleConfig) (sampleStart 10)
        (sampleApproval 2 ++ [.tick, .claim 0 .ok, .crash]), strands s 0 := by
      unfold strands
      decide +kernel
    have hno : ∀ a ∈ sampleApproval 2 ++ [.tick, .claim 0 .ok, .crash],
        (fun a => ∀ i o, a ≠ Action.handle i o) a := by simp [sampleApproval, sampleSubmit]
    obtain ⟨s, hrun, hs⟩ := exists_run_of_exec hno hexec
    obtain ⟨e, he, hstatus, hnone⟩ := stranded_of_strands hs
    exact ⟨_, s, e, hrun, he, hstatus, hnone⟩
  · have hexec : ∃ s ∈ exec (step sampleConfig) (sampleStart 10)
        (sampleApproval 2 ++ [.tick, .claim 0 .ok, .handle 0 .throws, .handle 0 .throws]),
        strands s 0 := by
      unfold strands
      decide +kernel
    have hno : ∀ a ∈ sampleApproval 2 ++
        [.tick, .claim 0 .ok, .handle 0 .throws, .handle 0 .throws],
        (fun a => a ≠ Action.crash) a := by simp [sampleApproval, sampleSubmit]
    obtain ⟨s, hrun, hs⟩ := exists_run_of_exec hno hexec
    obtain ⟨e, he, hstatus, hnone⟩ := stranded_of_strands hs
    exact ⟨_, s, e, hrun, he, hstatus, hnone⟩

end TimeOff
