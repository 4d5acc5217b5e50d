import Mathlib.Algebra.BigOperators.Ring.Finset
import TimeOff.Lib.Drain
import TimeOff.RetryAccounting
import TimeOff.Tick

/-!
# The outbox drains

Whatever the HCM does, events do not wait forever: each failure uses up one of
the attempts that an event has, and a tick gets to the ten oldest events that
are due. Ticks that are at least as far apart as the longest backoff find
everything due that is pending, so that the outbox is an instance of
`TimeOff.Lib.Drain`: with `n` events pending, and `m` attempts for each, there
is none left after `n * m / 10 + m` ticks. No request is waiting for the HCM
then.

The HCM may get into any state between two ticks, and its calls may fail
during them; the database may fail too, except where a failure is recorded
(`Course.Reliable`).
-/

namespace TimeOff

open Transaction Transition

/-- Time passes, the HCM gets into whatever state, and a tick is run. -/
structure Round where
  ms : ℕ
  hcm : HcmState
  course : Course

/-- The system after a round that nothing else interferes with. -/
def State.round (cfg : Config) (s : State) (x : Round) : State :=
  let s' : State := { s with now := s.now + x.ms, hcm := x.hcm }
  s'.ticked (tick cfg s'.world x.course)

/-- The longest backoff, in milliseconds. -/
def maxBackoff : ℕ := 1800000

/-- The round comes late enough for every backoff, and its tick can record what
    fails. -/
structure Round.Late (x : Round) : Prop where
  ms : maxBackoff ≤ x.ms
  course : x.course.Reliable

/-- How many attempts there are for an event, if it has been given no retry. -/
def Config.attempts (cfg : Config) : ℕ := max 1 cfg.hcmMaxRetries

/-- How often the event will be claimed at most, until it is settled. -/
def OutboxEvent.remaining (cfg : Config) (e : OutboxEvent) : ℕ :=
  if e.status = .pending then max 1 (cfg.hcmMaxRetries - e.attempts) else 0

/-- How many events are pending. -/
def pendingEvents (t : Table OutboxEvent) : ℕ :=
  t.sum fun _ e => if e.status = .pending then 1 else 0

/-- How many claims remain. -/
def remainingClaims (cfg : Config) (t : Table OutboxEvent) : ℕ :=
  t.sum fun _ e => e.remaining cfg

/-- No event is further from being due than the longest backoff. -/
def DueSoon (s : State) : Prop :=
  ∀ id e, s.db.outbox.get id = some e → ∀ due ∈ e.nextRetryAt, due ≤ s.now + maxBackoff

variable {cfg : Config} {s s' s₀ : State} {a : Action} {id n : ℕ} {e e' : OutboxEvent}
  {now t₀ t₁ : Instant} {c : Course} {w : World} {x : Round}

/-! ## Events -/

/-- No backoff is longer than the last one. -/
theorem calculateNextRetryAt_le (cfg : Config) (now : Instant) (n : ℕ) :
    calculateNextRetryAt cfg now n ≤ now + maxBackoff := by
  have hbackoff : backoffSeconds.getD n (backoffSeconds.getLastD 0) ≤ 1800 := by
    rcases n with _ | _ | _ | _ | n <;> simp [backoffSeconds]
  have hdelay : 1000 * (if cfg.isTest then 0 else
      backoffSeconds.getD n (backoffSeconds.getLastD 0)) ≤ (maxBackoff : ℤ) := by
    rw [maxBackoff]
    split <;> omega
  exact Int.add_le_add_left hdelay now

/-- An event that is scheduled again is due soon. -/
theorem recordFailure_due (n : ℕ) (hdue : ∀ due ∈ e.nextRetryAt, due ≤ now + maxBackoff) :
    ∀ due ∈ (e.recordFailure cfg now n).nextRetryAt, due ≤ now + maxBackoff := by
  rw [OutboxEvent.recordFailure]
  split
  · exact hdue
  · rintro _ ⟨⟩
    exact calculateNextRetryAt_le cfg now n

/-- Every claim of an event that is left alone is one of those that remain. -/
theorem remaining_settles (hsettles : e.Settles cfg t₀ t₁ e') (hpending : e.status = .pending) :
    e'.remaining cfg + 1 ≤ e.remaining cfg := by
  have hone : 1 ≤ e.remaining cfg := by
    rw [OutboxEvent.remaining, if_pos hpending]
    exact le_max_left _ _
  rcases hsettles with rfl | ⟨now, _, _, rfl⟩
  · exact hone
  · rw [OutboxEvent.recordFailure]
    split
    · exact hone
    · next hretry =>
      rw [shouldMarkFailed, decide_eq_true_eq] at hretry
      simp only [OutboxEvent.remaining, OutboxEvent.reschedule, if_true, hpending]
      omega

theorem remaining_le (e : OutboxEvent) : e.remaining cfg ≤ cfg.attempts := by
  rw [OutboxEvent.remaining, Config.attempts]
  split
  · omega
  · exact Nat.zero_le _

theorem remaining_eq_zero : e.remaining cfg = 0 ↔ e.status ≠ .pending := by
  rw [OutboxEvent.remaining]
  split
  · next hpending => simp [hpending]
  · next hpending => simp [hpending]

/-- Each pending event has at most all of its attempts left. -/
theorem remainingClaims_le (t : Table OutboxEvent) :
    remainingClaims cfg t ≤ pendingEvents t * cfg.attempts := by
  rw [remainingClaims, pendingEvents, Table.sum, Table.sum, Finset.sum_mul]
  refine Finset.sum_le_sum fun i _ => ?_
  cases t.get i with
  | none => exact Nat.zero_le _
  | some e =>
    by_cases hpending : e.status = .pending
    · simpa [hpending] using remaining_le e
    · simp [OutboxEvent.remaining, hpending]

theorem settles_ne_processing (hsettles : e.Settles cfg t₀ t₁ e') : e'.status ≠ .processing := by
  rcases hsettles with rfl | ⟨now, _, _, rfl⟩
  · exact fun h => by cases h
  · rw [OutboxEvent.recordFailure]
    split <;> exact fun h => by cases h

/-! ## States -/

/-- Every step leaves the events due soon: it schedules them by a backoff from
    now, for now, or not at all, and time only makes them due earlier. -/
theorem DueSoon.step (hsoon : DueSoon s) (hstep : Stepped cfg s a s') : DueSoon s' := by
  have hle : s.now + maxBackoff ≤ s'.now + maxBackoff := Int.add_le_add_right hstep.now_le _
  have hkept : ∀ id e, s.db.outbox.get id = some e →
      ∀ due ∈ e.nextRetryAt, due ≤ s'.now + maxBackoff := fun id e he due hdue =>
    (hsoon id e he due hdue).trans hle
  have hnow : ∀ due ∈ some s.now, due ≤ s'.now + maxBackoff := by
    rintro _ ⟨⟩
    exact (Int.le_add_of_nonneg_right (Int.natCast_nonneg _)).trans hle
  rw [DueSoon]
  -- By what the step does to the outbox. Only a recorded failure and a retry write a time.
  cases hstep.delivered with
  | stay _ hout _ | proceed _ _ _ hout _ | abort _ _ _ _ hout _ | crash _ _ hout _ =>
    rw [hout]
    exact hkept
  | post _ hposted hout _ =>
    rw [hout]
    refine Table.forall_insert ?_ hkept
    cases hposted <;> exact hnow
  | claim _ _ _ _ _ _ hout _ | finish _ _ hout _ =>
    rw [hout]
    exact Table.forall_update (fun e he => hkept _ e he) hkept
  | record _ _ _ hout _ =>
    rw [hout]
    refine Table.forall_update (fun e he due hdue => ?_) hkept
    exact (recordFailure_due _ (hsoon _ e he) due hdue).trans hle
  | requeue _ _ hout _ =>
    rw [hout]
    exact Table.forall_update (fun e he => hnow) hkept

/-- The events for deductions are those of approved requests. -/
theorem AllMatched.approved {db : Database} (h : AllMatched db) (he : db.outbox.get id = some e) :
    e.Approved db.books := by
  intro htype
  obtain ⟨r, hr⟩ := h.event id e he
  have hmem : (id, e) ∈ eventsFor db.outbox .hcmDeduct e.requestId := ⟨he, htype, rfl⟩
  refine ⟨r, hr, ?_⟩
  cases h.request _ r hr with
  | unsent hempty _ _ _ =>
    rw [hempty] at hmem
    cases hmem
  | awaited _ _ _ _ _ hstatus =>
    rcases hstatus with ⟨hstatus, _⟩ | hstatus <;> rw [hstatus] <;> exact ⟨nofun, nofun⟩
  | confirmed _ _ _ _ _ hstatus | cancelled _ _ _ _ _ hstatus =>
    rw [hstatus]
    exact ⟨nofun, nofun⟩

/-- A request that waits for the HCM has an event that is not settled. -/
theorem AllMatched.awaited {db : Database} {r : TimeOffRequest} (h : AllMatched db)
    (hr : db.requests.get id = some r) (hstatus : r.status = .approvedPendingHcm) :
    ∃ k e, db.outbox.get k = some e ∧ (e.status = .pending ∨ e.status = .processing) := by
  obtain ⟨k, e, hevents, hopen, _⟩ :=
    (Agreement.of_matched (h.request id r hr)).approvedPendingHcm hstatus
  exact ⟨k, e, (mem_of_eventsFor_eq hevents).1, hopen⟩

/-- What holds between two rounds: no event is being processed. -/
structure Quiet (s : State) : Prop where
  corresponding : Corresponding s
  soon : DueSoon s
  processing : ∀ id e, s.db.outbox.get id = some e → e.status ≠ .processing

/-! ## Rounds -/

/-- The system when the tick of a round starts. -/
def State.before (s : State) (x : Round) : State := { s with now := s.now + x.ms, hcm := x.hcm }

/-- The events that the tick of a round fetches. -/
def State.fetched (s : State) (x : Round) : List (ℕ × OutboxEvent) :=
  fetchDue s.db (s.before x).now

/-- A tick adds no events. -/
theorem nextId_processEvents {queue : List (ℕ × OutboxEvent)}
    (hfresh : FreshQueue w.db.outbox queue) :
    (processEvents cfg c queue w).db.outbox.nextId = w.db.outbox.nextId := by
  induction queue generalizing w with
  | nil => rfl
  | cons q queue ih =>
    obtain ⟨id, event⟩ := q
    by_cases hok : (c.claim id).outcome = .ok
    · obtain ⟨r, hruns, heq⟩ := processEvents_cons cfg hfresh hok
      have hnext : r.2.db.outbox.nextId = w.db.outbox.nextId := by
        have hout := hruns.outbox.2
        split at hout
        · obtain ⟨f, hf, _⟩ := hout
          rw [hf]
          rfl
        · rw [hout]
          rfl
      rw [heq]
      split
      · rw [ih (hfresh.tail fun _ hj => get_processed hruns hj), hnext]
      · exact hnext
    · rw [processEvents]
      simp only [ne_eq, hok, not_false_iff, if_true]
      rfl

/-- The tick of a round settles what it has fetched. -/
theorem Quiet.fetched (cfg : Config) (hs : Quiet s) (hx : x.Late) {q : ℕ × OutboxEvent}
    (hq : q ∈ s.fetched x) : s.db.outbox.get q.1 = some q.2 ∧ q.2.status = .pending ∧
      ∃ e', (s.round cfg x).db.outbox.get q.1 = some e' ∧
        ∃ t₀ t₁, q.2.Settles cfg t₀ t₁ e' := by
  have hfresh := fetchDue_fresh s.db (s.before x).now
  obtain ⟨e', he', hsettles⟩ := processEvents_settles (w := (s.before x).world) hfresh hx.course
    (fun q hq => hs.corresponding.matched.approved (hfresh.rows q hq)) hq
  exact ⟨hfresh.rows q hq, hfresh.pending q hq, e', he', _, _, hsettles⟩

/-- It leaves the others alone. -/
theorem get_round (cfg : Config) (hid : id ∉ (s.fetched x).map Prod.fst) :
    (s.round cfg x).db.outbox.get id = s.db.outbox.get id :=
  get_processEvents (fetchDue_fresh s.db (s.before x).now) hid

/-- An event after a round has been settled by it, or is as it was. -/
theorem Quiet.event (hs : Quiet s) (hx : x.Late)
    (he' : (s.round cfg x).db.outbox.get id = some e') :
    (∃ e t₀ t₁, s.db.outbox.get id = some e ∧ e.status = .pending ∧ e.Settles cfg t₀ t₁ e') ∨
      id ∉ (s.fetched x).map Prod.fst ∧ s.db.outbox.get id = some e' := by
  by_cases hid : id ∈ (s.fetched x).map Prod.fst
  · obtain ⟨q, hq, rfl⟩ := List.mem_map.1 hid
    obtain ⟨he, hpending, e'', he'', t₀, t₁, hsettles⟩ := hs.fetched cfg hx hq
    obtain rfl := Option.some.inj (he'.symm.trans he'')
    exact .inl ⟨q.2, t₀, t₁, he, hpending, hsettles⟩
  · exact .inr ⟨hid, by rw [← get_round cfg hid, he']⟩

theorem Course.Step.isRegular {i : ℕ} (h : c.Step i s a) : a.isRegular := by
  cases h <;> rfl

/-- A round is a run, after the HCM has got into another state. -/
theorem Quiet.round (hs : Quiet s) (hx : x.Late) : Quiet (s.round cfg x) := by
  obtain ⟨hist, hrun⟩ := tick_run cfg x.course (s.before x)
  have hstart : Corresponding (s.before x) ∧ DueSoon (s.before x) := by
    refine ⟨⟨hs.corresponding.calls, ⟨hs.corresponding.held.processing,
      hs.corresponding.held.single⟩, hs.corresponding.matched, hs.corresponding.queued,
      hs.corresponding.copied, hs.corresponding.aware⟩, fun id e he due hdue => ?_⟩
    exact (hs.soon id e he due hdue).trans
      (Int.add_le_add_right (Int.le_add_of_nonneg_right (Int.natCast_nonneg _)) _)
  have hend := hrun.invariant (I := fun s => Corresponding s ∧ DueSoon s) hstart
    fun s a s' hs hok hnext =>
      ⟨hs.1.step hok.isRegular (step_stepped hnext), hs.2.step (step_stepped hnext)⟩
  refine ⟨hend.1, hend.2, fun id e' he' => ?_⟩
  rcases hs.event hx he' with ⟨e, t₀, t₁, _, _, hsettles⟩ | ⟨_, he⟩
  · exact settles_ne_processing hsettles
  · exact hs.processing id e' he

/-- Every event needs at most `n` claims more. -/
def Within (cfg : Config) (n : ℕ) (s : State) : Prop :=
  ∀ id e, s.db.outbox.get id = some e → e.remaining cfg ≤ n

/-- What is pending is due when the tick of a round starts. -/
theorem Quiet.isDue (hs : Quiet s) (hx : x.Late) (he : s.db.outbox.get id = some e)
    (hpending : e.status = .pending) : e.isDue (s.before x).now := by
  rw [OutboxEvent.isDue, decide_eq_true hpending, Bool.true_and, Option.all_eq_true]
  refine fun due hdue => decide_eq_true ((hs.soon id e he due hdue).trans ?_)
  exact Int.add_le_add_left (Int.ofNat_le.2 hx.ms) _

theorem not_mem_fetched (hid : id ∉ (s.fetched x).map Prod.fst) : (id, e) ∉ s.fetched x :=
  fun hmem => hid (List.mem_map_of_mem hmem)

/-- Each event that is fetched takes one off the claims that remain. -/
theorem Quiet.work (cfg : Config) (hs : Quiet s) (hx : x.Late) :
    remainingClaims cfg (s.round cfg x).db.outbox + (s.fetched x).length ≤
      remainingClaims cfg s.db.outbox := by
  have hfresh := fetchDue_fresh s.db (s.before x).now
  have hlength : (s.fetched x).length = ((s.fetched x).map Prod.fst).length :=
    (List.length_map _).symm
  rw [hlength]
  refine Table.sum_add_length_le hfresh.nodup (nextId_processEvents hfresh) ?_ ?_ ?_
  · intro j hj
    obtain ⟨q, hq, rfl⟩ := List.mem_map.1 hj
    exact Table.lt_nextId (hfresh.rows q hq)
  · intro j hj
    obtain ⟨q, hq, rfl⟩ := List.mem_map.1 hj
    obtain ⟨he, hpending, e', he', _, _, hsettles⟩ := hs.fetched cfg hx hq
    rw [he, he']
    exact remaining_settles hsettles hpending
  · intro j hj
    rw [get_round cfg hj]

/-- The outbox drains, ten events a round. -/
theorem drains_outbox (cfg : Config) : Drains (State.round cfg) Round.Late Quiet
    (fun s => remainingClaims cfg s.db.outbox) (Within cfg) 10 where
  keeps s x hs hx := hs.round hx
  idle s x hs hx hidle id e' he' := by
    rcases hs.event hx he' with ⟨e, _, _, he, hpending, _⟩ | ⟨_, he⟩
    · exact absurd hpending (remaining_eq_zero.1 (Nat.le_zero.1 (hidle id e he)))
    · exact hidle id e' he
  round n s x hs hx hn := by
    -- A tick that fetches ten uses up ten claims; one that fetches fewer has fetched all
    -- that are pending, so that each of them has a claim fewer left.
    have hwork := hs.work cfg hx
    by_cases hall : (s.fetched x).length = 10
    · refine .inl ⟨fun id e' he' => ?_, by omega⟩
      rcases hs.event hx he' with ⟨e, t₀, t₁, he, hpending, hsettles⟩ | ⟨_, he⟩
      · have hless := remaining_settles hsettles hpending
        have hle := hn id e he
        omega
      · exact hn id e' he
    · -- The tick gets to all that are pending.
      refine .inr ⟨fun id e' he' => ?_, by omega⟩
      rcases hs.event hx he' with ⟨e, t₀, t₁, he, hpending, hsettles⟩ | ⟨hid, he⟩
      · have hless := remaining_settles hsettles hpending
        have hle := hn id e he
        omega
      · by_cases hpending : e'.status = .pending
        · exact absurd (fetchDue_oldest he (hs.isDue hx he hpending)
            (not_mem_fetched hid)).1 hall
        · rw [remaining_eq_zero.2 hpending]
          exact Nat.zero_le _

/-! ## Runs -/

/-- The step is regular, and loses no handler. -/
def Open.Event.Steady (s : State) (x : Open.Event) : Prop :=
  x.isRegular ∧ ∀ a, x = .act a → Unbroken s a

/-- Where requests and events are matched, every deduction has a request that was
    approved. -/
theorem Corresponding.deductionsApproved (hs : Corresponding s) : DeductionsApproved s := by
  have hcopy : ∀ {k : ℕ} {event : OutboxEvent}, CopyOf s.db.outbox k event →
      event.Approved s.db.books := by
    rintro k event ⟨e, he, hsame⟩
    exact (hs.matched.approved he).same hsame
  exact ⟨fun id e he => hs.matched.approved he, fun i q hq => hcopy (hs.queued i q hq),
    fun i h hh => hcopy (hs.copied i h hh)⟩

/-- What holds while the service is running, and loses no handler. -/
structure Serving (s : State) : Prop where
  corresponding : Corresponding s
  soon : DueSoon s
  tended : Tended s

/-- At the start there is nothing to serve. -/
theorem Open.Start.serving (hs₀ : Open.Start s₀) : Serving s₀ := by
  refine ⟨hs₀.corresponding, fun id e he => ?_, fun id e he => ?_⟩
  · rw [hs₀.outbox] at he
    cases he
  · rw [hs₀.outbox] at he
    cases he

theorem Serving.step (hs : Serving s) (hok : a.isRegular) (hunbroken : Unbroken s a)
    (hstep : Stepped cfg s a s') : Serving s' :=
  ⟨hs.corresponding.step hok hstep, hs.soon.step hstep,
    hs.tended.step hs.corresponding.deductionsApproved hunbroken hstep.delivered⟩

theorem Serving.quiet (hs : Serving s) (hidle : ∀ i, s.handler i = none) : Quiet s := by
  refine ⟨hs.corresponding, hs.soon, fun id e he hprocessing => ?_⟩
  obtain ⟨i, h, hh, _⟩ := hs.tended id e he hprocessing
  rw [hidle i] at hh
  cases hh

/-- Once no tick is at work, nothing is under way: no handler has been lost. -/
theorem quiet_of_run {hist : List (State × Open.Event)} (hs₀ : Open.Start s₀)
    (hrun : Run (Open.step cfg) Open.Event.Steady s₀ hist s) (hidle : ∀ i, s.handler i = none) :
    Quiet s := by
  refine (hrun.invariant (I := Serving) hs₀.serving fun s x s' hs hok hnext => ?_).quiet hidle
  cases x with
  | hcm hcm =>
    obtain rfl := Option.some.inj hnext
    have hc := hs.corresponding
    exact ⟨⟨hc.calls, ⟨hc.held.processing, hc.held.single⟩, hc.matched, hc.queued, hc.copied,
      hc.aware⟩, hs.soon, hs.tended⟩
  | act a => exact hs.step hok.1 (hok.2 a rfl) (step_stepped hnext)

/-- After enough late rounds, every event is settled. -/
theorem Quiet.drained {rounds : List Round} (hs : Quiet s) (hlate : ∀ x ∈ rounds, x.Late)
    (hlen : pendingEvents s.db.outbox * cfg.attempts / 10 + cfg.attempts ≤ rounds.length) :
    ∀ id e, (rounds.foldl (State.round cfg) s).db.outbox.get id = some e →
      e.status = .done ∨ e.status = .failed := by
  have hdrains := drains_outbox cfg
  have hwork : remainingClaims cfg s.db.outbox / 10 + cfg.attempts ≤ rounds.length :=
    (Nat.add_le_add_right (Nat.div_le_div_right (remainingClaims_le _)) _).trans hlen
  have hquiet := hdrains.invariant hs hlate
  have hdrained := hdrains.drained (by decide) hs (fun id e _ => remaining_le e) hlate hwork
  intro id e he
  have hpending := remaining_eq_zero.1 (Nat.le_zero.1 (hdrained id e he))
  have hprocessing := hquiet.processing id e he
  cases hstatus : e.status with
  | pending => exact absurd hstatus hpending
  | processing => exact absurd hstatus hprocessing
  | done => exact .inl rfl
  | failed => exact .inr rfl

/-- **The outbox drains.** When no tick is at work, in a state that a run has
    reached without losing a handler, and in which a retry is one step, a number
    of late rounds settle every event, whatever the HCM does. No request is
    waiting for the HCM then. -/
theorem outbox_drains {hist : List (State × Open.Event)} {rounds : List Round}
    (hs₀ : Open.Start s₀) (hrun : Run (Open.step cfg) Open.Event.Steady s₀ hist s)
    (hidle : ∀ i, s.handler i = none) (hlate : ∀ x ∈ rounds, x.Late)
    (hlen : pendingEvents s.db.outbox * cfg.attempts / 10 + cfg.attempts ≤ rounds.length) :
    (∀ id e, (rounds.foldl (State.round cfg) s).db.outbox.get id = some e →
      e.status = .done ∨ e.status = .failed) ∧
    ∀ id r, (rounds.foldl (State.round cfg) s).db.requests.get id = some r →
      r.status ≠ .approvedPendingHcm := by
  have hs := quiet_of_run hs₀ hrun hidle
  have hquiet := (drains_outbox cfg).invariant hs hlate
  have hsettled : ∀ id e, (rounds.foldl (State.round cfg) s).db.outbox.get id = some e →
      e.status = .done ∨ e.status = .failed := hs.drained hlate hlen
  refine ⟨hsettled, fun id r hr hstatus => ?_⟩
  obtain ⟨k, e, he, hopen⟩ := hquiet.corresponding.matched.awaited hr hstatus
  rcases hsettled k e he with hdone | hfailed <;> rcases hopen with hopen | hopen <;> simp_all

/-- The only deduction of an approved request is settled after four rounds. -/
theorem outbox_drains_sample : ∃ hist s, Run (Open.step sampleConfig) Open.Event.Steady
      (sampleStart 10) hist s ∧ pendingEvents s.db.outbox = 1 ∧
    ∀ rounds : List Round, (∀ x ∈ rounds, x.Late) → rounds.length = 4 →
      (∀ id e, (rounds.foldl (State.round sampleConfig) s).db.outbox.get id = some e →
        e.status = .done ∨ e.status = .failed) := by
  have hexec : ∃ s ∈ exec (Open.step sampleConfig) (sampleStart 10)
      ((sampleApproval 2).map .act), pendingEvents s.db.outbox = 1 ∧ s.ticks.nextId = 0 := by
    decide +kernel
  have hquiet : ∀ x ∈ (sampleApproval 2).map Open.Event.act, (fun x : Open.Event =>
      x.isRegular ∧ x ≠ .act .crash ∧ ∀ i o, x ≠ .act (.handle i o)) x := by
    simp [sampleApproval, sampleSubmit, Open.Event.isRegular, Action.isRegular]
  obtain ⟨s, hrun, hpending, hnone⟩ := exists_run_of_exec hquiet hexec
  have hrun' : Run (Open.step sampleConfig) Open.Event.Steady (sampleStart 10) _ s :=
    hrun.mono fun s x hx => ⟨hx.1, by
      rintro a rfl
      exact ⟨fun ha => absurd (congrArg _ ha) hx.2.1,
        fun i o _ ha => absurd (congrArg _ ha) (hx.2.2 i o)⟩⟩
  refine ⟨_, s, hrun', hpending, fun rounds hlate hlen => ?_⟩
  exact (outbox_drains ⟨fun _ => rfl, fun _ => rfl, rfl, rfl⟩ hrun'
    (fun i => handler_of_le (by rw [hnone]; exact Nat.zero_le i)) hlate
    (by rw [hpending, hlen]; decide)).1

end TimeOff
