import TimeOff.Correspondence
import TimeOff.Lib.Spaced
import TimeOff.RetryAccounting

/-!
# The backoff over a run

In the runs without retries in which ticks claim events as they have fetched them
(`Paced`), the failures of an event are as far apart as the backoff says
(`failures_spaced`), and it takes `HCM_MAX_RETRIES` of them to give it up.

Where ticks overlap, they may be closer together and more. But an event with so
many attempts is not fetched before its backoffs are over, however old the copy
is that is worked on then (`Waited`). So nothing fails for good in an outage that
is shorter than the backoffs together (`outage_tolerated`), which are 35.5 minutes
as the service is shipped.
-/

namespace TimeOff

open Transaction Transition

/-- The delay after the `n`th failure, in milliseconds. -/
def backoff (cfg : Config) (n : ℕ) : ℤ := calculateNextRetryAt cfg 0 n

/-- When the failures of the event have been recorded. -/
def failures (cfg : Config) (id : ℕ) (hist : List (State × Action)) : List Instant :=
  hist.filterMap fun x => if recordsFailure cfg id x then some x.1.now else none

/-- What the failures of an event say about its row, at the time `now`. -/
structure Failing (cfg : Config) (now : Instant) (ts : List Instant) (e : OutboxEvent) : Prop where
  attempts : e.attempts = ts.length
  pending : e.status = .pending →
    ∀ t ∈ ts.getLast?, e.nextRetryAt = some (t + backoff cfg ts.length)
  processing : e.status = .processing → ∀ t ∈ ts.getLast?, t + backoff cfg ts.length ≤ now
  failed : e.status = .failed → cfg.hcmMaxRetries ≤ ts.length

variable {cfg : Config} {s s' s₀ : State} {a : Action} {id : ℕ} {e : OutboxEvent}
  {hist : List (State × Action)} {now now' : Instant} {ts : List Instant} {r : TimeOffRequest}

theorem calculateNextRetryAt_eq (now : Instant) (n : ℕ) :
    calculateNextRetryAt cfg now n = now + backoff cfg n := by
  rw [backoff, calculateNextRetryAt, calculateNextRetryAt, zero_add]

theorem failures_snoc : failures cfg id (hist ++ [(s, a)]) =
    failures cfg id hist ++ if recordsFailure cfg id (s, a) then [s.now] else [] := by
  rw [failures, filterMap_snoc]
  split <;> rfl

/-! ## One step -/

theorem Failing.mono (h : Failing cfg now ts e) (hle : now ≤ now') : Failing cfg now' ts e where
  attempts := h.attempts
  pending := h.pending
  processing hstatus t ht := (h.processing hstatus t ht).trans hle
  failed := h.failed

theorem Failing.done (h : Failing cfg now ts e) : Failing cfg now ts (e.setStatus .done) where
  attempts := h.attempts
  pending hstatus := by cases hstatus
  processing hstatus := by cases hstatus
  failed hstatus := by cases hstatus

/-- The event is claimed when it is due, i.e., when the backoff is over. -/
theorem Failing.claim (h : Failing cfg now ts e) (hpending : e.status = .pending)
    (hdue : ∀ due ∈ e.nextRetryAt, due ≤ now) :
    Failing cfg now ts (e.setStatus .processing) where
  attempts := h.attempts
  pending hstatus := by cases hstatus
  processing _ t ht := hdue _ (h.pending hpending t ht)
  failed hstatus := by cases hstatus

/-- One more failure. -/
theorem Failing.record (h : Failing cfg now ts e) :
    Failing cfg now (ts ++ [now]) (e.recordFailure cfg now (e.attempts + 1)) := by
  have hlength : (ts ++ [now]).length = e.attempts + 1 := by
    rw [List.length_append, List.length_singleton, h.attempts]
  have hlast : (ts ++ [now]).getLast? = some now := List.getLast?_concat
  rw [OutboxEvent.recordFailure]
  split
  · next hfail =>
    rw [shouldMarkFailed, decide_eq_true_eq] at hfail
    exact ⟨hlength.symm, fun h => (by cases h), fun h => (by cases h), fun _ => hlength ▸ hfail⟩
  · refine ⟨hlength.symm, fun _ t ht => ?_, fun h => (by cases h), fun h => by cases h⟩
    obtain rfl : now = t := Option.some.inj (hlast.symm.trans ht)
    rw [hlength]
    exact congrArg some (calculateNextRetryAt_eq _ _)

/-! ## Runs -/

/-- What the history says about the row of an event, if there is one. -/
structure Tracked (cfg : Config) (now : Instant) (ts : List Instant) (o : Option OutboxEvent) :
    Prop where
  spaced : Spaced (backoff cfg) ts
  none : o = none → ts = []
  row : ∀ e ∈ o, Failing cfg now ts e

/-- One step keeps the record of the failures of an event: they are spaced, and
    the row says how many they are and when the last one was. -/
theorem Tracked.step {o o' : Option OutboxEvent} (h : Tracked cfg s.now (failures cfg id hist) o)
    (hrow : RowStep cfg s a id o o') (hle : s.now ≤ now')
    (hdue : claims id (s, a) → ∀ e ∈ o, ∀ due ∈ e.nextRetryAt, due ≤ s.now)
    (hcopies : ∀ i h, s.handler i = some h → h.id = id → ∀ e ∈ o, e.attempts = h.event.attempts) :
    Tracked cfg now' (failures cfg id (hist ++ [(s, a)])) o' := by
  rw [failures_snoc]
  -- By what the step does to the row. Only a recorded failure makes the list longer, and it
  -- is the row, not the copy of the handler, that says how long it has been.
  cases hrow with
  | same _ _ hrecords =>
    rw [hrecords, if_neg Bool.false_ne_true, List.append_nil]
    exact ⟨h.spaced, h.none, fun e he => (h.row e he).mono hle⟩
  | posted _ hrecords hpending hattempts =>
    rw [hrecords, if_neg Bool.false_ne_true, h.none rfl]
    refine ⟨.nil, fun _ => rfl, ?_⟩
    rintro _ ⟨⟩
    exact ⟨hattempts, nofun, nofun, fun hfailed => by rw [hpending] at hfailed; cases hfailed⟩
  | claimed hclaims hrecords hpending =>
    rw [hrecords, if_neg Bool.false_ne_true, List.append_nil]
    refine ⟨h.spaced, nofun, ?_⟩
    rintro _ ⟨⟩
    exact ((h.row _ rfl).claim hpending (hdue hclaims _ rfl)).mono hle
  | finished _ hrecords _ _ _ =>
    rw [hrecords, if_neg Bool.false_ne_true, List.append_nil]
    refine ⟨h.spaced, nofun, ?_⟩
    rintro _ ⟨⟩
    exact (h.row _ rfl).done.mono hle
  | @recorded i q e _ hrecords hh hid hprocessing =>
    rw [hrecords, if_pos rfl]
    have hfailing := h.row e rfl
    refine ⟨h.spaced.snoc (hfailing.processing hprocessing), nofun, ?_⟩
    rintro _ ⟨⟩
    rw [← hcopies i q hh hid e rfl]
    exact hfailing.record.mono hle

/-- The record is kept in every run without retries. -/
theorem tracked_of_run (hmax : 0 < cfg.hcmMaxRetries) (hticks : s₀.ticks = .empty)
    (houtbox : ∀ id, s₀.db.outbox.get id = none) (hrun : Run (step cfg) Paced s₀ hist s)
    (id : ℕ) : Tracked cfg s.now (failures cfg id hist) (s.db.outbox.get id) := by
  refine hrun.history (I := fun hist s =>
    Tracked cfg s.now (failures cfg id hist) (s.db.outbox.get id)) ?_ ?_
  · rw [houtbox]
    exact ⟨.nil, fun _ => rfl, nofun⟩
  · intro hist s a s' hrun htracked hok hnext
    have hstep := step_stepped hnext
    have hacc := accounted_of_run hmax hticks
      (fun id e he => by rw [houtbox] at he; cases he) hrun
    have hheld := held_of_run hticks (hrun.mono fun _ _ hok => hok.retriesFailed)
    refine htracked.step (hstep.delivered.row hheld hok id) hstep.now_le
      (fun hclaims e he => hacc.queues.due_of_claims hok hclaims he) ?_
    rintro i h hh rfl e he
    exact hacc.copies.attempts hh he

/-- **Failures are spaced.** In every run without retries in which ticks claim
    events as they have fetched them, two failures of an event in a row are at
    least the backoff apart. If `HCM_MAX_RETRIES` is not `0`, an event is given up
    with so many failures, and not before the backoffs between them have passed. -/
theorem failures_spaced (hmax : 0 < cfg.hcmMaxRetries) (hticks : s₀.ticks = .empty)
    (houtbox : ∀ id, s₀.db.outbox.get id = none) (hrun : Run (step cfg) Paced s₀ hist s) (id : ℕ) :
    (∀ n t t', (failures cfg id hist)[n]? = some t → (failures cfg id hist)[n + 1]? = some t' →
      t + backoff cfg (n + 1) ≤ t') ∧
    ∀ e, s.db.outbox.get id = some e → e.status = .failed →
      (failures cfg id hist).length = cfg.hcmMaxRetries ∧
      ∃ t t', (failures cfg id hist)[0]? = some t ∧
        (failures cfg id hist)[cfg.hcmMaxRetries - 1]? = some t' ∧
        t + totalGap (backoff cfg) (cfg.hcmMaxRetries - 1) ≤ t' := by
  have htracked := tracked_of_run hmax hticks houtbox hrun id
  refine ⟨htracked.spaced, fun e he hfailed => ?_⟩
  have hfailing := htracked.row e he
  have hlimit := (accounted_of_run hmax hticks
    (fun id e he => by rw [houtbox] at he; cases he) hrun).limit id e he
  have hlength : (failures cfg id hist).length = cfg.hcmMaxRetries :=
    le_antisymm (hfailing.attempts ▸ hlimit.1) (hfailing.failed hfailed)
  have hfirst : 0 < (failures cfg id hist).length := by omega
  have hlast : cfg.hcmMaxRetries - 1 < (failures cfg id hist).length := by omega
  exact ⟨hlength, _, _, List.getElem?_eq_getElem hfirst, List.getElem?_eq_getElem hlast,
    htracked.spaced.span (List.getElem?_eq_getElem hfirst) (List.getElem?_eq_getElem hlast)⟩

/-- The days of the request are not deducted, and the third failure follows
    300 s after the second. -/
def sampleOutage : List Action :=
  sampleApproval 2 ++ [.tick, .claim 0 .ok, .handle 0 .throws, .handle 0 .ok] ++
    [.advance 30000, .tick, .claim 1 .ok, .handle 1 .throws, .handle 1 .ok] ++
    [.advance 300000, .tick, .claim 2 .ok, .handle 2 .throws, .handle 2 .ok]

/-- Three failures, 30 s and 300 s apart. -/
theorem failures_spaced_sample :
    failures sampleConfig 0 (trace (step sampleConfig) (sampleStart 10) sampleOutage) =
      [0, 30000, 330000] ∧
    ∀ n t t', ([0, 30000, 330000] : List ℤ)[n]? = some t →
      ([0, 30000, 330000] : List ℤ)[n + 1]? = some t' → t + backoff sampleConfig (n + 1) ≤ t' := by
  have hexec : (exec (step sampleConfig) (sampleStart 10) sampleOutage).isSome := by decide +kernel
  have hok : ∀ x ∈ trace (step sampleConfig) (sampleStart 10) sampleOutage,
      x.2.isRetry = false ∧ claimsFresh x.1 x.2 := by decide +kernel
  have hfailures : failures sampleConfig 0
      (trace (step sampleConfig) (sampleStart 10) sampleOutage) = [0, 30000, 330000] := by
    decide +kernel
  obtain ⟨s, hs⟩ := Option.isSome_iff_exists.1 hexec
  have hrun : Run (step sampleConfig) Paced (sampleStart 10) _ s :=
    run_of_exec (fun x hx => ⟨(hok x hx).1, (hok x hx).2⟩) hs
  have hspaced := (failures_spaced (by decide) rfl (fun _ => rfl) hrun 0).1
  rw [hfailures] at hspaced
  exact ⟨hfailures, hspaced⟩

/-! ## Outages -/

/-- After `n` failures: at the time `now` their backoffs are over, the first of
    which has started at `start` or later. One more may be the last. -/
def Waited (cfg : Config) (start now : Instant) (n : ℕ) : Prop :=
  n ≤ cfg.hcmMaxRetries - 1 ∧ (0 < n → start + totalGap (backoff cfg) n ≤ now)

theorem Waited.mono {start : Instant} {n : ℕ} (h : Waited cfg start now n) (hle : now ≤ now') :
    Waited cfg start now' n :=
  ⟨h.1, fun hpos => (h.2 hpos).trans hle⟩

/-- Nothing has been given up, and nothing is worked on, or will be, before the
    backoffs of its attempts are over. -/
structure Bridged (cfg : Config) (start : Instant) (s : State) : Prop where
  events : ∀ id e, s.db.outbox.get id = some e → e.status ≠ .failed
  requests : ∀ id r, s.db.requests.get id = some r → r.status ≠ .failed
  rows : ∀ id e, s.db.outbox.get id = some e → e.status = .pending →
    ∀ now, e.isDue now → Waited cfg start now e.attempts
  queues : ∀ i q, s.Queued i q → Waited cfg start s.now q.2.attempts
  copies : ∀ i h, s.handler i = some h → Waited cfg start s.now h.event.attempts

/-- A failure in an outage that has been too short: the event is put back, and
    waits for one more backoff. -/
theorem Waited.record {start : Instant} {duration : ℤ} {n : ℕ} (h : Waited cfg start now n)
    (hduration : duration < totalGap (backoff cfg) (cfg.hcmMaxRetries - 1))
    (hstart : start ≤ now) (hend : now ≤ start + duration) (e : OutboxEvent) :
    (e.recordFailure cfg now (n + 1)).status = .pending ∧
      ∀ now', (e.recordFailure cfg now (n + 1)).isDue now' →
        Waited cfg start now' (e.recordFailure cfg now (n + 1)).attempts := by
  have hwaited : start + totalGap (backoff cfg) n ≤ now := by
    rcases Nat.eq_zero_or_pos n with rfl | hpos
    · rw [totalGap, add_zero]
      exact hstart
    · exact h.2 hpos
  -- With its last failure, the outage would have been as long as all backoffs.
  have hretry : shouldMarkFailed cfg (n + 1) = false := by
    refine decide_eq_false fun hle => ?_
    have hn : n = cfg.hcmMaxRetries - 1 := by
      have := h.1
      omega
    rw [← hn] at hduration
    have hlong : start + totalGap (backoff cfg) n ≤ start + duration := hwaited.trans hend
    exact absurd (le_of_add_le_add_left hlong) (not_le.2 hduration)
  have hrecord : e.recordFailure cfg now (n + 1) =
      e.reschedule (n + 1) (calculateNextRetryAt cfg now (n + 1)) := by
    rw [OutboxEvent.recordFailure, hretry, if_neg Bool.false_ne_true]
  rw [hrecord]
  refine ⟨rfl, fun now' hdue => ⟨?_, fun _ => ?_⟩⟩
  · have hlt := of_decide_eq_false hretry
    change n + 1 ≤ cfg.hcmMaxRetries - 1
    omega
  · have hle : calculateNextRetryAt cfg now (n + 1) ≤ now' :=
      of_decide_eq_true (Bool.and_eq_true_iff.1 hdue).2
    rw [calculateNextRetryAt_eq] at hle
    calc start + totalGap (backoff cfg) (n + 1)
        = start + totalGap (backoff cfg) n + backoff cfg (n + 1) := (add_assoc _ _ _).symm
      _ ≤ now + backoff cfg (n + 1) := Int.add_le_add_right hwaited _
      _ ≤ now' := hle

/-- What is fetched is due. -/
theorem Bridged.queues_step {start : Instant} (hs : Bridged cfg start s)
    (hstep : Stepped cfg s a s') (i : ℕ) (q : ℕ × OutboxEvent) (hq : s'.Queued i q) :
    Waited cfg start s'.now q.2.attempts := by
  refine Waited.mono ?_ hstep.now_le
  rcases hstep.queued hq with hq | hq
  · exact hs.queues i q hq
  · obtain ⟨he, hdue⟩ := mem_fetchDue hq
    exact hs.rows q.1 q.2 he (of_decide_eq_true (Bool.and_eq_true_iff.1 hdue).1) s.now hdue

/-- A handler works on what its tick has fetched. -/
theorem Bridged.copies_step {start : Instant} (hs : Bridged cfg start s)
    (hd : Delivered cfg s a s') (hle : s.now ≤ s'.now) (i : ℕ) (h : Handler)
    (hh : s'.handler i = some h) : Waited cfg start s'.now h.event.attempts := by
  refine Waited.mono ?_ hle
  -- A handler gets its copy when it claims an event, from the queue of its tick, and keeps
  -- it until it is over.
  cases hd with
  | stay _ _ hhandler | post _ _ _ hhandler | requeue _ _ _ hhandler =>
    exact hs.copies i h (hhandler ▸ hh)
  | @claim j id event e queue _ ht _ _ _ _ _ hhandler =>
    rw [hhandler, PartialMap.set_eq_some] at hh
    rcases hh with ⟨_, rfl⟩ | ⟨_, hh⟩
    · exact hs.queues j (id, event) ⟨_, ht, List.mem_cons_self⟩
    · exact hs.copies i h hh
  | @proceed j g _ hj _ _ hhandler =>
    rw [hhandler, PartialMap.set_eq_some] at hh
    rcases hh with ⟨_, rfl⟩ | ⟨_, hh⟩
    · exact hs.copies j g hj
    · exact hs.copies i h hh
  | finish _ _ _ hhandler | record _ _ _ _ hhandler | abort _ _ _ _ _ hhandler =>
    rw [hhandler, PartialMap.unset_eq_some] at hh
    exact hs.copies i h hh.2
  | crash _ _ _ hhandler =>
    rw [hhandler] at hh
    cases hh

/-- The events after a step: none of them is given up. -/
theorem Bridged.events_step {start : Instant} {duration : ℤ} (hs : Bridged cfg start s)
    (hok : a.isRegular) (hd : Delivered cfg s a s')
    (hduration : duration < totalGap (backoff cfg) (cfg.hcmMaxRetries - 1))
    (houtage : ∀ id, recordsFailure cfg id (s, a) → start ≤ s.now ∧ s.now ≤ start + duration)
    (id : ℕ) (e : OutboxEvent) (he : s'.db.outbox.get id = some e) :
    e.status ≠ .failed ∧ (e.status = .pending → ∀ now, e.isDue now →
      Waited cfg start now e.attempts) := by
  have hold : ∀ {e}, s.db.outbox.get id = some e → e.status ≠ .failed ∧
      (e.status = .pending → ∀ now, e.isDue now → Waited cfg start now e.attempts) :=
    fun he => ⟨hs.events id _ he, hs.rows id _ he⟩
  cases hd with
  | stay _ hout _ | proceed _ _ _ hout _ | abort _ _ _ _ hout _ | crash _ _ hout _ =>
    exact hold (hout ▸ he)
  | post _ hposted hout _ =>
    rw [hout] at he
    rcases Table.get_insert_eq_some.1 he with ⟨_, rfl⟩ | he
    · refine ⟨by rw [hposted.status]; nofun, fun _ now _ => ?_⟩
      rw [hposted.attempts]
      exact ⟨Nat.zero_le _, fun hpos => absurd hpos (Nat.lt_irrefl 0)⟩
    · exact hold he
  | claim _ _ _ _ _ _ hout _ | finish _ _ hout _ =>
    rw [hout] at he
    rcases Table.get_update_eq_some.1 he with ⟨_, e₀, _, rfl⟩ | ⟨_, he⟩
    · exact ⟨nofun, nofun⟩
    · exact hold he
  | @record j h hh _ hrecords hout _ =>
    rw [hout] at he
    rcases Table.get_update_eq_some.1 he with ⟨_, e₀, _, rfl⟩ | ⟨_, he⟩
    · have htime := houtage h.id (by rw [hrecords]; exact decide_eq_true rfl)
      obtain ⟨hpending, hdue⟩ := (hs.copies j h hh).record hduration htime.1 htime.2 e₀
      exact ⟨by rw [hpending]; nofun, fun _ => hdue⟩
    · exact hold he
  | requeue ha _ hout _ =>
    -- There is nothing to retry.
    rcases ha with ⟨n, rfl, _⟩ | ⟨rfl, e₁, he₁, hfailed⟩
    · cases hok
    · exact absurd hfailed (hs.events _ e₁ he₁)

/-- A request that has failed has failed before, or fails with its deduction. -/
theorem Turn.failed {db db' : Database} (hturn : Turn db db') (hr : db'.requests.get id = some r)
    (hfailed : r.status = .failed) :
    (∃ r₀, db.requests.get id = some r₀ ∧ r₀.status = .failed) ∨
      ∃ k e, db'.outbox.get k = some e ∧ e.status = .failed ∧ e.requestId = id := by
  have hupdate : ∀ {j : ℕ} {f : TimeOffRequest → TimeOffRequest},
      db'.requests = db.requests.update j f →
      (∀ r₀, db.requests.get j = some r₀ → (f r₀).status ≠ .failed) →
      ∃ r₀, db.requests.get id = some r₀ ∧ r₀.status = .failed := by
    intro j f hreq hf
    rw [hreq] at hr
    rcases Table.get_update_eq_some.1 hr with ⟨rfl, r₀, hr₀, rfl⟩ | ⟨_, hr⟩
    · exact absurd hfailed (hf r₀ hr₀)
    · exact ⟨r, hr, hfailed⟩
  -- Only `fail` moves a request to `FAILED`, and it leaves its event `FAILED` in the same
  -- transaction.
  cases hturn with
  | stay hreq _ | pass _ _ _ _ _ hreq _ | finish _ _ _ _ hreq _ =>
    exact .inl ⟨r, hreq ▸ hr, hfailed⟩
  | submit hreq _ =>
    rw [hreq] at hr
    rcases Table.get_insert_eq_some.1 hr with ⟨_, rfl⟩ | hr
    · cases hfailed
    · exact .inl ⟨r, hr, hfailed⟩
  | settle _ _ htarget _ hreq _ =>
    refine .inl (hupdate hreq fun r₀ _ => ?_)
    rcases htarget with rfl | rfl <;> exact nofun
  | approve _ _ _ hreq _ | cancel _ _ hreq _ => exact .inl (hupdate hreq fun r₀ _ => nofun)
  | @fail k e r₁ n he _ _ hr₁ hcase hout =>
    rcases hcase with ⟨_, hreq⟩ | ⟨_, hreq⟩
    · exact .inl ⟨r, hreq ▸ hr, hfailed⟩
    · by_cases hid : id = e.requestId
      · exact .inr ⟨k, e.exhaust n, by rw [hout, Table.get_update_self he], rfl, hid.symm⟩
      · rw [hreq, Table.get_update_of_ne hid] at hr
        exact .inl ⟨r, hr, hfailed⟩
  | @confirm k e r₁ _ g _ _ _ hr₁ hcase hreq _ =>
    refine .inl (hupdate hreq fun r₀ hr₀ => ?_)
    obtain rfl := Option.some.inj (hr₁.symm.trans hr₀)
    rcases hcase with ⟨hcancelled, rfl⟩ | ⟨_, rfl⟩
    · exact fun hs => nomatch hcancelled.symm.trans hs
    · exact nofun

/-- One step keeps the bridge: within the outage no event has waited through all
    of its backoffs, so that none is given up. -/
theorem Bridged.step {start : Instant} {duration : ℤ} (hs : Bridged cfg start s)
    (hcorresponding : Corresponding s) (hok : a.isRegular) (hstep : Stepped cfg s a s')
    (hduration : duration < totalGap (backoff cfg) (cfg.hcmMaxRetries - 1))
    (houtage : ∀ id, recordsFailure cfg id (s, a) → start ≤ s.now ∧ s.now ≤ start + duration) :
    Bridged cfg start s' := by
  have hevents := hs.events_step hok hstep.delivered hduration houtage
  refine ⟨fun id e he => (hevents id e he).1, fun id r hr hfailed => ?_,
    fun id e he => (hevents id e he).2, hs.queues_step hstep,
    hs.copies_step hstep.delivered hstep.now_le⟩
  rcases (hstep.turn hcorresponding hok).failed hr hfailed with
    ⟨r₀, hr₀, hfailed₀⟩ | ⟨k, e, he, hfailed, _⟩
  · exact hs.requests id r₀ hr₀ hfailed₀
  · exact (hevents k e he).1 hfailed

/-- **An outage is tolerated.** If all failures of a run are recorded within a
    time that is shorter than the backoffs together, no event is given up, and
    no request has failed, however the ticks overlap. Events may be retried, as
    long as a retry is one step. -/
theorem outage_tolerated (hs₀ : Open.Start s₀) (hrun : Run (step cfg) Regular s₀ hist s)
    {start : Instant} {duration : ℤ}
    (hduration : duration < totalGap (backoff cfg) (cfg.hcmMaxRetries - 1))
    (houtage : ∀ x ∈ hist, ∀ id, recordsFailure cfg id x →
      start ≤ x.1.now ∧ x.1.now ≤ start + duration) :
    (∀ id e, s.db.outbox.get id = some e → e.status ≠ .failed) ∧
    ∀ id r, s.db.requests.get id = some r → r.status ≠ .failed := by
  have hshort : Run (step cfg) (fun s a => Regular s a ∧ ∀ id, recordsFailure cfg id (s, a) →
      start ≤ s.now ∧ s.now ≤ start + duration) s₀ hist s := hrun.and houtage
  -- The request that has failed has an event that has: both invariants go through the run
  -- together.
  have hbridged : Corresponding s ∧ Bridged cfg start s := by
    refine hshort.invariant (I := fun s => Corresponding s ∧ Bridged cfg start s)
      ⟨hs₀.corresponding, ?_⟩ fun s a s' ⟨hcorresponding, hs⟩ hok hnext => ?_
    · refine ⟨fun id e he => ?_, fun id r hr => ?_, fun id e he => ?_, ?_, fun i h hh => ?_⟩
      · rw [hs₀.outbox] at he
        cases he
      · rw [hs₀.requests] at hr
        cases hr
      · rw [hs₀.outbox] at he
        cases he
      · rintro i q ⟨t, ht, _⟩
        rw [hs₀.ticks] at ht
        cases ht
      · rw [State.handler, hs₀.ticks] at hh
        cases hh
    · have hstep := step_stepped hnext
      exact ⟨hcorresponding.step hok.1 hstep,
        hs.step hcorresponding hok.1 hstep hduration hok.2⟩
  exact ⟨hbridged.2.events, hbridged.2.requests⟩

/-- Three ticks have fetched the event before one of them claims it: three
    failures at once, and another one half an hour later. -/
def sampleOverlap : List Action :=
  sampleApproval 2 ++ [.tick, .tick, .tick, .claim 0 .ok, .handle 0 .throws, .handle 0 .ok,
    .claim 1 .ok, .handle 1 .throws, .handle 1 .ok, .claim 2 .ok, .handle 2 .throws,
    .handle 2 .ok, .advance 1800000, .tick, .claim 3 .ok, .handle 3 .throws, .handle 3 .ok]

/-- As the service is shipped, 35.5 minutes are bridged. -/
theorem outage_tolerated_sample : totalGap (backoff sampleConfig) 3 = 2130000 ∧
    ∃ s, Run (step sampleConfig) Regular (sampleStart 10)
      (trace (step sampleConfig) (sampleStart 10) sampleOverlap) s ∧
    (failures sampleConfig 0 (trace (step sampleConfig) (sampleStart 10) sampleOverlap)).length =
      4 ∧
    ∀ id r, s.db.requests.get id = some r → r.status ≠ .failed := by
  have hexec : ∃ s ∈ exec (step sampleConfig) (sampleStart 10) sampleOverlap, (failures sampleConfig
      0 (trace (step sampleConfig) (sampleStart 10) sampleOverlap)).length = 4 := by decide +kernel
  have hregular : ∀ x ∈ trace (step sampleConfig) (sampleStart 10) sampleOverlap,
      x.2.isRegular := by decide +kernel
  have houtage : ∀ x ∈ trace (step sampleConfig) (sampleStart 10) sampleOverlap,
      0 ≤ x.1.now ∧ x.1.now ≤ 1800000 := by decide +kernel
  have hduration : (1800000 : ℤ) <
      totalGap (backoff sampleConfig) (sampleConfig.hcmMaxRetries - 1) := by decide +kernel
  obtain ⟨s, hs, hfailures⟩ := hexec
  have hrun : Run (step sampleConfig) Regular (sampleStart 10) _ s := run_of_exec hregular hs
  refine ⟨by decide +kernel, s, hrun, hfailures, ?_⟩
  exact (outage_tolerated ⟨fun _ => rfl, fun _ => rfl, rfl, rfl⟩ hrun hduration
    fun x hx _ _ => houtage x hx).2

end TimeOff
