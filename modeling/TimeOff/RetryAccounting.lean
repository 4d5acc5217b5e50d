import TimeOff.Handlers

/-!
# Retry accounting

`handleEventFailure` writes the attempts of the copy that its tick has fetched,
and one more. This counts the failures, and keeps to the backoff and to
`HCM_MAX_RETRIES`, if every tick finds the event that it claims as it has
fetched it (`ClaimsFresh`). The claim does not check that: while a tick is busy
with the events before, another may have claimed the event, failed, and put it
back for later.

The invariant (`Accounted`) relates the attempts of an event to the history of
the run: its claims and its recorded failures.

* `Delivered.row`: what one step does to one event, by cases (`RowStep`);
* `accounted_of_run`: the invariant, by induction on the history;
* `retry_accounting`: the counts, the backoff and the limit that follow from it;
* `stale_ticks`: six ticks that have fetched the event before any of them claims
  it.
-/

namespace TimeOff

open Transaction Transition

variable {cfg : Config} {s s' s₀ : State} {a : Action} {id i j : ℕ} {e : OutboxEvent}
  {h : Handler} {hist : List (State × Action)} {o o' : Option OutboxEvent}

/-- The steps of `OutboxController.retry`. -/
def Action.isRetry : Action → Bool
  | .checkRetry _ | .writeRetry _ | .retry _ => true
  | _ => false

/-- If the step claims an event, its attempts and its `next_retry_at` are those
    that the tick has fetched. -/
def claimsFresh (s : State) (a : Action) : Bool :=
  match a with
  | .claim i .ok =>
    match s.ticks.get i with
    | some ⟨(id, event) :: _, none⟩ => (s.db.outbox.get id).all fun e => e.status ≠ .pending ||
        (e.attempts = event.attempts && e.nextRetryAt = event.nextRetryAt)
    | _ => true
  | _ => true

/-- There is no retry, and claims are fresh. -/
structure Paced (s : State) (a : Action) : Prop where
  noRetry : a.isRetry = false
  fresh : claimsFresh s a

theorem Paced.retriesFailed (hok : Paced s a) : RetriesFailed s a := by
  rintro n id rfl
  cases hok.noRetry

/-- A claim that is paced is made with a copy as fresh as the row. -/
theorem Paced.claim_fresh {event : OutboxEvent} {queue : List (ℕ × OutboxEvent)}
    (hok : Paced s (.claim i .ok)) (ht : s.ticks.get i = some ⟨(id, event) :: queue, none⟩)
    (he : s.db.outbox.get id = some e) (hpending : e.status = .pending) :
    e.attempts = event.attempts ∧ e.nextRetryAt = event.nextRetryAt := by
  have hfresh := hok.fresh
  simpa [claimsFresh, ht, he, hpending] using hfresh

/-! ## The row of an event -/

/-- What a step does to the row of one event. -/
inductive RowStep (cfg : Config) (s : State) (a : Action) (id : ℕ) :
    Option OutboxEvent → Option OutboxEvent → Prop
  | same (o : Option OutboxEvent) : claims id (s, a) = false →
      recordsFailure cfg id (s, a) = false → RowStep cfg s a id o o
  | posted {e : OutboxEvent} : claims id (s, a) = false → recordsFailure cfg id (s, a) = false →
      e.status = .pending → e.attempts = 0 → RowStep cfg s a id none (some e)
  | claimed {e : OutboxEvent} : claims id (s, a) = true → recordsFailure cfg id (s, a) = false →
      e.status = .pending → RowStep cfg s a id (some e) (some (e.setStatus .processing))
  | finished {i : ℕ} {h : Handler} {e : OutboxEvent} : claims id (s, a) = false →
      recordsFailure cfg id (s, a) = false → s.handler i = some h → h.id = id →
      e.status = .processing → RowStep cfg s a id (some e) (some (e.setStatus .done))
  | recorded {i : ℕ} {h : Handler} {e : OutboxEvent} : claims id (s, a) = false →
      recordsFailure cfg id (s, a) = true → s.handler i = some h → h.id = id →
      e.status = .processing →
      RowStep cfg s a id (some e) (some (e.recordFailure cfg s.now (h.event.attempts + 1)))

/-- What a step does to one event. -/
theorem Delivered.row (hheld : Held s) (hok : Paced s a) (hd : Delivered cfg s a s') (id : ℕ) :
    RowStep cfg s a id (s.db.outbox.get id) (s'.db.outbox.get id) := by
  -- One case for each effect: at most the one event that it names changes.
  cases hd with
  | stay hquiet hout _ => exact hout ▸ .same _ (hquiet id).1 (hquiet id).2
  | post hquiet hposted hout _ =>
    rw [hout, Table.get_insert]
    split
    · next hid =>
      rw [hid, Table.get_nextId]
      exact .posted (hquiet _).1 (hquiet _).2 hposted.status hposted.attempts
    · exact .same _ (hquiet id).1 (hquiet id).2
  | @claim i id' event e _ _ _ he hpending hclaims hrecords hout _ =>
    rw [hout, Table.get_update]
    split
    · next hid =>
      rw [hid, he]
      exact .claimed (by rw [hclaims]; simp) (hrecords _) hpending
    · next hid => exact .same _ (by rw [hclaims, decide_eq_false hid]) (hrecords id)
  | proceed _ _ hquiet hout _ => exact hout ▸ .same _ (hquiet id).1 (hquiet id).2
  | @finish i h hh hquiet hout _ =>
    rw [hout, Table.get_update]
    split
    · next hid =>
      obtain ⟨e, he, hprocessing⟩ := hheld.processing i h hh
      rw [hid, he]
      exact .finished (hquiet _).1 (hquiet _).2 hh rfl hprocessing
    · exact .same _ (hquiet id).1 (hquiet id).2
  | @record i h hh hclaims hrecords hout _ =>
    rw [hout, Table.get_update]
    split
    · next hid =>
      obtain ⟨e, he, hprocessing⟩ := hheld.processing i h hh
      rw [hid, he]
      exact .recorded (hclaims _) (by rw [hrecords]; simp) hh rfl hprocessing
    · next hid => exact .same _ (hclaims id) (by rw [hrecords, decide_eq_false hid])
  | abort _ _ _ hquiet hout _ => exact hout ▸ .same _ (hquiet id).1 (hquiet id).2
  | requeue ha _ _ _ =>
    -- There is no retry in the run.
    have hnoRetry := hok.noRetry
    rcases ha with ⟨n, rfl, _⟩ | ⟨rfl, _⟩ <;> cases hnoRetry
  | crash _ hquiet hout _ => exact hout ▸ .same _ (hquiet id).1 (hquiet id).2

/-! ## Attempts -/

/-- The attempts of an event, `0` while it is not there. -/
def attemptsOf (t : Table OutboxEvent) (id : ℕ) : ℕ := (t.get id).elim 0 (·.attempts)

/-- `1` from the claim of an event until a failure is recorded. -/
def inHand (t : Table OutboxEvent) (id : ℕ) : ℕ :=
  (t.get id).elim 0 fun e => if e.status = .processing ∨ e.status = .done then 1 else 0

/-- Handlers work on the attempts in the row of their event. -/
def CopiesFresh (s : State) : Prop :=
  ∀ i h, s.handler i = some h → attemptsOf s.db.outbox h.id = h.event.attempts

theorem CopiesFresh.attempts (hcopies : CopiesFresh s) (hh : s.handler i = some h)
    (he : s.db.outbox.get h.id = some e) : e.attempts = h.event.attempts := by
  have hattempts := hcopies i h hh
  rwa [attemptsOf, he, Option.elim_some] at hattempts

theorem attempts_recordFailure (now : Instant) (n : ℕ) :
    (e.recordFailure cfg now n).attempts = n := by
  rw [OutboxEvent.recordFailure]
  split <;> rfl

/-- The attempts count the failures that are recorded. -/
theorem attemptsOf_step (hcopies : CopiesFresh s)
    (hrow : RowStep cfg s a id (s.db.outbox.get id) (s'.db.outbox.get id)) :
    attemptsOf s'.db.outbox id =
      attemptsOf s.db.outbox id + if recordsFailure cfg id (s, a) then 1 else 0 := by
  rw [attemptsOf, attemptsOf]
  generalize ho : s.db.outbox.get id = o at hrow
  generalize s'.db.outbox.get id = o' at hrow
  cases hrow with
  | same _ _ hrecords => simp [hrecords]
  | posted _ hrecords _ hattempts => simp [hrecords, hattempts]
  | claimed _ hrecords _ => simp [hrecords, OutboxEvent.setStatus]
  | finished _ hrecords _ _ _ => simp [hrecords, OutboxEvent.setStatus]
  | @recorded i h e _ hrecords hh hid _ =>
    have hattempts := hcopies.attempts hh (hid ▸ ho)
    simp [hrecords, attempts_recordFailure, hattempts]

/-- An event that is claimed is in hand until its failure is recorded. -/
theorem inHand_step
    (hrow : RowStep cfg s a id (s.db.outbox.get id) (s'.db.outbox.get id)) :
    inHand s.db.outbox id + (if claims id (s, a) then 1 else 0) ≤
      inHand s'.db.outbox id + if recordsFailure cfg id (s, a) then 1 else 0 := by
  rw [inHand, inHand]
  generalize s.db.outbox.get id = o at hrow
  generalize s'.db.outbox.get id = o' at hrow
  cases hrow with
  | same _ hclaims hrecords => simp [hclaims, hrecords]
  | posted hclaims hrecords _ _ => simp [hclaims, hrecords]
  | claimed hclaims hrecords hpending => simp [hclaims, hrecords, hpending, OutboxEvent.setStatus]
  | finished hclaims hrecords _ _ hprocessing =>
    simp [hclaims, hrecords, hprocessing, OutboxEvent.setStatus]
  | recorded hclaims hrecords _ _ hprocessing => simp [hclaims, hrecords, hprocessing]

/-- The attempts of an event are within the limit, and below it until it is
    `FAILED`. -/
def WithinLimit (cfg : Config) (e : OutboxEvent) : Prop :=
  e.attempts ≤ cfg.hcmMaxRetries ∧ (e.status ≠ .failed → e.attempts < cfg.hcmMaxRetries)

/-- No step brings an event over the limit. -/
theorem withinLimit_step (hmax : 0 < cfg.hcmMaxRetries) (hcopies : CopiesFresh s)
    (hlimit : ∀ e, s.db.outbox.get id = some e → WithinLimit cfg e)
    (hrow : RowStep cfg s a id (s.db.outbox.get id) (s'.db.outbox.get id))
    (he : s'.db.outbox.get id = some e) : WithinLimit cfg e := by
  rw [he] at hrow
  generalize ho : s.db.outbox.get id = o at hrow hlimit
  -- Only a failure raises the attempts, by one, and the event had attempts left as long as
  -- it was not `FAILED`.
  cases hrow with
  | same _ _ _ => exact hlimit e rfl
  | posted _ _ _ hattempts => exact ⟨by omega, fun _ => by omega⟩
  | @claimed e _ _ hpending =>
    have hlt := (hlimit e rfl).2 (by rw [hpending]; nofun)
    exact ⟨hlt.le, fun _ => hlt⟩
  | @finished _ _ e _ _ _ _ hprocessing =>
    have hlt := (hlimit e rfl).2 (by rw [hprocessing]; nofun)
    exact ⟨hlt.le, fun _ => hlt⟩
  | @recorded i h e _ _ hh hid hprocessing =>
    have hattempts := hcopies.attempts hh (hid ▸ ho)
    have hlt := (hlimit e rfl).2 (by rw [hprocessing]; nofun)
    refine ⟨by rw [attempts_recordFailure]; omega, fun hne => ?_⟩
    rw [OutboxEvent.recordFailure] at hne ⊢
    split at hne
    · exact absurd rfl hne
    · next hretry =>
      simp only [shouldMarkFailed, ge_iff_le, decide_eq_true_eq, not_le] at hretry
      rwa [if_neg (by simpa [shouldMarkFailed] using hretry)]

/-- A handler that is left alone, with an event that no failure is recorded
    of, keeps its copy fresh. -/
theorem CopiesFresh.kept (hcopies : CopiesFresh s) (hheld : Held s) (hok : Paced s a)
    (hd : Delivered cfg s a s') (hh : s.handler i = some h)
    (hrecords : recordsFailure cfg h.id (s, a) = false) :
    attemptsOf s'.db.outbox h.id = h.event.attempts := by
  rw [attemptsOf_step hcopies (hd.row hheld hok h.id), hrecords]
  exact hcopies i h hh

/-- The copies of the handlers stay fresh. -/
theorem CopiesFresh.step (hcopies : CopiesFresh s) (hheld : Held s) (hok : Paced s a)
    (hd : Delivered cfg s a s') : CopiesFresh s' := by
  -- A handler that goes on keeps its copy, which stays fresh unless a failure of this very
  -- event is recorded.
  have hkept := fun i h (hh : s.handler i = some h) => hcopies.kept hheld hok hd hh
  intro j h' hh'
  cases hd with
  | stay hquiet _ hhandler => exact hkept j h' (hhandler ▸ hh') (hquiet _).2
  | post hquiet _ _ hhandler => exact hkept j h' (hhandler ▸ hh') (hquiet _).2
  | @claim i id event e queue ha ht he hpending _ hrecords hout hhandler =>
    rw [hhandler, PartialMap.set_eq_some] at hh'
    rcases hh' with ⟨_, rfl⟩ | ⟨_, hh'⟩
    · -- The new handler starts on a fresh copy.
      subst ha
      have hattempts := (hok.claim_fresh ht he hpending).1
      rw [hout, attemptsOf, Handler.start, Table.get_update_self he]
      exact hattempts
    · exact hkept j h' hh' (hrecords _)
  | proceed _ hh hquiet _ hhandler =>
    rw [hhandler, PartialMap.set_eq_some] at hh'
    rcases hh' with ⟨_, rfl⟩ | ⟨_, hh'⟩
    · -- The copy is the one of the handler before.
      have hsame := hkept _ _ hh (hquiet _).2
      exact hsame
    · exact hkept j h' hh' (hquiet _).2
  | finish _ hquiet _ hhandler =>
    rw [hhandler, PartialMap.unset_eq_some] at hh'
    exact hkept j h' hh'.2 (hquiet _).2
  | @record i h hh _ hrecords _ hhandler =>
    rw [hhandler, PartialMap.unset_eq_some] at hh'
    obtain ⟨hj, hh'⟩ := hh'
    -- Another handler has another event.
    have hne : h'.id ≠ h.id := fun heq => hj (hheld.single j i h' h hh' hh heq)
    exact hkept j h' hh' (by rw [hrecords, decide_eq_false hne])
  | abort _ _ _ hquiet _ hhandler =>
    rw [hhandler, PartialMap.unset_eq_some] at hh'
    exact hkept j h' hh'.2 (hquiet _).2
  | requeue _ hquiet _ hhandler => exact hkept j h' (hhandler ▸ hh') (hquiet _).2
  | crash _ _ _ hhandler =>
    rw [hhandler] at hh'
    cases hh'

/-! ## The backoff -/

/-- The clock does not go back. -/
theorem Stepped.now_le (hstep : Stepped cfg s a s') : s.now ≤ s'.now := by
  cases hstep with
  | advance ms => exact le_add_of_nonneg_right (Int.natCast_nonneg ms)
  | _ => exact le_rfl

/-- What is queued was due when it was fetched. -/
def QueuesDue (s : State) : Prop :=
  ∀ i q, s.Queued i q → ∀ due ∈ q.2.nextRetryAt, due ≤ s.now

/-- What is queued was due when it was fetched. -/
theorem QueuesDue.step (hqueues : QueuesDue s) (hstep : Stepped cfg s a s') : QueuesDue s' := by
  intro i q hq due hdue
  refine le_trans ?_ hstep.now_le
  rcases hstep.queued hq with hq | hq
  · exact hqueues i q hq due hdue
  · have hisDue := (mem_fetchDue hq).2
    rw [OutboxEvent.isDue, Bool.and_eq_true_iff, Option.all_eq_true] at hisDue
    exact of_decide_eq_true (hisDue.2 due hdue)

/-- What a claim that succeeds has found. -/
theorem claims_eq_true (hclaims : claims id (s, a)) : ∃ i event queue e, a = .claim i .ok ∧
    s.ticks.get i = some ⟨(id, event) :: queue, none⟩ ∧ s.db.outbox.get id = some e ∧
    e.status = .pending := by
  rw [claims] at hclaims
  split at hclaims
  · next i ha =>
    obtain ⟨t, ht, hany⟩ := (Option.any_eq_true _ _).1 hclaims
    obtain ⟨hnone, hany⟩ := Bool.and_eq_true_iff.1 hany
    obtain ⟨q, hq, hany⟩ := (Option.any_eq_true _ _).1 hany
    obtain ⟨hid, hany⟩ := Bool.and_eq_true_iff.1 hany
    obtain ⟨e, he, hpending⟩ := (Option.any_eq_true _ _).1 hany
    obtain ⟨queue, handler⟩ := t
    obtain rfl : handler = none := Option.isNone_iff_eq_none.1 hnone
    obtain ⟨rest, rfl⟩ := List.head?_eq_some_iff.1 hq
    obtain rfl : q.1 = id := of_decide_eq_true hid
    exact ⟨i, q.2, rest, e, ha, ht, he, of_decide_eq_true hpending⟩
  · cases hclaims

/-- An event whose claim is fresh is due. -/
theorem QueuesDue.due_of_claims (hqueues : QueuesDue s) (hok : Paced s a)
    (hclaims : claims id (s, a)) (he : s.db.outbox.get id = some e) :
    ∀ due ∈ e.nextRetryAt, due ≤ s.now := by
  obtain ⟨i, event, queue, e', rfl, ht, he', hpending⟩ := claims_eq_true hclaims
  obtain rfl := Option.some.inj (he.symm.trans he')
  rw [(hok.claim_fresh ht he hpending).2]
  exact hqueues i (id, event) ⟨_, ht, List.mem_cons_self⟩

/-! ## Runs -/

/-- The state and the history of a run agree on the attempts and the claims of
    every event. -/
structure Accounted (cfg : Config) (s₀ : State) (hist : List (State × Action)) (s : State) :
    Prop where
  copies : CopiesFresh s
  queues : QueuesDue s
  attempts : ∀ id, attemptsOf s.db.outbox id =
    attemptsOf s₀.db.outbox id + hist.countP (recordsFailure cfg id)
  claimed : ∀ id, hist.countP (claims id) ≤
    hist.countP (recordsFailure cfg id) + inHand s.db.outbox id
  limit : ∀ id e, s.db.outbox.get id = some e → WithinLimit cfg e

/-- The accounts are right after every run. -/
theorem accounted_of_run (hmax : 0 < cfg.hcmMaxRetries) (hticks : s₀.ticks = .empty)
    (hlimit : ∀ id e, s₀.db.outbox.get id = some e → WithinLimit cfg e)
    (hrun : Run (step cfg) Paced s₀ hist s) : Accounted cfg s₀ hist s := by
  -- By induction on the run; that an event has one handler at most is known of it already.
  refine hrun.history ⟨?_, ?_, fun _ => rfl, fun _ => Nat.zero_le _, hlimit⟩ ?_
  · intro i h hh
    rw [State.handler, hticks] at hh
    cases hh
  · rintro i q ⟨t, ht, _⟩
    rw [hticks] at ht
    cases ht
  · intro hist s a s' hrun hacc hok hnext
    have hstep := step_stepped hnext
    have hd := hstep.delivered
    have hheld := held_of_run hticks (hrun.mono fun _ _ hok => hok.retriesFailed)
    have hrow := hd.row hheld hok
    refine ⟨hacc.copies.step hheld hok hd, hacc.queues.step hstep, fun id => ?_, fun id => ?_,
      fun id e => withinLimit_step hmax hacc.copies (hacc.limit id) (hrow id)⟩
    · rw [countP_snoc, attemptsOf_step hacc.copies (hrow id), hacc.attempts id, add_assoc]
    · -- A claim takes the event in hand, and a recorded failure lets go of it.
      have hinHand := inHand_step (hrow id)
      have hclaimed := hacc.claimed id
      rw [countP_snoc, countP_snoc]
      omega

/-- An event in hand has attempts left. -/
theorem Accounted.claims_le (hacc : Accounted cfg s₀ hist s) (id : ℕ) :
    attemptsOf s₀.db.outbox id + hist.countP (claims id) ≤ cfg.hcmMaxRetries := by
  have hattempts := hacc.attempts id
  have hclaimed := hacc.claimed id
  rw [attemptsOf] at hattempts
  rw [inHand] at hclaimed
  cases he : s.db.outbox.get id with
  | none =>
    simp only [he, Option.elim_none] at hattempts hclaimed
    omega
  | some e =>
    simp only [he, Option.elim_some] at hattempts hclaimed
    obtain ⟨hle, hlt⟩ := hacc.limit id e he
    split at hclaimed
    · next hstatus =>
      have hne : e.status ≠ .failed := by rcases hstatus with hs | hs <;> rw [hs] <;> nofun
      have := hlt hne
      omega
    · omega

/-- **Retry accounting.** In every run without retries in which ticks claim
    events as they have fetched them:

    * the attempts of an event are those at the start, and one more for each
      failure that has been recorded;
    * an event is claimed when it is due, and not before;
    * it is claimed `HCM_MAX_RETRIES` times at most, less the attempts at the
      start. -/
theorem retry_accounting (hmax : 0 < cfg.hcmMaxRetries) (hticks : s₀.ticks = .empty)
    (hlimit : ∀ id e, s₀.db.outbox.get id = some e → WithinLimit cfg e)
    (hrun : Run (step cfg) Paced s₀ hist s) :
    (∀ id e, s.db.outbox.get id = some e →
      e.attempts = attemptsOf s₀.db.outbox id + hist.countP (recordsFailure cfg id)) ∧
    (∀ a, Paced s a → ∀ id e, claims id (s, a) → s.db.outbox.get id = some e →
      ∀ due ∈ e.nextRetryAt, due ≤ s.now) ∧
    ∀ id, attemptsOf s₀.db.outbox id + hist.countP (claims id) ≤ cfg.hcmMaxRetries := by
  have hacc := accounted_of_run hmax hticks hlimit hrun
  refine ⟨fun id e he => ?_, fun a hok id e hclaims he => ?_, hacc.claims_le⟩
  · have hattempts := hacc.attempts id
    rwa [attemptsOf, he, Option.elim_some] at hattempts
  · exact hacc.queues.due_of_claims hok hclaims he

/-- A failure is recorded, and the event claimed again when the backoff is
    over. -/
theorem retry_accounting_sample : ∃ hist s, Run (step sampleConfig) Paced (sampleStart 10) hist s ∧
    hist.countP (recordsFailure sampleConfig 0) = 1 ∧ hist.countP (claims 0) = 2 ∧
    (∀ id e, s.db.outbox.get id = some e → e.attempts = attemptsOf (sampleStart 10).db.outbox id +
      hist.countP (recordsFailure sampleConfig id)) ∧
    ∀ id, attemptsOf (sampleStart 10).db.outbox id + hist.countP (claims id) ≤ 4 := by
  let actions := sampleApproval 2 ++ sampleFailure 0 ++ [.advance 30000, .tick, .claim 1 .ok]
  have hexec : ∃ s ∈ exec (step sampleConfig) (sampleStart 10) actions, True := by decide +kernel
  have hpaced : ∀ x ∈ trace (step sampleConfig) (sampleStart 10) actions,
      x.2.isRetry = false ∧ claimsFresh x.1 x.2 := by decide +kernel
  obtain ⟨s, hs, -⟩ := hexec
  have hrun : Run (step sampleConfig) Paced (sampleStart 10) _ s :=
    run_of_exec (fun x hx => ⟨(hpaced x hx).1, (hpaced x hx).2⟩) hs
  obtain ⟨hattempts, _, hclaims⟩ := retry_accounting (by decide) rfl
    (fun id e he => by cases he) hrun
  exact ⟨_, s, hrun, by decide +kernel, by decide +kernel, hattempts, hclaims⟩

/-- Six ticks that have fetched the event together process it one after the
    other: each records its failure as the first, and the event is claimed more
    often than `HCM_MAX_RETRIES`, before its backoff is over. -/
theorem stale_ticks : ∃ hist s,
    Run (step sampleConfig) (fun _ a => a.isRetry = false) (sampleStart 10) hist s ∧
    attemptsOf s.db.outbox 0 = 1 ∧ hist.countP (recordsFailure sampleConfig 0) = 6 ∧
    sampleConfig.hcmMaxRetries < hist.countP (claims 0) ∧
    ∃ x ∈ hist, claims 0 x ∧ (x.1.db.outbox.get 0).any fun e =>
      e.nextRetryAt.any fun due => x.1.now < due := by
  let actions := sampleApproval 2 ++ List.replicate 6 .tick ++
    (List.range 6).flatMap fun i => [.claim i .ok, .handle i .throws, .handle i .ok]
  have hexec : ∃ s ∈ exec (step sampleConfig) (sampleStart 10) actions,
      attemptsOf s.db.outbox 0 = 1 := by decide +kernel
  have hno : ∀ a ∈ actions, a.isRetry = false := by decide +kernel
  obtain ⟨s, hrun, hs⟩ := exists_run_of_exec hno hexec
  exact ⟨_, s, hrun, hs, by decide +kernel, by decide +kernel, by decide +kernel⟩

end TimeOff
