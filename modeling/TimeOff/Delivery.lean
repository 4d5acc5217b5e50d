import TimeOff.System

/-!
# Delivery

The outbox as the ticks drive it: events are posted, claimed by a tick, and
delivered by its handler, which ends by recording what has come of it; a retry
puts an event back (`Delivered`). What requests, balances and the HCM go
through meanwhile is left out here.

Every step of the system is one of these (`Stepped.delivered`).
-/

namespace TimeOff

open Transaction Transition

namespace State

variable (s : State) (i : ℕ)

/-- The handler that the tick `i` waits for. -/
def handler : Option Handler := (s.ticks.get i).bind (·.handler)

/-- The tick `i` has fetched the event, and not come to it yet. -/
def Queued (q : ℕ × OutboxEvent) : Prop := ∃ t, s.ticks.get i = some t ∧ q ∈ t.queue

end State

/-- The step claims the event: a tick starts to process it. -/
def claims (id : ℕ) (e : State × Action) : Bool :=
  match e.2 with
  | .claim i .ok =>
    (e.1.ticks.get i).any fun t => t.handler.isNone && t.queue.head?.any fun q =>
      q.1 = id && (e.1.db.outbox.get id).any (·.status = .pending)
  | _ => false

/-- The handler is done with its event. -/
def Progress.isFinished : Progress → Bool
  | .finished => true
  | _ => false

/-- The step records a failure of the event in `handleEventFailure`. -/
def recordsFailure (cfg : Config) (id : ℕ) (e : State × Action) : Bool :=
  match e.2 with
  | .handle i o =>
    (e.1.handler i).any fun h => h.id = id && h.phase = .handleEventFailure &&
      (h.step cfg e.1.now e.1.db e.1.hcm o).2.2.isFinished
  | _ => false

/-- The step calls the HCM for the event. -/
def sends (id : ℕ) (e : State × Action) : Bool :=
  match e.2 with
  | .handle i _ =>
    (e.1.handler i).any fun h => h.id = id && match h.phase with
      | .deductBalance | .reverseDeduction _ => true
      | _ => false
  | _ => false

/-- Nothing is claimed, and no failure is recorded. -/
def Uneventful (cfg : Config) (e : State × Action) : Prop :=
  ∀ id, claims id e = false ∧ recordsFailure cfg id e = false

/-- The `SET` by which `handleEventFailure` records a failure. -/
def OutboxEvent.recordFailure (cfg : Config) (now : Instant) (attempts : ℕ) (e : OutboxEvent) :
    OutboxEvent :=
  if shouldMarkFailed cfg attempts then e.exhaust attempts
  else e.reschedule attempts (calculateNextRetryAt cfg now attempts)

/-- The event is posted with an approval, or with a cancellation. -/
inductive Posted (s s' : State) : OutboxEvent → Prop
  | deduct {id : ℕ} {r r' : TimeOffRequest} : s.db.requests.get id = some r →
      s'.db.requests.get id = some r' → r'.status = .approvedPendingHcm →
      Posted s s' (deductEvent s.now id r)
  | reverse (id : ℕ) : Posted s s' (reverseEvent s.now id)

/-- What a step does to the outbox and to the handlers. -/
inductive Delivered (cfg : Config) (s : State) (a : Action) (s' : State) : Prop
  | stay : Uneventful cfg (s, a) → s'.db.outbox = s.db.outbox → s'.handler = s.handler →
      Delivered cfg s a s'
  | post {e : OutboxEvent} : Uneventful cfg (s, a) → Posted s s' e →
      s'.db.outbox = s.db.outbox.insert e → s'.handler = s.handler → Delivered cfg s a s'
  | claim {i id : ℕ} {event e : OutboxEvent} {queue : List (ℕ × OutboxEvent)} :
      a = .claim i .ok → s.ticks.get i = some ⟨(id, event) :: queue, none⟩ →
      s.db.outbox.get id = some e → e.status = .pending →
      (∀ j, claims j (s, a) = decide (j = id)) → (∀ j, recordsFailure cfg j (s, a) = false) →
      s'.db.outbox = s.db.outbox.update id (·.setStatus .processing) →
      s'.handler = Function.update s.handler i (some (.start id event)) → Delivered cfg s a s'
  /-- A handler goes on. -/
  | proceed {i : ℕ} {h : Handler} (phase : Phase) : s.handler i = some h →
      Uneventful cfg (s, a) → s'.db.outbox = s.db.outbox →
      s'.handler = Function.update s.handler i (some { h with phase := phase }) →
      Delivered cfg s a s'
  | finish {i : ℕ} {h : Handler} : s.handler i = some h → Uneventful cfg (s, a) →
      s'.db.outbox = s.db.outbox.update h.id (·.setStatus .done) →
      s'.handler = Function.update s.handler i none → Delivered cfg s a s'
  | record {i : ℕ} {h : Handler} : s.handler i = some h →
      (∀ j, claims j (s, a) = false) → (∀ j, recordsFailure cfg j (s, a) = decide (j = h.id)) →
      s'.db.outbox = s.db.outbox.update h.id
        (·.recordFailure cfg s.now (h.event.attempts + 1)) →
      s'.handler = Function.update s.handler i none → Delivered cfg s a s'
  | abort {i : ℕ} {o : Outcome} {h : Handler} : a = .handle i o → s.handler i = some h →
      (h.step cfg s.now s.db s.hcm o).2.2 = .aborted → Uneventful cfg (s, a) →
      s'.db.outbox = s.db.outbox → s'.handler = Function.update s.handler i none →
      Delivered cfg s a s'
  | requeue {id : ℕ} : ((∃ n, a = .writeRetry n ∧ s.retries.get n = some id) ∨
      a = .retry id ∧ ∃ e, s.db.outbox.get id = some e ∧ e.status = .failed) →
      Uneventful cfg (s, a) → s'.db.outbox = s.db.outbox.update id (·.requeue s.now) →
      s'.handler = s.handler → Delivered cfg s a s'
  | crash : a = .crash → Uneventful cfg (s, a) → s'.db.outbox = s.db.outbox →
      s'.handler = (fun _ => none) → Delivered cfg s a s'

variable {cfg : Config} {s s' s₀ : State} {a : Action} {id i j : ℕ} {e : OutboxEvent}
  {h : Handler}

theorem Posted.status (hposted : Posted s s' e) : e.status = .pending := by
  cases hposted <;> rfl

theorem Posted.attempts (hposted : Posted s s' e) : e.attempts = 0 := by
  cases hposted <;> rfl

/-! ## Handlers -/

theorem handler_eq_some : s.handler i = some h ↔ ∃ t, s.ticks.get i = some t ∧ t.handler = some h :=
  Option.bind_eq_some_iff

theorem handler_of_le (hi : s.ticks.nextId ≤ i) : s.handler i = none := by
  rw [State.handler, s.ticks.get_of_le i hi, Option.bind_none]

/-- A tick that is updated may have another handler. -/
theorem handler_update {f : Tick → Tick} {t : Tick} (ht : s.ticks.get i = some t)
    (hs' : s'.ticks = s.ticks.update i f) :
    s'.handler = Function.update s.handler i (f t).handler := by
  funext j
  rw [State.handler, hs', Table.get_update, Function.update_apply]
  split
  · next hj => rw [hj, ht]; rfl
  · rfl

theorem handler_update_same {f : Tick → Tick} {t : Tick} (ht : s.ticks.get i = some t)
    (hs' : s'.ticks = s.ticks.update i f) (hf : (f t).handler = t.handler) :
    s'.handler = s.handler := by
  rw [handler_update ht hs', hf, Function.update_eq_self_iff, State.handler, ht, Option.bind_some]

/-- A tick that starts has no handler yet. -/
theorem handler_insert {t : Tick} (hs' : s'.ticks = s.ticks.insert t) (ht : t.handler = none) :
    s'.handler = s.handler := by
  funext j
  rw [State.handler, hs', Table.get_insert, State.handler]
  split
  · next hj => rw [hj, Table.get_nextId]; exact ht
  · rfl

/-! ## Steps deliver -/

theorem uneventful_of_isOperation (ha : a.isOperation) : Uneventful cfg (s, a) := by
  intro id
  cases a <;> first | exact ⟨rfl, rfl⟩ | cases ha

theorem recordsFailure_handle {o : Outcome} {db : Database} {hcm : HcmState} {p : Progress}
    (hh : s.handler i = some h) (hstep : h.step cfg s.now s.db s.hcm o = (db, hcm, p)) (j : ℕ) :
    recordsFailure cfg j (s, .handle i o) =
      (decide (h.id = j) && decide (h.phase = .handleEventFailure) && p.isFinished) := by
  simp only [recordsFailure, hh, Option.any_some, hstep]

/-- Completing a deduction leaves the outbox to its caller. -/
theorem outbox_complete {hcmRequestId : String} {r : TimeOffRequest} {t t' : Session}
    (hrun : (completeDeductionFromOutbox id hcmRequestId).run t = .ok r t') :
    t'.db.outbox = t.db.outbox := by
  obtain ⟨r₀, _, ⟨-, rfl⟩ | ⟨_, hdb, -⟩ | ⟨_, hdb, -⟩⟩ := completeDeductionFromOutbox_ok hrun
  · rfl
  · rw [hdb]; rfl
  · rw [hdb]; rfl

theorem outbox_fail {r : TimeOffRequest} {t t' : Session}
    (hrun : (failRequestFromOutbox id).run t = .ok r t') : t'.db.outbox = t.db.outbox := by
  obtain ⟨r₀, _, ⟨-, rfl⟩ | ⟨_, hdb, -⟩⟩ := failRequestFromOutbox_ok hrun
  · rfl
  · rw [hdb]; rfl

theorem outbox_deductTransaction {event : OutboxEvent} {hcmRequestId : String} {t t' : Session}
    (hrun : (deductTransaction id event hcmRequestId).run t = .ok () t') :
    t'.db.outbox = t.db.outbox.update id (·.setStatus .done) := by
  obtain ⟨r, t₁, hcomplete, hdb, _⟩ := deductTransaction_ok hrun
  rw [hdb, Database.outbox_updateEvent, outbox_complete hcomplete]

/-- A failure is written to its event, whatever becomes of the request. -/
theorem outbox_handleEventFailure {now : Instant} {event : OutboxEvent} {t t' : Session}
    (hrun : (handleEventFailure cfg now id event).run t = .ok () t') :
    t'.db.outbox = t.db.outbox.update id (·.recordFailure cfg now (event.attempts + 1)) := by
  rcases handleEventFailure_ok hrun with ⟨hretry, hdb⟩ | ⟨hfail, _, hdb⟩ |
    ⟨hfail, _, r, t₁, hfailed, hdb⟩
  · simp only [OutboxEvent.recordFailure, hretry, hdb]
    rfl
  · simp only [OutboxEvent.recordFailure, hfail, hdb]
    rfl
  · simp only [outbox_fail hfailed, OutboxEvent.recordFailure, hfail, hdb]
    rfl

/-- The step of a handler. -/
theorem delivered_handle {o : Outcome} {t : Tick} {db : Database} {hcm : HcmState} {p : Progress}
    (ht : s.ticks.get i = some t) (hth : t.handler = some h)
    (hstep : h.step cfg s.now s.db s.hcm o = (db, hcm, p))
    (hs' : s' = { s with db := db, hcm := hcm, ticks := s.ticks.update i (·.goOn p) }) :
    Delivered cfg s (.handle i o) s' := by
  have hh : s.handler i = some h := handler_eq_some.2 ⟨t, ht, hth⟩
  have hrec := recordsFailure_handle hh hstep
  have hticks : s'.ticks = s.ticks.update i (·.goOn p) := by rw [hs']
  have hhandler := handler_update ht hticks
  have hdb : s'.db = db := by rw [hs']
  -- What does not end in a recorded failure is uneventful.
  have hquiet : (∀ j, recordsFailure cfg j (s, .handle i o) = false) →
      Uneventful cfg (s, .handle i o) := fun hfalse j => ⟨rfl, hfalse j⟩
  have hgoOn : ∀ phase, p = .running phase → s'.handler =
      Function.update s.handler i (some { h with phase := phase }) := by
    rintro phase rfl
    rw [hhandler, Tick.goOn, hth, Option.map_some]
  have hfinished : p = .finished → s'.handler = Function.update s.handler i none := by
    rintro rfl
    exact hhandler
  have haborted : p = .aborted → s'.handler = Function.update s.handler i none := by
    rintro rfl
    exact hhandler
  have hproceed : ∀ phase, p = .running phase → db.outbox = s.db.outbox →
      Delivered cfg s (.handle i o) s' := fun phase hp hout =>
    .proceed phase hh (hquiet fun j => by rw [hrec, hp]; simp [Progress.isFinished])
      (by rw [hdb, hout]) (hgoOn phase hp)
  have hphase : h.phase ≠ .handleEventFailure → ∀ j,
      recordsFailure cfg j (s, .handle i o) = false := fun hne j => by
    rw [hrec, decide_eq_false hne, Bool.and_false, Bool.false_and]
  -- Only `handleEventFailure` records a failure, and only if it commits.
  cases Handler.step_handled hstep with
  | threw _ => exact hproceed _ rfl rfl
  | deducted _ _ _ _ => exact hproceed _ rfl rfl
  | completed hph hrun =>
    exact .finish hh (hquiet (hphase (by rw [hph]; nofun)))
      (by rw [hdb, outbox_deductTransaction hrun]; rfl) (hfinished rfl)
  | selected _ _ _ => exact hproceed _ rfl rfl
  | reversed _ _ _ => exact hproceed _ rfl rfl
  | absent _ _ _ => exact hproceed _ rfl rfl
  | marked hph =>
    exact .finish hh (hquiet (hphase (by rw [hph]; nofun))) (by rw [hdb]; rfl) (hfinished rfl)
  | recorded hph hrun =>
    refine .record hh (fun _ => rfl) (fun j => ?_)
      (by rw [hdb, outbox_handleEventFailure hrun]; rfl) (hfinished rfl)
    rw [hrec, hph]
    simp [Progress.isFinished, eq_comm]
  | aborted _ =>
    exact .abort rfl hh (by rw [hstep]) (hquiet fun j => by rw [hrec]; simp [Progress.isFinished])
      (by rw [hdb]) (haborted rfl)

/-- The claim of a tick, when it succeeds. -/
theorem claims_claim {q : ℕ × OutboxEvent} {queue : List (ℕ × OutboxEvent)}
    (ht : s.ticks.get i = some ⟨q :: queue, none⟩) (j : ℕ) : claims j (s, .claim i .ok) =
      (decide (q.1 = j) && (s.db.outbox.get j).any (·.status = .pending)) := by
  simp only [claims, ht, Option.any_some, Option.isNone_none, List.head?_cons, Bool.true_and]

/-- Every step of the system delivers, or leaves the outbox alone. -/
theorem Stepped.delivered (hstep : Stepped cfg s a s') : Delivered cfg s a s' := by
  cases hstep with
  | advance ms => exact .stay (fun _ => ⟨rfl, rfl⟩) rfl rfl
  | refuse ha => exact .stay (uneventful_of_isOperation ha) rfl rfl
  | submit _ _ _ _ => exact .stay (fun _ => ⟨rfl, rfl⟩) rfl rfl
  | preRead _ _ _ _ => exact .stay (fun _ => ⟨rfl, rfl⟩) rfl rfl
  | refuseCall _ _ => exact .stay (fun _ => ⟨rfl, rfl⟩) rfl rfl
  | @approve _ c r x _ _ hr _ _ _ =>
    exact .post (fun _ => ⟨rfl, rfl⟩) (.deduct hr (Table.get_update_self hr) rfl) rfl rfl
  | reject _ _ _ _ _ _ => exact .stay (fun _ => ⟨rfl, rfl⟩) rfl rfl
  | @cancel n c r _ _ _ _ _ =>
    -- A request that has not been sent to the HCM gets no reversal.
    by_cases hc : c.request.status = .approvedPendingHcm
    · refine .post (fun _ => ⟨rfl, rfl⟩) (.reverse c.id) ?_ rfl
      simp only [Database.outbox_updateRequest, Database.outbox_release, cancelEvent, if_pos hc]
      rfl
    · refine .stay (fun _ => ⟨rfl, rfl⟩) ?_ rfl
      simp only [Database.outbox_updateRequest, Database.outbox_release, cancelEvent, if_neg hc]
  | complete hrun => exact .stay (fun _ => ⟨rfl, rfl⟩) (outbox_complete hrun) rfl
  | fail hrun => exact .stay (fun _ => ⟨rfl, rfl⟩) (outbox_fail hrun) rfl
  | sync ha hsync =>
    exact .stay (uneventful_of_isOperation (isOperation_of_isSync ha)) hsync.outbox rfl
  | tick => exact .stay (fun _ => ⟨rfl, rfl⟩) rfl (handler_insert rfl rfl)
  | @abandon i o t ht hnone ho =>
    refine .stay (fun _ => ⟨?_, rfl⟩) rfl (handler_update_same ht rfl hnone.symm)
    cases o <;> first | rfl | exact absurd rfl ho
  | @skip i q queue ht hnot =>
    -- Another tick has been faster: the update affects no row.
    refine .stay (fun j => ⟨?_, rfl⟩) rfl (handler_update_same ht rfl rfl)
    rw [claims_claim ht]
    by_cases hj : q.1 = j
    · rw [← hj]
      simpa [Option.any_eq_false] using hnot
    · rw [decide_eq_false hj, Bool.false_and]
  | @claim i id event e queue ht he hpending =>
    refine .claim rfl ht he hpending (fun j => ?_) (fun _ => rfl) rfl
      (handler_update (f := fun _ => ⟨queue, some (.start id event)⟩) ht rfl)
    rw [claims_claim ht]
    by_cases hj : j = id
    · simp [hj, he, hpending]
    · simp [hj, Ne.symm hj]
  | handle ht hh hstep => exact delivered_handle ht hh hstep rfl
  | checkRetry _ _ => exact .stay (fun _ => ⟨rfl, rfl⟩) rfl rfl
  | writeRetry hn => exact .requeue (.inl ⟨_, rfl, hn⟩) (fun _ => ⟨rfl, rfl⟩) rfl rfl
  | retry he hfailed => exact .requeue (.inr ⟨rfl, _, he, hfailed⟩) (fun _ => ⟨rfl, rfl⟩) rfl rfl
  | crash => exact .crash rfl (fun _ => ⟨rfl, rfl⟩) rfl rfl

/-! ## What events and their copies keep -/

/-- The columns of an event that are never written again. -/
structure OutboxEvent.Same (e e' : OutboxEvent) : Prop where
  eventType : e'.eventType = e.eventType
  payload : e'.payload = e.payload
  requestId : e'.requestId = e.requestId

theorem OutboxEvent.Same.refl (e : OutboxEvent) : e.Same e := ⟨rfl, rfl, rfl⟩

theorem OutboxEvent.Same.trans {e e' e'' : OutboxEvent} (h : e.Same e') (h' : e'.Same e'') :
    e.Same e'' :=
  ⟨h'.eventType.trans h.eventType, h'.payload.trans h.payload, h'.requestId.trans h.requestId⟩

theorem same_recordFailure (now : Instant) (n : ℕ) (e : OutboxEvent) :
    e.Same (e.recordFailure cfg now n) := by
  rw [OutboxEvent.recordFailure]
  split <;> exact ⟨rfl, rfl, rfl⟩

/-- An event of the updated outbox was there, with the same contents. -/
theorem same_of_update {t : Table OutboxEvent} {f : OutboxEvent → OutboxEvent}
    (he : (t.update i f).get id = some e) (hf : ∀ e : OutboxEvent, e.Same (f e)) :
    ∃ e₀, t.get id = some e₀ ∧ e₀.Same e := by
  rcases Table.get_update_eq_some.1 he with ⟨rfl, e₀, he₀, rfl⟩ | ⟨_, he⟩
  · exact ⟨e₀, he₀, hf e₀⟩
  · exact ⟨e, he, .refl e⟩

/-- An event was there before the step, with the same contents, or is posted
    by it. -/
theorem Delivered.event (hd : Delivered cfg s a s') (he : s'.db.outbox.get id = some e) :
    (∃ e₀, s.db.outbox.get id = some e₀ ∧ e₀.Same e) ∨
      id = s.db.outbox.nextId ∧ Posted s s' e := by
  -- Only `post` adds an event; the other steps write its status and its schedule at most.
  cases hd with
  | stay _ hout _ => exact .inl ⟨e, hout ▸ he, .refl e⟩
  | post _ hposted hout _ =>
    rw [hout] at he
    rcases Table.get_insert_eq_some.1 he with ⟨hid, rfl⟩ | he
    · exact .inr ⟨hid, hposted⟩
    · exact .inl ⟨e, he, .refl e⟩
  | claim _ _ _ _ _ _ hout _ =>
    rw [hout] at he
    exact .inl (same_of_update he fun _ => ⟨rfl, rfl, rfl⟩)
  | proceed _ _ _ hout _ => exact .inl ⟨e, hout ▸ he, .refl e⟩
  | finish _ _ hout _ =>
    rw [hout] at he
    exact .inl (same_of_update he fun _ => ⟨rfl, rfl, rfl⟩)
  | record _ _ _ hout _ =>
    rw [hout] at he
    exact .inl (same_of_update he (same_recordFailure _ _))
  | abort _ _ _ _ hout _ => exact .inl ⟨e, hout ▸ he, .refl e⟩
  | requeue _ _ hout _ =>
    rw [hout] at he
    exact .inl (same_of_update he fun _ => ⟨rfl, rfl, rfl⟩)
  | crash _ _ hout _ => exact .inl ⟨e, hout ▸ he, .refl e⟩

/-- No step removes an event, or changes its contents. -/
theorem Delivered.kept (hd : Delivered cfg s a s') (he : s.db.outbox.get id = some e) :
    ∃ e', s'.db.outbox.get id = some e' ∧ e.Same e' := by
  have hupdate : ∀ {i : ℕ} {f : OutboxEvent → OutboxEvent},
      s'.db.outbox = s.db.outbox.update i f → (∀ e : OutboxEvent, e.Same (f e)) →
      ∃ e', s'.db.outbox.get id = some e' ∧ e.Same e' := by
    intro i f hout hf
    rw [hout, Table.get_update, he]
    split
    · exact ⟨f e, rfl, hf e⟩
    · exact ⟨e, rfl, .refl e⟩
  cases hd with
  | stay _ hout _ | proceed _ _ _ hout _ | abort _ _ _ _ hout _ | crash _ _ hout _ =>
    exact ⟨e, by rw [hout, he], .refl e⟩
  | post _ _ hout _ => exact ⟨e, by rw [hout, Table.get_insert_of_some he], .refl e⟩
  | claim _ _ _ _ _ _ hout _ | finish _ _ hout _ | requeue _ _ hout _ =>
    exact hupdate hout fun _ => ⟨rfl, rfl, rfl⟩
  | record _ _ _ hout _ => exact hupdate hout (same_recordFailure _ _)

/-- What a tick fetches are the events that are due, as they are. -/
theorem mem_fetchDue {db : Database} {now : Instant} {q : ℕ × OutboxEvent}
    (hq : q ∈ fetchDue db now) : db.outbox.get q.1 = some q.2 ∧ q.2.isDue now := by
  have hmem := List.mem_of_mem_take hq
  rw [List.mem_insertionSort, List.mem_filter] at hmem
  exact ⟨Table.mem_rows.1 hmem.1, hmem.2⟩

/-- What is queued was queued before the step, or has been fetched by it. -/
theorem Stepped.queued (hstep : Stepped cfg s a s') {q : ℕ × OutboxEvent} (hq : s'.Queued i q) :
    s.Queued i q ∨ q ∈ fetchDue s.db s.now := by
  obtain ⟨t, ht, hmem⟩ := hq
  -- A tick whose queue gets shorter, or stays.
  have hshrink : ∀ {j : ℕ} {f : Tick → Tick} {t₀ : Tick}, s.ticks.get j = some t₀ →
      (∀ q ∈ (f t₀).queue, q ∈ t₀.queue) → s'.ticks = s.ticks.update j f → s.Queued i q := by
    intro j f t₀ ht₀ hf hticks
    rw [hticks] at ht
    rcases Table.get_update_eq_some.1 ht with ⟨rfl, t₁, ht₁, rfl⟩ | ⟨_, ht⟩
    · obtain rfl := Option.some.inj (ht₀.symm.trans ht₁)
      exact ⟨t₀, ht₀, hf q hmem⟩
    · exact ⟨t, ht, hmem⟩
  cases hstep with
  | tick =>
    rcases Table.get_insert_eq_some.1 ht with ⟨_, rfl⟩ | ht
    · exact .inr hmem
    · exact .inl ⟨t, ht, hmem⟩
  | abandon ht₀ _ _ => exact .inl (hshrink ht₀ (fun q hq => absurd hq List.not_mem_nil) rfl)
  | skip ht₀ _ => exact .inl (hshrink ht₀ (fun q hq => List.mem_cons_of_mem _ hq) rfl)
  | claim ht₀ _ _ => exact .inl (hshrink ht₀ (fun q hq => List.mem_cons_of_mem _ hq) rfl)
  | @handle _ _ _ _ _ _ p ht₀ _ _ =>
    refine .inl (hshrink ht₀ (fun q hq => ?_) rfl)
    cases p with
    | running _ => exact hq
    | finished => exact hq
    | aborted => exact absurd hq List.not_mem_nil
  | crash => cases ht
  | _ => exact .inl ⟨t, ht, hmem⟩

end TimeOff
