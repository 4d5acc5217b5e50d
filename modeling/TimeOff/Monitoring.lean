import TimeOff.Correspondence
import TimeOff.Sync.Stepwise

/-!
# What is reported

What an administrator is shown of the service: the numbers of events by status
and the times of the last syncs (`getSyncStatus`), and the events of a status
(`OutboxController.list`).

What the numbers of events say about requests, in every state that a run gets
to whatever the HCM does (`Depths`): an event is the deduction of a request that
awaits it, has failed or is approved, or is the deduction or the reversal of a
cancelled one. They are counted request by request (`Table.sum_fiberwise`), and a
match says what each request has to be counted with (`Matched.shares`).
-/

namespace TimeOff

open Transition

/-- `outboxRepo.count({ where: { status } })`, also that of `HealthController.check`. -/
def Database.depth (db : Database) (status : OutboxEventStatus) : ℕ :=
  db.outbox.rows.countP fun q => q.2.status = status

/-- `SyncStatusDto`. `outboxQueueDepth` has an entry for every status. -/
structure SyncStatusDto where
  lastBatchSyncAt : Option Instant
  lastWebhookAt : Option Instant
  outboxQueueDepth : OutboxEventStatus → ℕ
  failedEvents : ℕ

/-- `ORDER BY completedAt DESC`, where `NULL` comes last. -/
def SyncLog.notBefore (l l' : SyncLog) : Bool :=
  l'.completedAt.all fun t => l.completedAt.any (t ≤ ·)

/-- The `findOne` of `getSyncStatus`. -/
def SyncData.lastDone (d : SyncData) (syncType : SyncType) : Option SyncLog :=
  (((d.syncLog.rows.map Prod.snd).filter fun l => l.syncType = syncType && l.status = .done)
    |>.insertionSort (SyncLog.notBefore · ·)).head?

/-- `getSyncStatus` -/
def getSyncStatus (d : SyncData) : SyncStatusDto where
  lastBatchSyncAt := (d.lastDone .batch).bind (·.completedAt)
  lastWebhookAt := (d.lastDone .webhook).bind (·.completedAt)
  outboxQueueDepth := d.db.depth
  failedEvents := d.db.depth .failed

/-- `OutboxController.list` -/
def OutboxController.list (db : Database) (status : Option String) (user : RequestUser) :
    Except ServiceError (List (ℕ × OutboxEvent)) := do
  if user.role ≠ .admin then throw (.forbidden "Admin role required")
  pure ((db.outbox.rows.filter fun q => (HcmState.truthy status).all (q.2.status.text = ·))
    |>.insertionSort (·.2.createdAt ≥ ·.2.createdAt))

variable {db : Database} {d : SyncData} {t : Table OutboxEvent} {id k : ℕ} {e : OutboxEvent}
  {r : TimeOffRequest} {type : OutboxEventType} {status : OutboxEventStatus} {user : RequestUser}

theorem OutboxEventStatus.text_injective {status' : OutboxEventStatus}
    (h : status.text = status'.text) : status = status' := by
  cases status <;> cases status' <;> first | rfl | exact absurd h (by decide)

/-- The depth of a status is the length of its list. -/
theorem OutboxController.length_list (hadmin : user.role = .admin) :
    ∃ rows, list db (some status.text) user = .ok rows ∧ rows.length = db.depth status := by
  have htruthy : HcmState.truthy (some status.text) = some status.text :=
    HcmState.truthy_some (by cases status <;> decide)
  refine ⟨_, by rw [list, if_neg (not_not.2 hadmin), htruthy]; rfl, ?_⟩
  rw [List.length_insertionSort, Database.depth, List.countP_eq_length_filter]
  refine congrArg (fun p => (db.outbox.rows.filter p).length) (funext fun q => ?_)
  exact decide_eq_decide.2 ⟨OutboxEventStatus.text_injective, congrArg _⟩

/-- A depth is zero if no event has that status. -/
theorem Database.depth_eq_zero : db.depth status = 0 ↔
    ∀ k e, db.outbox.get k = some e → e.status ≠ status := by
  rw [depth, List.countP_eq_zero]
  constructor
  · exact fun h k e he hstatus => h (k, e) (Table.mem_rows.2 he) (decide_eq_true hstatus)
  · exact fun h q hq hstatus => h q.1 q.2 (Table.mem_rows.1 hq) (of_decide_eq_true hstatus)

/-! ## Events, request by request -/

/-- The number of requests with a status. -/
def Database.requestCount (db : Database) (status : RequestStatus) : ℕ :=
  db.requests.rows.countP fun q => q.2.status = status

/-- The number of reversals. -/
def Database.reversals (db : Database) : ℕ :=
  db.outbox.rows.countP fun q => q.2.eventType = .hcmReverse

/-- The events for a request that meet `p`, counted. -/
def countFor (t : Table OutboxEvent) (p : OutboxEvent → Bool) (id : ℕ) : ℕ :=
  t.sum fun _ e => if e.requestId = id then if p e then 1 else 0 else 0

/-- The events of a type for a request that meet `p`, counted. -/
def countOf (t : Table OutboxEvent) (p : OutboxEvent → Bool) (type : OutboxEventType) (id : ℕ) :
    ℕ :=
  t.sum fun _ e => if e.eventType = type ∧ e.requestId = id then if p e then 1 else 0 else 0

variable {p : OutboxEvent → Bool}

theorem countFor_eq : countFor t p id = countOf t p .hcmDeduct id + countOf t p .hcmReverse id := by
  rw [countFor, countOf, countOf, ← Table.sum_add]
  refine Table.sum_congr fun k e _ => ?_
  cases htype : e.eventType <;> simp

theorem countOf_empty (h : eventsFor t type id = ∅) : countOf t p type id = 0 := by
  refine Table.sum_eq_zero fun k e he => if_neg fun ⟨htype, hid⟩ => ?_
  have hmem : (k, e) ∈ eventsFor t type id := ⟨he, htype, hid⟩
  rw [h] at hmem
  cases hmem

/-- The one event of a request counts if the predicate holds of it. -/
theorem countOf_singleton (h : eventsFor t type id = {(k, e)}) :
    countOf t p type id = if p e then 1 else 0 := by
  obtain ⟨he, htype, hid⟩ := mem_of_eventsFor_eq h
  rw [countOf, Table.sum_eq_single he, if_pos ⟨htype, hid⟩]
  intro j e' hj he'
  refine if_neg fun ⟨htype', hid'⟩ => ?_
  have hmem : (j, e') ∈ eventsFor t type id := ⟨he', htype', hid'⟩
  rw [h, Set.mem_singleton_iff] at hmem
  exact hj (congrArg Prod.fst hmem)

/-- All events that meet `p`, counted request by request. -/
theorem AllMatched.countP_events (h : AllMatched db) (p : OutboxEvent → Bool) :
    (db.outbox.rows.countP fun q => p q.2) =
      db.requests.sum fun id _ => countFor db.outbox p id := by
  rw [Table.countP_rows]
  exact Table.sum_fiberwise OutboxEvent.requestId fun k e he => .inr (h.event k e he)

/-- What the events of a request are counted with. -/
theorem Matched.shares (h : Matched t id r) :
    (countFor t (·.status = .pending) id + countFor t (·.status = .processing) id +
        countFor t (·.status = .done) id + countFor t (·.status = .failed) id =
      (if r.status = .approvedPendingHcm then 1 else 0) + (if r.status = .failed then 1 else 0) +
        (if r.status = .approved then 1 else 0) +
        2 * countFor t (·.eventType = .hcmReverse) id) ∧
    countFor t (·.eventType = .hcmReverse) id ≤ (if r.status = .cancelled then 1 else 0) ∧
    (if r.status = .approvedPendingHcm then 1 else 0) ≤
      countFor t (·.status = .pending) id + countFor t (·.status = .processing) id ∧
    (if r.status = .approved then 1 else 0) ≤ countFor t (·.status = .done) id ∧
    (if r.status = .approvedPendingHcm then 1 else 0) + (if r.status = .failed then 1 else 0) ≤
      countFor t (·.status = .pending) id + countFor t (·.status = .processing) id +
        countFor t (·.status = .failed) id := by
  simp only [countFor_eq]
  cases h with
  | unsent hd hr _ hstatus =>
    simp only [countOf_empty hd, countOf_empty hr]
    rcases hstatus with hstatus | hstatus | hstatus <;> simp [hstatus]
  | @awaited k e hd hr _ _ hopen hstatus =>
    have htype : e.eventType = .hcmDeduct := (mem_of_eventsFor_eq hd).2.1
    simp only [countOf_singleton hd, countOf_empty hr, htype]
    rcases hstatus with ⟨hstatus, hfailed⟩ | hstatus <;> cases he : e.status <;> simp_all
  | @confirmed k e hd hr _ _ hdone hstatus =>
    have htype : e.eventType = .hcmDeduct := (mem_of_eventsFor_eq hd).2.1
    simp only [countOf_singleton hd, countOf_empty hr, htype]
    simp [hdone, hstatus]
  | @cancelled k k' e e' hd hr _ _ _ hstatus =>
    have htype : e.eventType = .hcmDeduct := (mem_of_eventsFor_eq hd).2.1
    have htype' : e'.eventType = .hcmReverse := (mem_of_eventsFor_eq hr).2.1
    simp only [countOf_singleton hd, countOf_singleton hr, htype, htype', hstatus]
    cases e.status <;> cases e'.status <;> simp

/-- What the numbers of events say about requests. -/
structure Depths (db : Database) (depth : OutboxEventStatus → ℕ) : Prop where
  /-- A request that is awaited, failed or approved has one event, and one that
      has been cancelled after its approval has two. -/
  total : depth .pending + depth .processing + depth .done + depth .failed =
    db.requestCount .approvedPendingHcm + db.requestCount .failed + db.requestCount .approved +
      2 * db.reversals
  reversals : db.reversals ≤ db.requestCount .cancelled
  awaited : db.requestCount .approvedPendingHcm ≤ depth .pending + depth .processing
  /-- The deduction of a failed request is given up, or has been put back. -/
  failed : db.requestCount .approvedPendingHcm + db.requestCount .failed ≤
    depth .pending + depth .processing + depth .failed
  approved : db.requestCount .approved ≤ depth .done

/-- If all events are `DONE`, no request is awaited or has failed, and every
    request that was cancelled after its approval has been reversed. -/
theorem Depths.clear {depth : OutboxEventStatus → ℕ} (h : Depths db depth)
    (hpending : depth .pending = 0) (hprocessing : depth .processing = 0)
    (hfailed : depth .failed = 0) :
    db.requestCount .approvedPendingHcm = 0 ∧ db.requestCount .failed = 0 ∧
      depth .done = db.requestCount .approved + 2 * db.reversals := by
  have htotal := h.total
  have hle := h.failed
  omega

/-- If all events are matched with their requests, then the depths are what the
    requests say. -/
theorem AllMatched.depths (h : AllMatched db) : Depths db db.depth := by
  have hdepth : ∀ st, db.depth st = db.requests.sum fun id _ =>
      countFor db.outbox (·.status = st) id := fun st => h.countP_events (·.status = st)
  have hreversals : db.reversals = db.requests.sum fun id _ =>
      countFor db.outbox (·.eventType = .hcmReverse) id :=
    h.countP_events (·.eventType = .hcmReverse)
  have hcount : ∀ st, db.requestCount st = db.requests.sum fun _ r =>
      if decide (r.status = st) then 1 else 0 := fun st =>
    Table.countP_rows db.requests (·.status = st)
  simp only [decide_eq_true_eq] at hcount
  have hshares := fun id r hr => (h.request id r hr).shares
  refine ⟨?_, ?_, ?_, ?_, ?_⟩
  · rw [two_mul]
    simp only [hdepth, hcount, hreversals, ← Table.sum_add]
    refine Table.sum_congr fun id r hr => ?_
    rw [← two_mul]
    exact (hshares id r hr).1
  all_goals
    simp only [hdepth, hcount, hreversals, ← Table.sum_add]
    refine Table.sum_le_sum fun id r hr => ?_
  · exact (hshares id r hr).2.1
  · exact (hshares id r hr).2.2.1
  · exact (hshares id r hr).2.2.2.2
  · exact (hshares id r hr).2.2.2.1

/-! ## Handlers -/

/-- The number of handlers at work. -/
def State.handlersAtWork (s : State) : ℕ := s.ticks.rows.countP fun q => q.2.handler.isSome

/-- A handler works on a `PROCESSING` event, and no other one does. -/
theorem Held.handlersAtWork_le {s : State} (h : Held s) :
    s.handlersAtWork ≤ s.db.depth .processing := by
  have hhandler : ∀ {i t h'}, s.ticks.get i = some t → t.handler = some h' →
      s.handler i = some h' := fun ht hh => by
    rw [State.handler, ht, Option.bind_some, hh]
  let event (t : Tick) : ℕ := t.handler.elim 0 (·.id)
  refine Table.countP_rows_le event (fun e : OutboxEvent => e.status = .processing)
    (·.handler.isSome)
    (fun i t ht hsome => ?_)
    fun i j t t' ht ht' hsome hsome' hid => ?_
  · obtain ⟨h', hh⟩ := Option.isSome_iff_exists.1 hsome
    obtain ⟨e, he, hprocessing⟩ := h.processing i h' (hhandler ht hh)
    exact ⟨e, by simp only [event, hh, Option.elim_some, he], decide_eq_true hprocessing⟩
  · obtain ⟨h₁, hh₁⟩ := Option.isSome_iff_exists.1 hsome
    obtain ⟨h₂, hh₂⟩ := Option.isSome_iff_exists.1 hsome'
    simp only [event, hh₁, hh₂, Option.elim_some] at hid
    exact h.single i j h₁ h₂ (hhandler ht hh₁) (hhandler ht' hh₂) hid

/-! ## Any HCM -/

namespace Open

variable {cfg : Config} {s s₀ : State} {hist : List (State × Event)}

/-- In every run of request operations, ticks and retries, each retry one step,
    whatever the HCM does, the numbers of events that are reported say how many
    requests are awaited, have failed, are approved or have been cancelled after
    that, and every handler at work has an event that is reported as
    `PROCESSING`. -/
theorem queue_depths (hs₀ : Start s₀)
    (hrun : Run (step cfg) (fun _ x => x.isRegular) s₀ hist s) (log : Table SyncLog) :
    Depths s.db (getSyncStatus ⟨s.db, log⟩).outboxQueueDepth ∧
      s.handlersAtWork ≤ (getSyncStatus ⟨s.db, log⟩).outboxQueueDepth .processing :=
  have hs := corresponding_of_run hs₀ hrun
  ⟨hs.matched.depths, hs.held.handlersAtWork_le⟩

/-- A deduction that has failed for good. -/
theorem queue_depths_sample : ∃ hist s,
    Run (step sampleConfig) (fun _ x => x.isRegular) (sampleStart 10) hist s ∧
    s.db.depth .failed = 1 ∧ s.db.requestCount .failed = 1 ∧ Depths s.db s.db.depth := by
  have hexec : ∃ s ∈ exec (step sampleConfig) (sampleStart 10) (sampleFailed.map .act),
      s.db.depth .failed = 1 ∧ s.db.requestCount .failed = 1 := by
    decide +kernel
  have hregular : ∀ x ∈ sampleFailed.map Event.act, x.isRegular := by decide +kernel
  obtain ⟨s, hrun, hdepth, hfailed⟩ := exists_run_of_exec hregular hexec
  have hs₀ : Start (sampleStart 10) := ⟨fun _ => rfl, fun _ => rfl, rfl, rfl⟩
  exact ⟨_, s, hrun, hdepth, hfailed, (queue_depths hs₀ hrun .empty).1⟩

end Open

end TimeOff
