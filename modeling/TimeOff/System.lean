import TimeOff.Lib.Run
import TimeOff.Outbox
import TimeOff.Sync

/-!
# The system

The service at work: its database, the HCM, the clock, and what the process
holds in memory, i.e., the calls that have read their request and not yet run
their transaction, the ticks, each with the events that it has fetched and the
handler it is running, and the retries that have passed their check. These go
on in any order (`Action`, `step`): ticks overlap, calls race, and any of them
may never go on.

`retry` of the `OutboxController` is two statements, `checkRetry` and
`writeRetry`; the action `retry` is both at once. A sync is atomic here for
each row it updates; `TimeOff.SyncRace` takes a sync apart.

`Stepped` lists what one step does, for the proofs to go by.
-/

namespace TimeOff

open Transaction

/-- A run of `tick`: the events it has fetched and not come to yet, and the
    handler it waits for. -/
structure Tick where
  queue : List (ℕ × OutboxEvent)
  handler : Option Handler

/-- The tick after a step of its handler. What `handleEventFailure` throws
    ends the tick. -/
def Tick.goOn (p : Progress) (t : Tick) : Tick :=
  match p with
  | .running phase => { t with handler := t.handler.map ({ · with phase := phase }) }
  | .finished => { t with handler := none }
  | .aborted => ⟨[], none⟩

/-- The state of the system. -/
structure State where
  db : Database
  hcm : HcmState
  now : Instant
  calls : Table Call
  ticks : Table Tick
  /-- The ids of the events that a retry is about to write. -/
  retries : Table ℕ

namespace State

/-- The service starts: nothing is going on. -/
def start (db : Database) (hcm : HcmState) (now : Instant) : State :=
  ⟨db, hcm, now, .empty, .empty, .empty⟩

/-- A transaction is run. -/
def commit {α : Type} (s : State) (x : Tx α) : State := { s with db := transaction x s.db }

end State

/-- What may happen next. -/
inductive Action
  /-- Time passes. -/
  | advance (ms : ℕ)
  | submitRequest (dto : SubmitRequestDto) (caller : RequestUser)
  /-- `approveRequest`, `rejectRequest` or `cancelRequest` reads its request. -/
  | preRead (kind : CallKind) (id : ℕ) (caller : RequestUser)
  /-- The call `n` runs its transaction. -/
  | transact (n : ℕ)
  | completeDeductionFromOutbox (id : ℕ) (hcmRequestId : String)
  | failRequestFromOutbox (id : ℕ)
  | processBatchPayload (records : List BatchRecord)
  | processWebhookPayload (payload : BatchRecord)
  | reconcileRow (id : ℕ) (response : HcmBalanceResponse)
  /-- A tick starts, and fetches the events that are due. -/
  | tick
  /-- The tick `i` claims its next event. -/
  | claim (i : ℕ) (o : Outcome)
  /-- The handler of the tick `i` takes a step. -/
  | handle (i : ℕ) (o : Outcome)
  /-- `retry` finds its event, and checks its status. -/
  | checkRetry (id : ℕ)
  /-- The retry `n` updates its event. -/
  | writeRetry (n : ℕ)
  | retry (id : ℕ)
  /-- The process dies and is started again. -/
  | crash

/-- An operation of the service, which may throw. -/
def Action.isOperation : Action → Bool
  | .submitRequest .. | .preRead .. | .completeDeductionFromOutbox .. | .failRequestFromOutbox ..
  | .processBatchPayload .. | .processWebhookPayload .. | .reconcileRow .. | .checkRetry ..
  | .retry .. => true
  | _ => false

/-- A sync takes over totals of the HCM. -/
def Action.isSync : Action → Bool
  | .processBatchPayload .. | .processWebhookPayload .. | .reconcileRow .. => true
  | _ => false

/-- The update of `retry`. -/
def requeueEvent (now : Instant) (db : Database) (id : ℕ) : Database :=
  db.updateEvent id (·.requeue now)

/-- The check of `retry`. -/
def isRetryable (db : Database) (id : ℕ) : Bool :=
  (db.outbox.get id).any (·.status = .failed)

/-- One step of the system. -/
def step (cfg : Config) (s : State) : Action → Option State
  | .advance ms => some { s with now := s.now + ms }
  | .submitRequest dto caller =>
    some (s.commit (submitRequest (localMidnight cfg.utcOffset s.now) dto caller))
  | .preRead kind id caller =>
    match (preRead kind id caller).run (.start s.db) with
    | .ok c _ => some { s with calls := s.calls.insert c }
    | .error _ _ => some s
  | .transact n =>
    (s.calls.get n).map fun c => { s.commit (c.transaction s.now) with calls := s.calls.erase n }
  | .completeDeductionFromOutbox id hcmRequestId =>
    some (s.commit (completeDeductionFromOutbox id hcmRequestId))
  | .failRequestFromOutbox id => some (s.commit (failRequestFromOutbox id))
  | .processBatchPayload records => some (s.commit (processBatchPayload s.now records))
  | .processWebhookPayload payload => some (s.commit (processWebhookPayload s.now payload))
  | .reconcileRow id response => some (s.commit (reconcileRow s.now id response))
  | .tick => some { s with ticks := s.ticks.insert ⟨fetchDue s.db s.now, none⟩ }
  | .claim i o =>
    match s.ticks.get i with
    | some ⟨(id, event) :: queue, none⟩ =>
      if o ≠ .ok then some { s with ticks := s.ticks.update i fun _ => ⟨[], none⟩ }
      else
        match claimEvent s.db id with
        | some db =>
          some { s with
            db := db
            ticks := s.ticks.update i fun _ => ⟨queue, some (.start id event)⟩ }
        | none => some { s with ticks := s.ticks.update i fun _ => ⟨queue, none⟩ }
    | _ => none
  | .handle i o =>
    match s.ticks.get i with
    | some ⟨_, some h⟩ =>
      let (db, hcm, p) := h.step cfg s.now s.db s.hcm o
      some { s with db := db, hcm := hcm, ticks := s.ticks.update i (·.goOn p) }
    | _ => none
  | .checkRetry id =>
    some (if isRetryable s.db id then { s with retries := s.retries.insert id } else s)
  | .writeRetry n =>
    (s.retries.get n).map fun id =>
      { s with db := requeueEvent s.now s.db id, retries := s.retries.erase n }
  | .retry id =>
    some (if isRetryable s.db id then { s with db := requeueEvent s.now s.db id } else s)
  | .crash => some (.start s.db s.hcm s.now)

/-! ## What a step does -/

/-- What the steps of the system do. -/
inductive Stepped (cfg : Config) (s : State) : Action → State → Prop
  | advance (ms : ℕ) : Stepped cfg s (.advance ms) { s with now := s.now + ms }
  /-- An operation throws, and is rolled back. -/
  | refuse {a : Action} : a.isOperation → Stepped cfg s a s
  | submit {dto : SubmitRequestDto} {caller : RequestUser} {days : ℤ} {i : ℕ} {b : LeaveBalance} :
      0 < days → s.db.balances.get i = some b → b.toBalanceKey = dto.toBalanceKey →
      days ≤ b.totalDays - b.usedDays - b.reservedDays →
      Stepped cfg s (.submitRequest dto caller)
        { s with db := (s.db.reserve dto.toBalanceKey days).insertRequest (dto.request days) }
  | preRead {kind : CallKind} {id : ℕ} {caller : RequestUser} {c : Call} :
      c.kind = kind → c.id = id → s.db.requests.get id = some c.request →
      (kind = .cancel → c.request.status = .pending ∨ c.request.status = .approvedPendingHcm) →
      Stepped cfg s (.preRead kind id caller) { s with calls := s.calls.insert c }
  /-- A call throws, and its transaction is rolled back. -/
  | refuseCall {n : ℕ} {c : Call} {e : ServiceError} {t : Session} : s.calls.get n = some c →
      (c.transaction s.now).run (.start s.db) = .error e t →
      Stepped cfg s (.transact n) { s with calls := s.calls.erase n }
  | approve {n : ℕ} {c : Call} {r : TimeOffRequest} {x : ExtraFields} : s.calls.get n = some c →
      c.kind = .approve → s.db.requests.get c.id = some r → r.status = .pending →
      r.version = c.request.version → x.hcmRequestId = none →
      Stepped cfg s (.transact n) { s with
        db := (s.db.updateRequest c.id (·.move .approvedPendingHcm x)).insertEvent
          (deductEvent s.now c.id r)
        calls := s.calls.erase n }
  | reject {n : ℕ} {c : Call} {r : TimeOffRequest} {x : ExtraFields} {reason : String} :
      s.calls.get n = some c → c.kind = .reject reason → s.db.requests.get c.id = some r →
      r.status = .pending → r.version = c.request.version → x.hcmRequestId = none →
      Stepped cfg s (.transact n) { s with
        db := (s.db.updateRequest c.id (·.move .rejected x)).release c.request.toBalanceKey
          c.request.daysRequested
        calls := s.calls.erase n }
  | cancel {n : ℕ} {c : Call} {r : TimeOffRequest} : s.calls.get n = some c →
      c.kind = .cancel → s.db.requests.get c.id = some r → canTransition r.status .cancelled →
      r.version = c.request.version →
      Stepped cfg s (.transact n) { s with
        db := ((cancelEvent s.now c s.db).release c.request.toBalanceKey
          c.request.daysRequested).updateRequest c.id (·.move .cancelled {})
        calls := s.calls.erase n }
  | complete {id : ℕ} {hcmRequestId : String} {r : TimeOffRequest} {t : Session} :
      (completeDeductionFromOutbox id hcmRequestId).run (.start s.db) = .ok r t →
      Stepped cfg s (.completeDeductionFromOutbox id hcmRequestId) { s with db := t.db }
  | fail {id : ℕ} {r : TimeOffRequest} {t : Session} :
      (failRequestFromOutbox id).run (.start s.db) = .ok r t →
      Stepped cfg s (.failRequestFromOutbox id) { s with db := t.db }
  | sync {a : Action} {db : Database} : a.isSync → Synced s.db db →
      Stepped cfg s a { s with db := db }
  | tick : Stepped cfg s .tick { s with ticks := s.ticks.insert ⟨fetchDue s.db s.now, none⟩ }
  /-- The claim of a tick throws, which ends it. -/
  | abandon {i : ℕ} {o : Outcome} {t : Tick} : s.ticks.get i = some t → t.handler = none →
      o ≠ .ok →
      Stepped cfg s (.claim i o) { s with ticks := s.ticks.update i fun _ => ⟨[], none⟩ }
  /-- The next event is not `PENDING` any more. -/
  | skip {i : ℕ} {q : ℕ × OutboxEvent} {queue : List (ℕ × OutboxEvent)} :
      s.ticks.get i = some ⟨q :: queue, none⟩ →
      (∀ e, s.db.outbox.get q.1 = some e → e.status ≠ .pending) →
      Stepped cfg s (.claim i .ok) { s with ticks := s.ticks.update i fun _ => ⟨queue, none⟩ }
  | claim {i id : ℕ} {event e : OutboxEvent} {queue : List (ℕ × OutboxEvent)} :
      s.ticks.get i = some ⟨(id, event) :: queue, none⟩ → s.db.outbox.get id = some e →
      e.status = .pending →
      Stepped cfg s (.claim i .ok) { s with
        db := s.db.updateEvent id (·.setStatus .processing)
        ticks := s.ticks.update i fun _ => ⟨queue, some (.start id event)⟩ }
  | handle {i : ℕ} {o : Outcome} {t : Tick} {h : Handler} {db : Database} {hcm : HcmState}
      {p : Progress} : s.ticks.get i = some t → t.handler = some h →
      h.step cfg s.now s.db s.hcm o = (db, hcm, p) →
      Stepped cfg s (.handle i o)
        { s with db := db, hcm := hcm, ticks := s.ticks.update i (·.goOn p) }
  | checkRetry {id : ℕ} {e : OutboxEvent} : s.db.outbox.get id = some e → e.status = .failed →
      Stepped cfg s (.checkRetry id) { s with retries := s.retries.insert id }
  | writeRetry {n id : ℕ} : s.retries.get n = some id →
      Stepped cfg s (.writeRetry n)
        { s with db := requeueEvent s.now s.db id, retries := s.retries.erase n }
  | retry {id : ℕ} {e : OutboxEvent} : s.db.outbox.get id = some e → e.status = .failed →
      Stepped cfg s (.retry id) { s with db := requeueEvent s.now s.db id }
  | crash : Stepped cfg s .crash (.start s.db s.hcm s.now)

variable {cfg : Config} {s s' : State} {a : Action}

/-- The transaction of a call commits, or it throws and nothing is written. -/
theorem stepped_transact {n : ℕ} {c : Call} (hc : s.calls.get n = some c) :
    Stepped cfg s (.transact n)
      { s.commit (c.transaction s.now) with calls := s.calls.erase n } := by
  rw [State.commit]
  rcases transaction_cases (c.transaction s.now) s.db with ⟨u, t, hrun, ht⟩ | ⟨e, t, hrun, ht⟩ <;>
    rw [ht]
  · rw [Call.transaction] at hrun
    split at hrun
    · next hkind =>
      obtain ⟨r, x, hr, hst, hv, hx, hdb, _⟩ := approveTransaction_ok hrun
      rw [hdb]
      exact .approve hc hkind hr hst hv hx
    · next reason hkind =>
      obtain ⟨r, x, hr, hst, hv, hx, hdb, _⟩ := rejectTransaction_ok hrun
      rw [hdb]
      exact .reject hc hkind hr hst hv hx
    · next hkind =>
      obtain ⟨r, hr, hcan, hv, hdb, _⟩ := cancelTransaction_ok hrun
      rw [hdb]
      exact .cancel hc hkind hr hcan hv
  · exact .refuseCall hc hrun

theorem isOperation_of_isSync (ha : a.isSync) : a.isOperation := by
  cases a <;> first | rfl | cases ha

/-- A sync is one as soon as its transaction is. -/
theorem stepped_sync {α : Type} {x : Tx α} (ha : a.isSync)
    (hx : ∀ d t, x.run (.start s.db) = .ok d t → Synced s.db t.db) :
    Stepped cfg s a (s.commit x) := by
  rw [State.commit]
  rcases transaction_cases x s.db with ⟨d, t, hrun, ht⟩ | ⟨e, t, _, ht⟩ <;> rw [ht]
  · exact .sync ha (hx d t hrun)
  · exact .refuse (isOperation_of_isSync ha)

/-- A claim takes an event that is `PENDING`. -/
theorem claimEvent_eq_some {db db' : Database} {id : ℕ} (h : claimEvent db id = some db') :
    ∃ e, db.outbox.get id = some e ∧ e.status = .pending ∧
      db' = db.updateEvent id (·.setStatus .processing) := by
  obtain ⟨outbox, hu, rfl⟩ := Option.map_eq_some_iff.1 h
  obtain ⟨e, he, hp, rfl⟩ := Table.updateIf_eq_some.1 hu
  exact ⟨e, he, of_decide_eq_true hp, rfl⟩

/-- It takes no other. -/
theorem claimEvent_eq_none {db : Database} {id : ℕ} {e : OutboxEvent}
    (h : claimEvent db id = none) (he : db.outbox.get id = some e) : e.status ≠ .pending := by
  intro hpending
  have hu : db.outbox.updateIf id (·.status = .pending) (·.setStatus .processing) =
      some (db.outbox.update id (·.setStatus .processing)) :=
    Table.updateIf_eq_some.2 ⟨e, he, decide_eq_true hpending, rfl⟩
  rw [claimEvent, hu] at h
  cases h

theorem isRetryable_eq_true {db : Database} {id : ℕ} :
    isRetryable db id ↔ ∃ e, db.outbox.get id = some e ∧ e.status = .failed := by
  rw [isRetryable, Option.any_eq_true]
  simp only [decide_eq_true_eq]

/-- Every step is one of the list. -/
theorem step_stepped (h : step cfg s a = some s') : Stepped cfg s a s' := by
  -- One case for each action. A transaction that throws leaves the database as it is, hence
  -- refuses; what one does that commits is what its lemma says.
  cases a with
  | advance ms =>
    obtain rfl := Option.some.inj h
    exact .advance ms
  | submitRequest dto caller =>
    obtain rfl := Option.some.inj h
    rw [State.commit]
    rcases transaction_cases (submitRequest (localMidnight cfg.utcOffset s.now) dto caller) s.db
      with ⟨r, t, hrun, ht⟩ | ⟨e, t, _, ht⟩ <;> rw [ht]
    · obtain ⟨days, i, b, hdays, hb, hk, havail, hdb, _⟩ := submitRequest_ok hrun
      rw [hdb]
      exact .submit hdays hb hk havail
    · exact .refuse rfl
  | preRead kind id caller =>
    rw [step] at h
    split at h <;> obtain rfl := Option.some.inj h
    · next hrun =>
      obtain ⟨hkind, hid, hr, hcancel⟩ := preRead_ok hrun
      exact .preRead hkind hid hr hcancel
    · exact .refuse rfl
  | transact n =>
    obtain ⟨c, hc, rfl⟩ := Option.map_eq_some_iff.1 h
    exact stepped_transact hc
  | completeDeductionFromOutbox id hcmRequestId =>
    obtain rfl := Option.some.inj h
    rw [State.commit]
    rcases transaction_cases (completeDeductionFromOutbox id hcmRequestId) s.db
      with ⟨r, t, hrun, ht⟩ | ⟨e, t, _, ht⟩ <;> rw [ht]
    · exact .complete hrun
    · exact .refuse rfl
  | failRequestFromOutbox id =>
    obtain rfl := Option.some.inj h
    rw [State.commit]
    rcases transaction_cases (failRequestFromOutbox id) s.db
      with ⟨r, t, hrun, ht⟩ | ⟨e, t, _, ht⟩ <;> rw [ht]
    · exact .fail hrun
    · exact .refuse rfl
  | processBatchPayload records =>
    obtain rfl := Option.some.inj h
    exact stepped_sync rfl fun _ _ => processBatchPayload_ok
  | processWebhookPayload payload =>
    obtain rfl := Option.some.inj h
    exact stepped_sync rfl fun _ _ => processWebhookPayload_ok
  | reconcileRow id response =>
    obtain rfl := Option.some.inj h
    exact stepped_sync rfl fun _ _ => reconcileRow_ok
  | tick =>
    obtain rfl := Option.some.inj h
    exact .tick
  | claim i o =>
    -- The claim affects the row only if it is still `PENDING`; else the tick skips the
    -- event.
    rw [step] at h
    split at h
    · next id event queue ht =>
      split at h
      · next ho =>
        obtain rfl := Option.some.inj h
        exact .abandon ht rfl ho
      · next ho =>
        obtain rfl := not_not.1 ho
        split at h <;> obtain rfl := Option.some.inj h
        · next db hclaim =>
          obtain ⟨e, he, hpending, rfl⟩ := claimEvent_eq_some hclaim
          exact .claim ht he hpending
        · next hclaim => exact .skip ht fun e he => claimEvent_eq_none hclaim he
    · cases h
  | handle i o =>
    rw [step] at h
    split at h
    · next queue hd ht =>
      obtain rfl := Option.some.inj h
      exact .handle ht rfl rfl
    · cases h
  | checkRetry id =>
    obtain rfl := Option.some.inj h
    split
    · next hretry =>
      obtain ⟨e, he, hfailed⟩ := isRetryable_eq_true.1 hretry
      exact .checkRetry he hfailed
    · exact .refuse rfl
  | writeRetry n =>
    obtain ⟨id, hid, rfl⟩ := Option.map_eq_some_iff.1 h
    exact .writeRetry hid
  | retry id =>
    obtain rfl := Option.some.inj h
    split
    · next hretry =>
      obtain ⟨e, he, hfailed⟩ := isRetryable_eq_true.1 hretry
      exact .retry he hfailed
    · exact .refuse rfl
  | crash =>
    obtain rfl := Option.some.inj h
    exact .crash

/-! ## A sample -/

/-- The configuration that the service is shipped with. -/
def sampleConfig : Config := ⟨4, false, 0⟩

/-- What the balance of the employee `1` is for. -/
def sampleKey : BalanceKey := ⟨1, "LOC1", "ANNUAL"⟩

/-- A balance that nothing has been taken from. -/
def sampleBalance (totalDays : ℚ) : LeaveBalance where
  toBalanceKey := sampleKey
  totalDays := totalDays
  usedDays := 0
  reservedDays := 0
  lastSyncedAt := none
  hcmVersion := some "1"
  version := 0

/-- A manager, and an employee with `totalDays` days of leave. -/
def sampleDb (totalDays : ℚ) : Database where
  employees := (Table.empty.insert ⟨"Manager", "LOC1"⟩).insert ⟨"Employee", "LOC1"⟩
  balances := KeyedTable.empty.insert (sampleBalance totalDays) KeyedTable.lookup_empty
  requests := .empty
  outbox := .empty

/-- The sample has one balance. -/
theorem get_sampleDb {totalDays : ℚ} {i : ℕ} {b : LeaveBalance}
    (hb : (sampleDb totalDays).balances.get i = some b) : i = 0 ∧ b = sampleBalance totalDays := by
  change (if i = 0 then some (sampleBalance totalDays) else none) = some b at hb
  split at hb
  · next hi => exact ⟨hi, (Option.some.inj hb).symm⟩
  · cases hb

/-- The HCM with the balance of the employee, seeded with `totalDays`. -/
def sampleHcm (totalDays : ℚ) : HcmState where
  balances := Function.update (fun _ => none) sampleKey.hcmKey
    (some { sampleKey with totalDays := totalDays, hcmVersion := 1 })
  deductions _ := none
  requestIndex _ := none
  requestCounter := 0

theorem balances_sampleHcm (totalDays : ℚ) : (sampleHcm totalDays).balances sampleKey.hcmKey =
    some { sampleKey with totalDays := totalDays, hcmVersion := 1 } := by
  simp [sampleHcm]

/-- The service starts on the epoch. -/
def sampleStart (totalDays : ℚ) : State := .start (sampleDb totalDays) (sampleHcm totalDays) 0

/-- The employee of the sample, and the manager. -/
def sampleEmployee : RequestUser := ⟨1, .employee, some "LOC1"⟩
def sampleManager : RequestUser := ⟨0, .manager, some "LOC1"⟩

/-- The employee asks for `days` days, from the epoch on. -/
def sampleSubmit (days : ℤ) : Action :=
  .submitRequest ⟨sampleKey, .ofDay 0, .ofDay (days - 1)⟩ sampleEmployee

/-- The employee asks for `days` days, and the manager approves. -/
def sampleApproval (days : ℤ) : List Action :=
  [sampleSubmit days, .preRead .approve 0 sampleManager, .transact 0]

/-- The tick `i` calls the HCM in vain, when the backoff is over. -/
def sampleFailure (i : ℕ) : List Action :=
  [.advance 1800000, .tick, .claim i .ok, .handle i .throws, .handle i .ok]

/-- The tick `i` delivers a deduction. -/
def sampleDeduction (i : ℕ) : List Action :=
  [.tick, .claim i .ok, .handle i .ok, .handle i .ok]

/-- An approved request whose deduction has failed for good. -/
def sampleFailed : List Action :=
  sampleApproval 2 ++ sampleFailure 0 ++ sampleFailure 1 ++ sampleFailure 2 ++ sampleFailure 3

end TimeOff
