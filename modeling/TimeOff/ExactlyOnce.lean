import Mathlib.Data.Set.Function
import TimeOff.Exchange
import TimeOff.Handlers
import TimeOff.Lifecycle

/-!
# Exactly once

The system takes part in the exchange: every step of it is a step of
`Exchange` (`Stepped.exchange`), if the handlers do what they should
(`Exchanging`). So the HCM holds one deduction for a request at most; when all
events are done, it holds those of the approved requests; and as long as it
holds one for a cancelled request, the reversal is not done.

The runs are those in which the callbacks are called by handlers only, and a
retry is one step (`Action.isRegular`). The process may crash at any time.

* `exactly_once`: what the HCM holds for each request, at any time and once the
  outbox is empty;
* `reversal_outstanding`: a deduction of a cancelled request has its reversal
  still to come, or it has failed (`reversal_exhausted`) and may be retried.
-/

namespace TimeOff

open Transaction Transition HcmState

/-- The callbacks of the outbox processor are called by handlers only, and a
    retry is a single step. -/
def Action.isRegular : Action → Bool
  | .completeDeductionFromOutbox .. | .failRequestFromOutbox .. | .checkRetry _
  | .writeRetry _ => false
  | _ => true

/-- The messages of an outbox. -/
def messagesOf (t : Table OutboxEvent) (k : ℕ) : Option Message :=
  (t.get k).map OutboxEvent.message

/-- The ends of the exchange. -/
def Database.ends (db : Database) (hcm : HcmState) : Ends :=
  ⟨db.requests, messagesOf db.outbox, hcm⟩

/-- The ends of the exchange in a state. -/
def State.ends (s : State) : Ends := s.db.ends s.hcm

/-- `event` is the event `k`, perhaps as it has been before. -/
def Copied (X : Ends) (k : ℕ) (event : OutboxEvent) : Prop :=
  ∃ m, X.outbox k = some m ∧ m.eventType = event.eventType ∧ m.requestId = event.requestId ∧
    m.payload = event.payload

/-- What a handler has found out. -/
def Handler.Knows (X : Ends) (h : Handler) : Prop :=
  match h.phase with
  | .deductBalance => h.event.eventType = .hcmDeduct
  | .completeDeduction hcmRequestId => h.event.eventType = .hcmDeduct ∧
      ∃ d, X.deduction h.id = some d ∧ d.hcmRequestId = hcmRequestId
  | .readHcmRequestId => h.event.eventType = .hcmReverse
  | .reverseDeduction hcmRequestId => h.event.eventType = .hcmReverse ∧
      ∃ r, X.requests.get h.event.requestId = some r ∧ r.hcmRequestId = some hcmRequestId
  | .markDone => h.event.eventType = .hcmReverse ∧
      ∃ r hcmRequestId, X.requests.get h.event.requestId = some r ∧
        r.hcmRequestId = some hcmRequestId ∧ X.hcm.requestIndex hcmRequestId = none
  | .handleEventFailure => True

/-- The ends correspond, and the handlers know what they are doing. -/
structure Exchanging (s : State) : Prop where
  corresponds : Corresponds s.ends
  queued : ∀ i q, s.Queued i q → Copied s.ends q.1 q.2
  copied : ∀ i h, s.handler i = some h → Copied s.ends h.id h.event
  knows : ∀ i h, s.handler i = some h → h.Knows s.ends

variable {cfg : Config} {s s' s₀ : State} {a : Action} {id i j k : ℕ} {e event : OutboxEvent}
  {h : Handler} {hist : List (State × Action)} {X X' : Ends} {m : Message} {r : TimeOffRequest}
  {db db' : Database} {hcm hcm' : HcmState} {now : Instant} {p : Progress}
  {t : Table OutboxEvent} {f : OutboxEvent → OutboxEvent} {type : OutboxEventType}

/-! ## Messages of an outbox -/

theorem messagesOf_insert :
    messagesOf (t.insert e) = Function.update (messagesOf t) t.nextId (some e.message) := by
  funext k
  rw [messagesOf, Table.get_insert, Function.update_apply]
  split <;> rfl

theorem messagesOf_nextId : messagesOf t t.nextId = none := by
  rw [messagesOf, Table.get_nextId, Option.map_none]

/-- An update that leaves the message as it is. -/
theorem messagesOf_update_same (he : t.get k = some e) (hf : (f e).message = e.message) :
    messagesOf (t.update k f) = messagesOf t := by
  funext j
  rw [messagesOf, messagesOf, Table.get_update]
  split
  · next hj => rw [hj, he, Option.map_some, Option.map_some, Option.map_some, hf]
  · rfl

/-- An event that is done is a message that is done. -/
theorem messagesOf_setDone (he : t.get k = some e) :
    messagesOf (t.update k (·.setStatus .done)) =
      Function.update (messagesOf t) k (some e.message.finish) := by
  funext j
  rw [messagesOf, Table.get_update, Function.update_apply]
  split
  · next hj => rw [hj, he]; rfl
  · rfl

/-- The handler works on the event whose row is `e`. -/
structure Handler.On (h : Handler) (db : Database) (e : OutboxEvent) : Prop where
  row : db.outbox.get h.id = some e
  processing : e.status = .processing
  eventType : e.eventType = h.event.eventType
  requestId : e.requestId = h.event.requestId
  payload : e.payload = h.event.payload

/-- The message of a handler is one for its request. -/
theorem Handler.On.mem (hon : h.On db e) (htype : h.event.eventType = type) :
    (h.id, e.message) ∈ (db.ends hcm).messages type h.event.requestId :=
  ⟨by change messagesOf db.outbox h.id = _; rw [messagesOf, hon.row]; rfl,
    hon.eventType.trans htype, hon.requestId⟩

/-- What is being processed is not done. -/
theorem Handler.On.open (hon : h.On db e) : e.message.done = false := by
  rw [OutboxEvent.message, hon.processing]
  rfl

/-- A handler has its event to itself: it is `PROCESSING` and as it was fetched.
    -/
theorem Held.on (hheld : Held s) (hcopied : Copied s.ends h.id h.event)
    (hh : s.handler i = some h) : ∃ e, h.On s.db e := by
  obtain ⟨e, he, hprocessing⟩ := hheld.processing i h hh
  obtain ⟨m, hm, htype, hid, hpayload⟩ := hcopied
  obtain rfl : e.message = m := by
    change messagesOf s.db.outbox h.id = some m at hm
    rw [messagesOf, he, Option.map_some] at hm
    exact Option.some.inj hm
  exact ⟨e, he, hprocessing, htype, hid, hpayload⟩

/-! ## Steps are steps of the exchange -/

/-- A request that is failed by its deduction. -/
theorem exchange_fail {t t' : Session} (hrun : (failRequestFromOutbox id).run t = .ok r t')
    (hX : X.requests = t.db.requests) :
    Exchange X { X with requests := t'.db.requests } := by
  obtain ⟨r₀, hr₀, ⟨-, rfl⟩ | ⟨hstatus, hdb, -⟩⟩ := failRequestFromOutbox_ok hrun
  · exact .stay (by rw [← hX])
  · exact .fail (hX ▸ hr₀) hstatus (by rw [hdb, Ends.updateRequest, hX]; rfl)

/-- A deduction that is confirmed, for a request that is awaiting it or has
    been cancelled. -/
theorem exchange_complete (hX : Corresponds X) {t t' : Session} {hcmRequestId : String}
    {d : DeductionRecord} (hm : (k, m) ∈ X.messages .hcmDeduct id) (hopen : m.done = false)
    (hd : X.deduction k = some d) (hid : d.hcmRequestId = hcmRequestId)
    (hrun : (completeDeductionFromOutbox id hcmRequestId).run t = .ok r t')
    (hrequests : X.requests = t.db.requests) :
    Exchange X ({ X with requests := t'.db.requests }.finish k m) := by
  subst hid
  obtain ⟨r₀, hr₀, hcases⟩ := completeDeductionFromOutbox_ok hrun
  rw [← hrequests] at hr₀
  rcases hcases with ⟨happroved, -⟩ | ⟨hcancelled, hdb, -⟩ | ⟨hcan, hdb, -⟩
  · -- An approved request has its deduction confirmed.
    obtain ⟨_, _, _, _, ⟨_, hstatus⟩ | ⟨hstatus, _⟩⟩ := (hX.stage id r₀ hr₀).of_open hm hopen
    · rw [happroved] at hstatus
      rcases hstatus with hstatus | hstatus <;> cases hstatus
    · rw [happroved] at hstatus
      cases hstatus
  · refine .stamp hm hopen hd hr₀ hcancelled ?_
    rw [hdb, Ends.updateRequest, hrequests]
    rfl
  · refine .confirm hm hopen hd hr₀ (fun hcancelled => ?_) ?_
    · rw [hcancelled] at hcan
      cases hcan
    · rw [hdb, Ends.updateRequest, hrequests]
      rfl

/-- The two ends after an update of the event that leaves its message alone. -/
theorem ends_update_same (he : db.outbox.get k = some e) (hf : (f e).message = e.message) :
    (db.updateEvent k f).ends hcm = db.ends hcm := by
  rw [Database.ends, Database.outbox_updateEvent, messagesOf_update_same he hf]
  rfl

theorem ends_setDone (he : db.outbox.get k = some e) :
    (db.updateEvent k (·.setStatus .done)).ends hcm = (db.ends hcm).finish k e.message := by
  rw [Database.ends, Database.outbox_updateEvent, messagesOf_setDone he]
  rfl

/-- A failure that is recorded leaves the message open. -/
theorem exchange_failure {t : Session} (hon : h.On db e)
    (hrun : (handleEventFailure cfg now h.id h.event).run (.start db) = .ok () t) :
    Exchange (db.ends hcm) (t.db.ends hcm) := by
  rcases handleEventFailure_ok hrun with ⟨_, hdb⟩ | ⟨_, _, hdb⟩ | ⟨_, _, r, t₁, hfail, hdb⟩
  · refine .stay ?_
    rw [hdb]
    exact ends_update_same hon.row (by simp [OutboxEvent.message, OutboxEvent.reschedule,
      hon.processing])
  · refine .stay ?_
    rw [hdb]
    exact ends_update_same hon.row (by simp [OutboxEvent.message, OutboxEvent.exhaust,
      hon.processing])
  · have hends : t₁.db.ends hcm = db.ends hcm := by
      rw [hdb]
      exact ends_update_same hon.row (by simp [OutboxEvent.message, OutboxEvent.exhaust,
        hon.processing])
    have hexchange := exchange_fail (X := t₁.db.ends hcm) hfail rfl
    rw [← hends]
    have ht : t.db.ends hcm = { t₁.db.ends hcm with requests := t.db.requests } := by
      rw [Database.ends, outbox_fail hfail]
      rfl
    rwa [ht]

/-- A step of a handler is a step of the exchange. -/
theorem Handled.exchange (hh : Handled cfg now db hcm h db' hcm' p)
    (hX : Corresponds (db.ends hcm)) (hknows : h.Knows (db.ends hcm)) (hon : h.On db e) :
    Exchange (db.ends hcm) (db'.ends hcm') := by
  rw [Handler.Knows] at hknows
  -- By what the handler has done. What it knows at its phase is what the exchange asks for.
  cases hh with
  | threw _ => exact .stay rfl
  | deducted _ hphase hp hd =>
    rw [hphase] at hknows
    rcases deductBalance_ok (idempotencyKey_ne_empty h.id) hd with
      ⟨d, _, _, rfl⟩ | ⟨hnone, balance, hb, _, _, rfl⟩
    · exact .stay rfl
    · exact .deduct (hon.mem hknows) hon.open (hon.payload.trans hp) hnone hb rfl
  | completed hphase hrun =>
    rw [hphase] at hknows
    obtain ⟨htype, d, hd, hid⟩ := hknows
    obtain ⟨r, t₁, hcomplete, hdb, _⟩ := deductTransaction_ok hrun
    have hexchange := exchange_complete hX (hon.mem htype) hon.open hd hid hcomplete rfl
    have hends : { db.ends hcm with requests := t₁.db.requests }.finish h.id e.message =
        (t₁.db.updateEvent h.id (·.setStatus .done)).ends hcm := by
      have hout := outbox_complete hcomplete
      rw [ends_setDone (e := e) (by rw [hout]; exact hon.row), Database.ends, Database.ends, hout]
      rfl
    rwa [hdb, ← hends]
  | selected _ _ _ => exact .stay rfl
  | reversed _ hphase hr =>
    rw [hphase] at hknows
    obtain ⟨htype, r, hget, hid⟩ := hknows
    exact .reverse (hon.mem htype) hget hid hr rfl
  | absent _ _ _ => exact .stay rfl
  | marked hphase =>
    rw [hphase] at hknows
    obtain ⟨htype, r, hcmRequestId, hget, hid, hgone⟩ := hknows
    exact .finish (hon.mem htype) hget hid hgone (ends_setDone hon.row)
  | recorded _ hrun => exact exchange_failure hon hrun
  | aborted _ => exact .stay rfl

/-- A handler that goes on knows what it needs. -/
theorem Handled.knows (hh : Handled cfg now db hcm h db' hcm' p)
    (hX : Corresponds (db.ends hcm)) (hknows : h.Knows (db.ends hcm)) {phase : Phase}
    (hp : p = .running phase) : { h with phase := phase }.Knows (db'.ends hcm') := by
  rw [Handler.Knows] at hknows
  -- A handler that goes on knows what it has been told: the answer of the HCM, or the id
  -- that it has read. After a throw it knows nothing, and needs nothing.
  cases hh with
  | threw _ =>
    cases hp
    trivial
  | deducted _ hphase _ hd =>
    rw [hphase] at hknows
    rcases respond_eq_running hp with rfl | rfl
    · refine ⟨hknows, ?_⟩
      rcases deductBalance_ok (idempotencyKey_ne_empty h.id) hd with
        ⟨d, hlive, rfl, rfl⟩ | ⟨hnone, balance, hb, _, rfl, rfl⟩
      · exact ⟨d, hlive, rfl⟩
      · exact ⟨_, (congrFun (deductions_deduct _ (idempotencyKey_ne_empty h.id)) _).trans
          (Function.update_self ..), rfl⟩
    · trivial
  | selected hphase hr hid =>
    rw [hphase] at hknows
    cases hp
    exact ⟨hknows, _, hr, hid⟩
  | reversed _ hphase hr =>
    rw [hphase] at hknows
    obtain ⟨htype, r, hget, hid⟩ := hknows
    rcases respond_eq_running hp with rfl | rfl
    · obtain ⟨k, d, balance, _, _, _, rfl⟩ := hX.hcm.reverseDeduction_ok hr
      exact ⟨htype, r, _, hget, hid, Function.update_self ..⟩
    · trivial
  | absent _ hphase hr =>
    rw [hphase] at hknows
    obtain ⟨htype, r, hget, hid⟩ := hknows
    rcases respond_eq_running hp with rfl | rfl
    · exact ⟨htype, r, _, hget, hid, hX.hcm.reverseDeduction_error hr⟩
    · trivial
  | completed _ _ | marked _ | recorded _ _ | aborted _ => cases hp

/-- What a cancellation does depends on the status of the copy that its call
    has read, which is that of the row. -/
theorem exchange_cancel {c : Call} (hc : c.Ok s.db.books) (hkind : c.kind = .cancel)
    (hr : s.db.requests.get c.id = some r) (hv : r.version = c.request.version)
    (hrequests : db.requests = s.db.requests.update c.id (·.move .cancelled {}))
    (hout : db.outbox = (cancelEvent s.now c s.db).outbox) :
    Exchange s.ends (db.ends s.hcm) := by
  have hstatus : c.request.status = r.status := (hc.before hr).status hv.symm
  rcases hc.cancel hkind with hpending | hawaiting
  · refine .settle (x := {}) hr (hstatus ▸ hpending) (.inr rfl) rfl ?_
    rw [Database.ends, hrequests, hout, cancelEvent, if_neg (by rw [hpending]; decide)]
    rfl
  · refine .cancel (k := s.db.outbox.nextId) hr (hstatus ▸ hawaiting) messagesOf_nextId ?_
    rw [Database.ends, hrequests, hout, cancelEvent, if_pos hawaiting,
      Database.outbox_insertEvent, messagesOf_insert]
    rfl

/-- Every step of the system is a step of the exchange. -/
theorem Stepped.exchange (hstep : Stepped cfg s a s') (hX : Exchanging s) (hheld : Held s)
    (hcalls : CallsOk s) (hok : a.isRegular) : Exchange s.ends s'.ends := by
  -- The HCM is only reached by handlers; the other steps change the requests and the
  -- messages, or nothing that is exchanged.
  cases hstep with
  | submit _ _ _ _ => exact .submit rfl
  | approve _ _ hr hstatus _ hx =>
    refine .approve (k := s.db.outbox.nextId) hr hstatus hx messagesOf_nextId ?_
    rw [State.ends, Database.ends, Database.outbox_insertEvent, Database.outbox_updateRequest,
      messagesOf_insert]
    rfl
  | reject _ _ hr hstatus _ hx => exact .settle hr hstatus (.inl rfl) hx rfl
  | cancel hc hkind hr _ hv =>
    exact exchange_cancel (hcalls _ _ hc) hkind hr hv (by simp) rfl
  | complete _ | fail _ | writeRetry _ => cases hok
  | sync _ hsync =>
    refine .stay ?_
    rw [State.ends, Database.ends, hsync.requests, hsync.outbox]
    rfl
  | claim _ he hpending =>
    exact .stay (ends_update_same he (by simp [OutboxEvent.message, OutboxEvent.setStatus,
      hpending]))
  | handle ht hh hstep =>
    have hh := handler_eq_some.2 ⟨_, ht, hh⟩
    obtain ⟨e, hon⟩ := hheld.on (hX.copied _ _ hh) hh
    exact (Handler.step_handled hstep).exchange hX.corresponds (hX.knows _ _ hh) hon
  | retry he hfailed =>
    exact .stay (ends_update_same he (by simp [OutboxEvent.message, OutboxEvent.requeue, hfailed]))
  | _ => exact .stay rfl

/-! ## The handlers keep up -/

theorem Copied.persists (hcopied : Copied X k event) (hX : Persists X X') :
    Copied X' k event := by
  obtain ⟨m, hm, htype, hid, hpayload⟩ := hcopied
  obtain ⟨m', hm', htype', hid', hpayload'⟩ := hX.message k m hm
  exact ⟨m', hm', htype'.trans htype, hid'.trans hid, hpayload'.trans hpayload⟩

/-- What a handler knows stays true whatever the others do. -/
theorem Handler.Knows.persists (hknows : h.Knows (db.ends hcm)) (hon : h.On db e)
    (hX : Persists (db.ends hcm) X') : h.Knows X' := by
  rw [Handler.Knows] at hknows ⊢
  split at hknows
  · exact hknows
  · obtain ⟨htype, d, hd, hid⟩ := hknows
    exact ⟨htype, d, hX.live _ _ _ _ (hon.mem htype) hon.open hd, hid⟩
  · exact hknows
  · obtain ⟨htype, r, hr, hid⟩ := hknows
    obtain ⟨r', hr', hid'⟩ := hX.told _ _ _ hr hid
    exact ⟨htype, r', hr', hid'⟩
  · obtain ⟨htype, r, hcmRequestId, hr, hid, hgone⟩ := hknows
    obtain ⟨r', hr', hid'⟩ := hX.told _ _ _ hr hid
    exact ⟨htype, r', _, hr', hid', hX.gone _ _ _ hr hid hgone⟩
  · trivial

/-- The events that a tick has fetched are copied. -/
theorem copied_fetched {q : ℕ × OutboxEvent} (hq : q ∈ fetchDue s.db s.now) :
    Copied s.ends q.1 q.2 := by
  refine ⟨q.2.message, ?_, rfl, rfl, rfl⟩
  change messagesOf s.db.outbox q.1 = _
  rw [messagesOf, (mem_fetchDue hq).1]
  rfl

/-- The handlers after a step: those before, the one that goes on, and the one
    that a tick has started. -/
theorem Stepped.handler (hstep : Stepped cfg s a s') (hh : s'.handler i = some h) :
    s.handler i = some h ∨
    (∃ h₀ o db hcm phase, s.handler i = some h₀ ∧
      h₀.step cfg s.now s.db s.hcm o = (db, hcm, .running phase) ∧
      h = { h₀ with phase := phase } ∧ s'.db = db ∧ s'.hcm = hcm) ∨
    ∃ q, s.Queued i q ∧ h = .start q.1 q.2 := by
  -- A handler is there before, goes on, or has just been started for an event of its queue.
  cases hstep with
  | tick =>
    rw [handler_insert (s := s) rfl rfl] at hh
    exact .inl hh
  | abandon ht hnone _ =>
    rw [handler_update ht rfl] at hh
    exact .inl (PartialMap.unset_eq_some.1 hh).2
  | skip ht _ =>
    rw [handler_update ht rfl] at hh
    exact .inl (PartialMap.unset_eq_some.1 hh).2
  | claim ht _ _ =>
    rw [handler_update ht rfl] at hh
    rcases PartialMap.set_eq_some.1 hh with ⟨rfl, rfl⟩ | ⟨_, hh⟩
    · exact .inr (.inr ⟨_, ⟨_, ht, List.mem_cons_self⟩, rfl⟩)
    · exact .inl hh
  | @handle j o t h₀ db hcm p ht hh₀ hstep =>
    rw [handler_update ht rfl, Function.update_apply] at hh
    split at hh
    · next hi =>
      subst hi
      cases p with
      | running phase =>
        rw [Tick.goOn, hh₀, Option.map_some, Option.some.injEq] at hh
        exact .inr (.inl ⟨h₀, o, db, hcm, phase, handler_eq_some.2 ⟨t, ht, hh₀⟩, hstep, hh.symm,
          rfl, rfl⟩)
      | finished => cases hh
      | aborted => cases hh
    · exact .inl hh
  | crash => cases hh
  | _ => exact .inl hh

/-- Every regular step is one of the exchange, and what is known of the messages
    in the queues and by the handlers stays true. -/
theorem Exchanging.step (hX : Exchanging s) (hheld : Held s) (hcalls : CallsOk s)
    (hok : a.isRegular) (hstep : Stepped cfg s a s') : Exchanging s' := by
  have hexchange := hstep.exchange hX hheld hcalls hok
  have hpersists := hX.corresponds.persists hexchange
  refine ⟨hX.corresponds.exchange hexchange, fun i q hq => ?_, fun i h hh => ?_,
    fun i h hh => ?_⟩
  · rcases hstep.queued hq with hq | hq
    · exact (hX.queued i q hq).persists hpersists
    · exact (copied_fetched hq).persists hpersists
  · rcases hstep.handler hh with hh | ⟨h₀, _, _, _, _, hh₀, _, rfl, _⟩ | ⟨q, hq, rfl⟩
    · exact (hX.copied i h hh).persists hpersists
    · exact (hX.copied i h₀ hh₀).persists hpersists
    · exact (hX.queued i q hq).persists hpersists
  · rcases hstep.handler hh with hh | ⟨h₀, o, db, hcm, phase, hh₀, hgo, rfl, hdb, hhcm⟩ |
      ⟨q, _, rfl⟩
    · obtain ⟨e, hon⟩ := hheld.on (hX.copied i h hh) hh
      exact (hX.knows i h hh).persists hon hpersists
    · have hknows := (Handler.step_handled hgo).knows hX.corresponds (hX.knows i h₀ hh₀) rfl
      rwa [State.ends, hdb, hhcm]
    · rw [Handler.Knows, Handler.start]
      cases htype : q.2.eventType with
      | hcmDeduct => exact htype
      | hcmReverse => exact htype

/-! ## Runs -/

/-- Nothing has been requested, and nothing is going on. -/
structure Opening (s : State) : Prop where
  requests : ∀ id, s.db.requests.get id = none
  outbox : ∀ id, s.db.outbox.get id = none
  deductions : ∀ q, s.hcm.deductions q = none
  requestIndex : ∀ h, s.hcm.requestIndex h = none
  calls : s.calls = .empty
  ticks : s.ticks = .empty

/-- The step is a regular one. -/
abbrev Regular (_ : State) (a : Action) : Prop := a.isRegular

/-- At first nothing has been sent. -/
theorem Opening.exchanging (hs : Opening s) : Exchanging s := by
  have hnone : ∀ k, messagesOf s.db.outbox k = none := fun k => by
    rw [messagesOf, hs.outbox]
    rfl
  have hhandler : ∀ i, s.handler i = none := fun i => by
    rw [State.handler, hs.ticks]
    rfl
  refine ⟨⟨⟨fun k m hm => ?_, fun q d hd => ?_, fun id r h hr => ?_,
    .of_empty hs.deductions hs.requestIndex⟩, fun id r hr => ?_⟩, fun i q hq => ?_,
    fun i h hh => ?_, fun i h hh => ?_⟩
  · rw [show s.ends.outbox k = none from hnone k] at hm
    cases hm
  · rw [show s.ends.hcm.deductions q = none from hs.deductions q] at hd
    cases hd
  · rw [show s.ends.requests.get id = none from hs.requests id] at hr
    cases hr
  · rw [show s.ends.requests.get id = none from hs.requests id] at hr
    cases hr
  · obtain ⟨t, ht, _⟩ := hq
    rw [hs.ticks] at ht
    cases ht
  · rw [hhandler] at hh
    cases hh
  · rw [hhandler] at hh
    cases hh

/-- A regular step is no update of a retry by itself. -/
theorem held_of_regular (hs₀ : Opening s₀) (hrun : Run (step cfg) Regular s₀ hist s) : Held s :=
  held_of_run hs₀.ticks (hrun.mono fun s a hok n id ha _ => by
    subst ha
    cases hok)

theorem exchanging_of_run (hs₀ : Opening s₀) (hrun : Run (step cfg) Regular s₀ hist s) :
    Exchanging s := by
  refine hrun.history (I := fun _ s => Exchanging s) hs₀.exchanging ?_
  intro hist s a s' hrun hX hok hnext
  exact hX.step (held_of_regular hs₀ hrun) (callsOk_of_run hs₀.calls hrun) hok (step_stepped hnext)

/-- The message of an event, and the event of a message. -/
theorem mem_messages_ends : (k, m) ∈ s.ends.messages type id ↔ ∃ e,
    s.db.outbox.get k = some e ∧ e.message = m ∧ e.eventType = type ∧ e.requestId = id := by
  change messagesOf s.db.outbox k = some m ∧ m.eventType = type ∧ m.requestId = id ↔ _
  rw [messagesOf, Option.map_eq_some_iff]
  constructor
  · rintro ⟨⟨e, he, rfl⟩, htype, hid⟩
    exact ⟨e, he, rfl, htype, hid⟩
  · rintro ⟨e, he, rfl, htype, hid⟩
    exact ⟨⟨e, he, rfl⟩, htype, hid⟩

/-- `q` is the idempotency key of a live deduction for the request `id`. -/
def State.Live (s : State) (id : ℕ) (q : String) : Prop :=
  ∃ k e d, s.db.outbox.get k = some e ∧ e.eventType = .hcmDeduct ∧ e.requestId = id ∧
    q = idempotencyKey k ∧ s.hcm.deductions q = some d

/-- A deduction is live for a request if its key is that of an event of the
    request. -/
theorem live_iff {q : String} : s.Live id q ↔ ∃ k m d, (k, m) ∈ s.ends.messages .hcmDeduct id ∧
    q = idempotencyKey k ∧ s.ends.deduction k = some d := by
  constructor
  · rintro ⟨k, e, d, he, htype, hid, rfl, hd⟩
    exact ⟨k, e.message, d, mem_messages_ends.2 ⟨e, he, rfl, htype, hid⟩, rfl, hd⟩
  · rintro ⟨k, m, d, hm, rfl, hd⟩
    obtain ⟨e, he, _, htype, hid⟩ := mem_messages_ends.1 hm
    exact ⟨k, e, d, he, htype, hid, rfl, hd⟩

/-- What the HCM holds is for some request. -/
theorem Exchanging.exists_live (hX : Exchanging s) {q : String} {d : DeductionRecord}
    (hd : s.hcm.deductions q = some d) : ∃ id, s.Live id q := by
  obtain ⟨k, m, hm, htype, rfl⟩ := hX.corresponds.asked q d hd
  exact ⟨m.requestId, live_iff.2 ⟨k, m, d, ⟨hm, htype, rfl⟩, rfl, hd⟩⟩

theorem Exchanging.live_unique (hX : Exchanging s) {q q' : String} (hq : s.Live id q)
    (hq' : s.Live id q') : q = q' := by
  obtain ⟨k, m, _, hm, rfl, _⟩ := live_iff.1 hq
  obtain ⟨k', m', _, hm', rfl, _⟩ := live_iff.1 hq'
  exact congrArg _ (Prod.mk.inj (hX.corresponds.subsingleton_messages id hm hm')).1

/-- A live deduction is for one request only. -/
theorem live_inj {q : String} (hq : s.Live id q) (hq' : s.Live j q) : id = j := by
  obtain ⟨k, m, _, hm, rfl, _⟩ := live_iff.1 hq
  obtain ⟨k', m', _, hm', hkey, _⟩ := live_iff.1 hq'
  obtain rfl := idempotencyKey_injective hkey
  exact (Ends.messages_inj hm hm').2.2

/-- **Exactly once.** In every run of the service, the HCM holds one deduction
    for a request at most, and none for anything else; and every id that it can
    reverse is that of one of these deductions. When all events are done, its
    deductions are those of the approved requests, one to one, each for the
    balance and the days of its request, which has its id. -/
theorem exactly_once (hs₀ : Opening s₀) (hrun : Run (step cfg) Regular s₀ hist s) :
    (∀ q d, s.hcm.deductions q = some d → ∃ id, s.Live id q) ∧
    (∀ h q, s.hcm.requestIndex h = some q ↔
      ∃ d, s.hcm.deductions q = some d ∧ d.hcmRequestId = h) ∧
    (∀ id q q', s.Live id q → s.Live id q' → q = q') ∧
    ((∀ k e, s.db.outbox.get k = some e → e.status = .done) → ∃ f : ℕ → String,
      Set.BijOn f {id | ∃ r, s.db.requests.get id = some r ∧ r.status = .approved}
        {q | ∃ d, s.hcm.deductions q = some d} ∧
      ∀ id r, s.db.requests.get id = some r → r.status = .approved → s.Live id (f id) ∧
        ∃ d, s.hcm.deductions (f id) = some d ∧ d.Pays r ∧
          r.hcmRequestId = some d.hcmRequestId ∧
          s.hcm.requestIndex d.hcmRequestId = some (f id)) := by
  have hX := exchanging_of_run hs₀ hrun
  have hindex : ∀ h q, s.hcm.requestIndex h = some q ↔
      ∃ d, s.hcm.deductions q = some d ∧ d.hcmRequestId = h := by
    refine fun h q => ⟨hX.corresponds.hcm.live h q, ?_⟩
    rintro ⟨d, hd, rfl⟩
    exact hX.corresponds.hcm.indexed q d hd
  refine ⟨fun q d hd => hX.exists_live hd, hindex, fun id q q' => hX.live_unique,
    fun hdone => ?_⟩
  have hdone' : ∀ k m, s.ends.outbox k = some m → m.done = true := by
    intro k m hm
    obtain ⟨e, he, rfl⟩ := Option.map_eq_some_iff.1 hm
    rw [OutboxEvent.message, hdone k e he]
    rfl
  -- Every approved request has its deduction. Chosen by the requests, these are distinct,
  -- since the key names the event; and they are all, since what is live when all is done
  -- belongs to an approved request.
  have hpaid : ∀ id, ∃ q, ∀ r, s.db.requests.get id = some r → r.status = .approved →
      s.Live id q ∧ ∃ d, s.hcm.deductions q = some d ∧ d.Pays r ∧
        r.hcmRequestId = some d.hcmRequestId ∧ s.hcm.requestIndex d.hcmRequestId = some q := by
    intro id
    by_cases hr : ∃ r, s.db.requests.get id = some r ∧ r.status = .approved
    · obtain ⟨r, hr, hstatus⟩ := hr
      obtain ⟨k, m, d, hm, hd, hpays, hid⟩ := hX.corresponds.deduction_of_approved hr hstatus
      refine ⟨idempotencyKey k, fun r' hr' _ => ?_⟩
      obtain rfl := Option.some.inj (hr.symm.trans hr')
      exact ⟨live_iff.2 ⟨k, m, d, hm, rfl, hd⟩, d, hd, hpays, hid,
        hX.corresponds.hcm.indexed _ d hd⟩
    · exact ⟨"", fun r hr' hstatus => absurd ⟨r, hr', hstatus⟩ hr⟩
  choose f hf using hpaid
  refine ⟨f, ⟨fun id hid => ?_, fun id hid j hj heq => ?_, fun q hq => ?_⟩, hf⟩
  · obtain ⟨r, hr, hstatus⟩ := hid
    obtain ⟨_, d, hd, _⟩ := hf id r hr hstatus
    exact ⟨d, hd⟩
  · obtain ⟨r, hr, hstatus⟩ := hid
    obtain ⟨r', hr', hstatus'⟩ := hj
    exact live_inj (hf id r hr hstatus).1 (heq ▸ (hf j r' hr' hstatus').1)
  · obtain ⟨d, hd⟩ := hq
    obtain ⟨id, hlive⟩ := hX.exists_live hd
    obtain ⟨k, m, d', hm, rfl, hd'⟩ := live_iff.1 hlive
    obtain ⟨r, hr, hstatus⟩ := hX.corresponds.approved_of_live hdone' hm hd'
    exact ⟨id, ⟨r, hr, hstatus⟩, hX.live_unique (hf id r hr hstatus).1 hlive⟩

theorem opening_sample (totalDays : ℚ) : Opening (sampleStart totalDays) :=
  ⟨fun _ => rfl, fun _ => rfl, fun _ => rfl, fun _ => rfl, rfl, rfl⟩

/-- Every event is done. -/
def AllDone (s : State) : Prop :=
  ∀ k < s.db.outbox.nextId, (s.db.outbox.get k).all (·.status = .done)

instance (s : State) : Decidable (AllDone s) := inferInstanceAs (Decidable (∀ _ < _, _))

theorem AllDone.status (hs : AllDone s) (he : s.db.outbox.get k = some e) : e.status = .done := by
  have hall := hs k (Table.lt_nextId he)
  rw [he] at hall
  exact of_decide_eq_true hall

/-- The answer of the HCM is lost, and its deduction found by the second
    attempt. -/
theorem exactly_once_sample : ∃ hist s, Run (step sampleConfig) Regular (sampleStart 10) hist s ∧
    (∃ r, s.db.requests.get 0 = some r ∧ r.status = .approved) ∧ ∃ f : ℕ → String,
      Set.BijOn f {id | ∃ r, s.db.requests.get id = some r ∧ r.status = .approved}
        {q | ∃ d, s.hcm.deductions q = some d} := by
  let actions := sampleApproval 2 ++ [.tick, .claim 0 .ok, .handle 0 .lost, .handle 0 .ok,
    .advance 30000] ++ sampleDeduction 1
  have hexec : ∃ s ∈ exec (step sampleConfig) (sampleStart 10) actions,
      AllDone s ∧ (s.db.requests.get 0).any (·.status = .approved) := by decide +kernel
  have hregular : ∀ a ∈ actions, a.isRegular := by decide +kernel
  obtain ⟨s, hrun, hdone, happroved⟩ := exists_run_of_exec hregular hexec
  obtain ⟨r, hr, hstatus⟩ := (Option.any_eq_true _ _).1 happroved
  obtain ⟨f, hf, _⟩ := (exactly_once (opening_sample 10) hrun).2.2.2 fun k e => hdone.status
  exact ⟨_, s, hrun, ⟨r, hr, of_decide_eq_true hstatus⟩, f, hf⟩

/-! ## Reversals -/

/-- Only an event whose retries are exhausted is `FAILED`. -/
theorem Delivered.exhausted (hd : Delivered cfg s a s')
    (hexhausted : ∀ id e, s.db.outbox.get id = some e → e.status = .failed →
      cfg.hcmMaxRetries ≤ e.attempts) :
    ∀ id e, s'.db.outbox.get id = some e → e.status = .failed →
      cfg.hcmMaxRetries ≤ e.attempts := by
  -- An update that sets another status.
  have hother : ∀ {j : ℕ} {f : OutboxEvent → OutboxEvent}, (∀ e, (f e).status ≠ .failed) →
      s'.db.outbox = s.db.outbox.update j f → ∀ id e, s'.db.outbox.get id = some e →
        e.status = .failed → cfg.hcmMaxRetries ≤ e.attempts := by
    intro j f hf hout
    rw [hout]
    exact Table.forall_update (fun e _ hfailed => absurd hfailed (hf e)) hexhausted
  cases hd with
  | stay _ hout _ => rwa [hout]
  | post _ hposted hout _ =>
    rw [hout]
    refine Table.forall_insert (fun hfailed => ?_) hexhausted
    rw [hposted.status] at hfailed
    cases hfailed
  | claim _ _ _ _ _ _ hout _ => exact hother (fun _ hfailed => by cases hfailed) hout
  | proceed _ _ _ hout _ => rwa [hout]
  | finish _ _ hout _ => exact hother (fun _ hfailed => by cases hfailed) hout
  | record _ _ _ hout _ =>
    rw [hout]
    refine Table.forall_update (fun e _ hfailed => ?_) hexhausted
    rw [OutboxEvent.recordFailure] at hfailed ⊢
    split at hfailed
    · next hmax =>
      rw [if_pos hmax]
      exact of_decide_eq_true hmax
    · cases hfailed
  | abort _ _ _ _ hout _ => rwa [hout]
  | requeue _ _ hout _ => exact hother (fun _ hfailed => by cases hfailed) hout
  | crash _ _ hout _ => rwa [hout]

/-- **No deduction is forgotten.** As long as the HCM holds a deduction for a
    cancelled request, the reversal of the request is in the outbox and not
    done: it is due, being processed, or has exhausted its retries and waits
    for an admin. -/
theorem reversal_outstanding (hs₀ : Opening s₀) (hrun : Run (step cfg) Regular s₀ hist s) :
    ∀ id r q, s.db.requests.get id = some r → r.status = .cancelled → s.Live id q →
      ∃ k e, s.db.outbox.get k = some e ∧ e.eventType = .hcmReverse ∧ e.requestId = id ∧
        (e.status = .pending ∨ e.status = .processing ∨
          e.status = .failed ∧ cfg.hcmMaxRetries ≤ e.attempts) := by
  intro id r q hr hstatus hlive
  obtain ⟨k, m, d, hm, rfl, hd⟩ := live_iff.1 hlive
  obtain ⟨k', m', hm', hopen'⟩ :=
    (exchanging_of_run hs₀ hrun).corresponds.reversal_open hr hstatus hm hd
  obtain ⟨e, he, rfl, htype, hid⟩ := mem_messages_ends.1 hm'
  have hexhausted := hrun.invariant (I := fun s => ∀ id e, s.db.outbox.get id = some e →
    e.status = .failed → cfg.hcmMaxRetries ≤ e.attempts)
    (fun id e he => by rw [hs₀.outbox] at he; cases he)
    fun _ _ _ hexhausted _ hnext => (step_stepped hnext).delivered.exhausted hexhausted
  refine ⟨k', e, he, htype, hid, ?_⟩
  cases hstatus' : e.status with
  | pending => exact .inl rfl
  | processing => exact .inr (.inl rfl)
  | failed => exact .inr (.inr ⟨rfl, hexhausted k' e he hstatus'⟩)
  | done =>
    rw [OutboxEvent.message, hstatus'] at hopen'
    cases hopen'

/-- An approved request is cancelled, and its deduction made all the same. -/
def sampleCancelled : List Action :=
  sampleApproval 2 ++ [.preRead .cancel 0 sampleEmployee, .transact 1, .tick, .claim 0 .ok,
    .handle 0 .ok, .handle 0 .ok]

/-- The tick `i` asks the HCM for a reversal in vain. -/
def sampleReversalFailure (i : ℕ) : List Action :=
  [.claim i .ok, .handle i .ok, .handle i .throws, .handle i .ok]

/-- The request `0` is cancelled, the deduction for the event `0` is live, and
    the events of the request are in the statuses `p`. -/
def deductedInVain (p : OutboxEventStatus → Bool) (s : State) : Prop :=
  (s.db.requests.get 0).any (·.status = .cancelled) ∧
  (s.db.outbox.get 0).any (fun e => e.eventType = .hcmDeduct && e.requestId = 0) ∧
  (s.hcm.deductions (idempotencyKey 0)).isSome ∧
  ∀ k < s.db.outbox.nextId, (s.db.outbox.get k).all fun e => p e.status

instance (p : OutboxEventStatus → Bool) (s : State) : Decidable (deductedInVain p s) :=
  inferInstanceAs (Decidable (_ ∧ _))

/-- What the test finds: the request `0` is cancelled, and its deduction is live,
    while the events have statuses as `p` says. -/
theorem live_of_deductedInVain {p : OutboxEventStatus → Bool} (hs : deductedInVain p s) :
    (∃ r, s.db.requests.get 0 = some r ∧ r.status = .cancelled) ∧
      s.Live 0 (idempotencyKey 0) ∧ ∀ k e, s.db.outbox.get k = some e → p e.status := by
  obtain ⟨hcancelled, hevent, hsome, hall⟩ := hs
  obtain ⟨r, hr, hstatus⟩ := (Option.any_eq_true _ _).1 hcancelled
  obtain ⟨e, he, hhead⟩ := (Option.any_eq_true _ _).1 hevent
  obtain ⟨htype, hid⟩ := Bool.and_eq_true_iff.1 hhead
  obtain ⟨d, hd⟩ := Option.isSome_iff_exists.1 hsome
  refine ⟨⟨r, hr, of_decide_eq_true hstatus⟩,
    ⟨0, e, d, he, of_decide_eq_true htype, of_decide_eq_true hid, rfl, hd⟩, fun k e he => ?_⟩
  have hk := hall k (Table.lt_nextId he)
  rwa [he] at hk

/-- The deduction of a cancelled request is made, and its reversal is due. -/
theorem reversal_outstanding_sample : ∃ hist s,
    Run (step sampleConfig) Regular (sampleStart 10) hist s ∧
    (∃ r, s.db.requests.get 0 = some r ∧ r.status = .cancelled) ∧
    s.Live 0 (idempotencyKey 0) ∧
    ∃ k e, s.db.outbox.get k = some e ∧ e.eventType = .hcmReverse ∧ e.requestId = 0 ∧
      (e.status = .pending ∨ e.status = .processing ∨ e.status = .failed ∧ 4 ≤ e.attempts) := by
  have hexec : ∃ s ∈ exec (step sampleConfig) (sampleStart 10) sampleCancelled,
      deductedInVain (fun _ => true) s := by decide +kernel
  have hregular : ∀ a ∈ sampleCancelled, a.isRegular := by decide +kernel
  obtain ⟨s, hrun, hs⟩ := exists_run_of_exec hregular hexec
  obtain ⟨⟨r, hr, hstatus⟩, hlive, _⟩ := live_of_deductedInVain hs
  exact ⟨_, s, hrun, ⟨r, hr, hstatus⟩, hlive,
    reversal_outstanding (opening_sample 10) hrun 0 r _ hr hstatus hlive⟩

/-- When the retries of a reversal are exhausted, no event of the cancelled
    request is `PENDING` or `PROCESSING`, while its deduction is live. -/
theorem reversal_exhausted : ∃ hist s, Run (step sampleConfig)
      (fun _ a => a.isRegular ∧ a ≠ .crash) (sampleStart 10) hist s ∧
    (∃ r, s.db.requests.get 0 = some r ∧ r.status = .cancelled) ∧
    s.Live 0 (idempotencyKey 0) ∧
    ∀ k e, s.db.outbox.get k = some e → e.requestId = 0 →
      e.status ≠ .pending ∧ e.status ≠ .processing := by
  let actions := sampleCancelled ++ sampleReversalFailure 0 ++
    [1, 2, 3].flatMap fun i => .advance 1800000 :: .tick :: sampleReversalFailure i
  have hexec : ∃ s ∈ exec (step sampleConfig) (sampleStart 10) actions,
      deductedInVain (fun status => status ≠ .pending ∧ status ≠ .processing) s := by
    decide +kernel
  have hregular : ∀ a ∈ actions, (fun a => a.isRegular ∧ a ≠ Action.crash) a := by
    simp [actions, sampleCancelled, sampleReversalFailure, sampleApproval, sampleSubmit,
      Action.isRegular]
  obtain ⟨s, hrun, hs⟩ := exists_run_of_exec hregular hexec
  obtain ⟨hr, hlive, hstatus⟩ := live_of_deductedInVain hs
  exact ⟨_, s, hrun, hr, hlive, fun k e he _ => of_decide_eq_true (hstatus k e he)⟩

end TimeOff
