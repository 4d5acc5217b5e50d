import TimeOff.HcmIds
import TimeOff.HcmServer
import TimeOff.Lib.Refinement

/-!
# The wire

A call of the HCM in `TimeOff.System` is one step, with an outcome. On the wire
it is several: the handler sends a request, which arrives at the HCM or is lost;
the HCM serves it, or simulates an error; its response arrives or is lost; and
the handler reads the status of the response, or gives up waiting (`Wire`).
Other handlers, calls and syncs go on between any two of these.

For every HCM that meets the contract, the one is a refinement of the other: a
run of the wire is a run of the system, where the call is made at the moment in
which the HCM serves it. And every run of the system is one of the wire, so
nothing is proved about outcomes that cannot be (`same_runs`).

A request that is served is served before its handler gives up, and before the
process dies, which closes its connections.
-/

namespace TimeOff

open Transition HcmState

/-- What is on the wire for the handler of a tick. -/
inductive Flight
  | idle
  /-- The request has not arrived. -/
  | request (req : HttpRequest)
  /-- It has been served, or is lost: its response, if there is one. -/
  | answer (response : Option HttpResponse)

/-- The service, the HCM, and what is on the wire between them. -/
structure Wire extends State where
  flights : ℕ → Flight

/-! ## Calls -/

namespace Handler

/-- The request that a handler sends. -/
def request (h : Handler) : Option HttpRequest :=
  match h.phase with
  | .deductBalance => h.event.payload.map fun p =>
      .postRequests p.toBalanceKey p.days (some (idempotencyKey h.id))
  | .reverseDeduction hcmRequestId => some (.delete (requestUrl hcmRequestId))
  | _ => none

/-- How a handler goes on with the response. A success of a deduction without
    an id, for which there is nothing here, does not come up. -/
def receive (h : Handler) (response : Option HttpResponse) : Option Phase :=
  match h.phase with
  | .deductBalance =>
    match HcmClientService.deductBalance response with
    | .ok hcmRequestId => hcmRequestId.map .completeDeduction
    | .error _ => some .handleEventFailure
  | .reverseDeduction _ =>
    match HcmClientService.reverseDeduction response with
    | .ok () => some .markDone
    | .error _ => some .handleEventFailure
  | _ => none

/-- What a request that is served comes to: errors are simulated for deductions
    only. -/
def outcome (h : Handler) (simulated answered : Bool) : Outcome :=
  if simulated && h.phase = .deductBalance then .throws else if answered then .ok else .lost

end Handler

namespace Wire

/-- What may happen next. -/
inductive Action
  /-- An action of the system that calls no HCM. -/
  | act (a : TimeOff.Action)
  /-- The handler of the tick `i` sends its request. -/
  | send (i : ℕ)
  /-- The request of the tick `i` is lost. -/
  | drop (i : ℕ)
  /-- The request of the tick `i` arrives. Its response is lost, or will be
      received. -/
  | serve (i : ℕ) (simulated answered : Bool)
  /-- The handler of the tick `i` has a response, or gives up. -/
  | receive (i : ℕ)

/-- The action is a step of a handler that calls the HCM. -/
def calling (w : Wire) : TimeOff.Action → Bool
  | .handle i _ => (w.handler i).any (·.request.isSome)
  | _ => false

/-- Something else is on the wire for the tick `i`. -/
def fly (w : Wire) (i : ℕ) (flight : Flight) : Wire :=
  { w with flights := Function.update w.flights i flight }

/-- The connections after an action of the service. -/
def connections (w : Wire) : TimeOff.Action → ℕ → Flight
  | .crash => fun _ => .idle
  | _ => w.flights

/-- One step of the wire. -/
def step (cfg : Config) (server : HcmServer) (w : Wire) : Action → Option Wire
  | .act a =>
    if w.calling a then none
    else (TimeOff.step cfg w.toState a).map fun s => ⟨s, w.connections a⟩
  | .send i =>
    match w.flights i, (w.handler i).bind (·.request) with
    | .idle, some req => some (w.fly i (.request req))
    | _, _ => none
  | .drop i =>
    match w.flights i with
    | .request _ => some (w.fly i (.answer none))
    | _ => none
  | .serve i simulated answered =>
    match w.flights i with
    | .request req =>
      let (hcm, res) := server w.now simulated w.hcm req
      some ({ w with hcm := hcm }.fly i (.answer (if answered then some res else none)))
    | _ => none
  | .receive i =>
    match w.flights i, w.handler i with
    | .answer response, some h => (h.receive response).map fun phase =>
        { w with ticks := w.ticks.update i (·.goOn (.running phase)) }.fly i .idle
    | _, _ => none

/-! ## What is seen of the wire -/

/-- A handler goes on as soon as its request has been served. -/
def settle (flight : Flight) (h : Handler) : Handler :=
  match flight with
  | .answer response => { h with phase := (h.receive response).getD h.phase }
  | _ => h

/-- The tick, with its handler settled. -/
def settleTick (flight : Flight) (t : Tick) : Tick :=
  { t with handler := t.handler.map (settle flight) }

/-- The state of the system. -/
def view (w : Wire) : State :=
  { w.toState with ticks := w.ticks.mapRows fun i => settleTick (w.flights i) }

/-- The action of the system that a step is. -/
def label (w : Wire) : Action → Option TimeOff.Action
  | .act a => some a
  | .drop i => some (.handle i .throws)
  | .serve i simulated answered =>
    (w.handler i).map fun h => .handle i (h.outcome simulated answered)
  | .send _ | .receive _ => none

end Wire

variable {cfg : Config} {server : HcmServer} {w w' w₀ : Wire} {s s' s₀ : State} {h h' : Handler}
  {now : Instant} {db : Database} {hcm : HcmState} {req : HttpRequest} {simulated answered : Bool}
  {response : Option HttpResponse} {phase : Phase} {n i j : ℕ}

/-! ## One call -/

/-- A handler that gives up on a response has failed. -/
theorem Handler.receive_none (hreq : h.request.isSome) :
    h.receive none = some .handleEventFailure := by
  rw [request] at hreq
  rw [receive]
  cases hphase : h.phase with
  | deductBalance | reverseDeduction _ => rfl
  | completeDeduction _ | readHcmRequestId | markDone | handleEventFailure =>
    rw [hphase] at hreq
    cases hreq

/-- A call that throws has no effect. -/
theorem Handler.step_throws (hreq : h.request.isSome) :
    h.step cfg now db hcm .throws = (db, hcm, .running .handleEventFailure) := by
  rw [request] at hreq
  rw [step]
  cases hphase : h.phase with
  | deductBalance | reverseDeduction _ => rfl
  | completeDeduction _ | readHcmRequestId | markDone | handleEventFailure =>
    rw [hphase] at hreq
    cases hreq

/-- The call of a handler whose request is served: the handler goes on with the
    response as with the outcome of the call. -/
def Handler.Served (h : Handler) (server : HcmServer) (cfg : Config) (now : Instant)
    (db : Database) (hcm : HcmState) (req : HttpRequest) (simulated : Bool) : Prop :=
  ∃ hcm' res, server now simulated hcm req = (hcm', res) ∧ ∀ answered, ∃ phase,
    h.receive (if answered then some res else none) = some phase ∧
    h.step cfg now db hcm (h.outcome simulated answered) = (db, hcm', .running phase)

/-- It is enough to look at a response that arrives, and at the effect of a call
    whose response is lost. -/
theorem Handler.Served.intro {hcm' : HcmState} {res : HttpResponse}
    (hreq : h.request.isSome) (hserve : server now simulated hcm req = (hcm', res))
    (hanswer : ∃ phase, h.receive (some res) = some phase ∧
      h.step cfg now db hcm (h.outcome simulated true) = (db, hcm', .running phase))
    (hlost : h.step cfg now db hcm (h.outcome simulated false) =
      (db, hcm', .running .handleEventFailure)) :
    h.Served server cfg now db hcm req simulated := by
  refine ⟨hcm', res, hserve, fun answered => ?_⟩
  cases answered with
  | true => exact hanswer
  | false => exact ⟨_, h.receive_none hreq, hlost⟩

/-- The HCM serves a deduction as the call in one step does. -/
theorem Handler.served_deduct (hserver : server.Meets) (hsound : hcm.Sound)
    (hphase : h.phase = .deductBalance) (hreq : h.request = some req) :
    h.Served server cfg now db hcm req simulated := by
  have hsome : h.request.isSome := by rw [hreq]; rfl
  rw [request, hphase] at hreq
  obtain ⟨p, hpayload, rfl⟩ := Option.map_eq_some_iff.1 hreq
  -- Three answers are possible: a simulated error, a refusal, and the id of the deduction.
  -- In each case, the handler that gets it goes on as after the call, and one that does not
  -- as after a call whose answer is lost.
  have hrefused : ∀ res : HttpResponse, res.Refuses →
      h.receive (some res) = some .handleEventFailure := by
    intro res hres
    obtain ⟨e, he⟩ := HcmClientService.deductBalance_refused hres
    rw [receive, hphase]
    simp only [he]
  have hne := idempotencyKey_ne_empty h.id
  cases simulated with
  | true =>
    have houtcome : ∀ answered, h.outcome true answered = .throws := fun answered => by
      rw [outcome, hphase]
      rfl
    obtain ⟨res, hserve, hres⟩ := hserver.simulates
    refine .intro hsome hserve ⟨_, hrefused res hres, ?_⟩ ?_ <;>
      rw [houtcome, step_throws hsome]
  | false =>
    have hstep : ∀ o, o ≠ .throws → h.step cfg now db hcm o = (db, h.callDeduct now hcm o) := by
      intro o ho
      rw [step, hphase]
      exact if_neg ho
    have hok : h.step cfg now db hcm (h.outcome false true) = (db, h.callDeduct now hcm .ok) :=
      hstep .ok (by decide)
    have hlost : h.step cfg now db hcm (h.outcome false false) =
        (db, h.callDeduct now hcm .lost) := hstep .lost (by decide)
    rw [callDeduct, hpayload] at hok hlost
    cases hd : hcm.deductBalance p.toBalanceKey p.days (some (idempotencyKey h.id)) now with
    | error e =>
      simp only [hd] at hok hlost
      obtain ⟨res, hserve, hres⟩ := hserver.refuses hsound hne hd
      exact .intro hsome hserve ⟨_, hrefused res hres, hok⟩ hlost
    | ok q =>
      obtain ⟨hcmRequestId, hcm'⟩ := q
      simp only [hd] at hok hlost
      obtain ⟨res, hserve, hres⟩ := hserver.deducts hsound hne hd
      have hid := (hsound.deductBalance hne hd).2.2.plain.2
      refine .intro hsome hserve ⟨_, ?_, hok⟩ hlost
      rw [receive, hphase]
      simp only [HcmClientService.deductBalance_granted hres hid]
      rfl

/-- It serves a reversal so, too. -/
theorem Handler.served_reverse (hserver : server.Meets) (hsound : hcm.Sound) {x : String}
    (hphase : h.phase = .reverseDeduction x) (hx : Issued n x) (hreq : h.request = some req) :
    h.Served server cfg now db hcm req simulated := by
  have hsome : h.request.isSome := by rw [hreq]; rfl
  rw [request, hphase] at hreq
  obtain rfl := Option.some.inj hreq
  -- A reversal never has an error simulated; and where there is nothing to reverse, the 404
  -- is taken for a success.
  have houtcome : ∀ answered, h.outcome simulated answered = if answered then .ok else .lost := by
    intro answered
    rw [outcome, hphase]
    exact if_neg (by simp)
  have hstep : ∀ o, o ≠ .throws → h.step cfg now db hcm o = (db, callReverse hcm x o) := by
    intro o ho
    rw [step, hphase]
    exact if_neg ho
  have hok : h.step cfg now db hcm (h.outcome simulated true) = (db, callReverse hcm x .ok) := by
    rw [houtcome, hstep _ (by decide)]
    rfl
  have hlost : h.step cfg now db hcm (h.outcome simulated false) =
      (db, callReverse hcm x .lost) := by
    rw [houtcome, hstep _ (by decide)]
    rfl
  have hreceive : ∀ res : HttpResponse, res.isSuccess ∨ res.status = 404 →
      h.receive (some res) = some .markDone := by
    intro res hres
    rw [receive, hphase]
    simp only [HcmClientService.reverseDeduction_success hres]
  rw [callReverse] at hok hlost
  cases hr : hcm.reverseDeduction x with
  | ok hcm' =>
    simp only [hr] at hok hlost
    obtain ⟨res, hserve, hres⟩ := hserver.reverses hsound hx hr
    exact .intro hsome hserve ⟨_, hreceive res (.inl hres), hok⟩ hlost
  | error e =>
    have hnone := hsound.reverseDeduction_error hr
    simp only [reverseDeduction_of_none hnone] at hok hlost
    obtain ⟨res, hserve, hres⟩ := hserver.misses hsound hx hnone
    exact .intro hsome hserve ⟨_, hreceive res (.inr hres), hok⟩ hlost

/-- Every call of a handler that has an id of the HCM, if it needs one. -/
theorem Handler.served (hserver : server.Meets) (hsound : hcm.Sound)
    (hid : ∀ x, h.phase.hcmRequestId = some x → Issued n x) (hreq : h.request = some req) :
    h.Served server cfg now db hcm req simulated := by
  cases hphase : h.phase with
  | deductBalance => exact served_deduct hserver hsound hphase hreq
  | reverseDeduction x =>
    exact served_reverse hserver hsound hphase (hid x (by rw [hphase]; rfl)) hreq
  | completeDeduction _ | readHcmRequestId | markDone | handleEventFailure =>
    rw [request, hphase] at hreq
    cases hreq

/-! ## Views -/

/-- The action looks at the ticks. -/
def Action.isTicking : Action → Bool
  | .tick | .claim .. | .handle .. | .crash => true
  | _ => false

/-- An action that does not look at the ticks does the same with any other ones. -/
theorem step_setTicks {a : Action} (ha : ¬a.isTicking) (hnext : step cfg s a = some s') :
    s'.ticks = s.ticks ∧
      ∀ ticks, step cfg { s with ticks := ticks } a = some { s' with ticks := ticks } := by
  -- Only ticks read or write the ticks.
  cases a with
  | preRead kind id caller =>
    rw [step] at hnext
    cases hrun : (preRead kind id caller).run (.start s.db) <;>
      simp only [hrun] at hnext <;>
      obtain rfl := Option.some.inj hnext <;>
      exact ⟨rfl, fun ticks => by simp only [step, hrun]⟩
  | transact n =>
    obtain ⟨c, hc, rfl⟩ := Option.map_eq_some_iff.1 hnext
    exact ⟨rfl, fun ticks => by rw [step, hc]; rfl⟩
  | checkRetry id =>
    obtain rfl := Option.some.inj hnext
    rw [apply_ite State.ticks]
    refine ⟨ite_self _, fun ticks => ?_⟩
    rw [step]
    split <;> rfl
  | writeRetry n =>
    obtain ⟨id, hid, rfl⟩ := Option.map_eq_some_iff.1 hnext
    exact ⟨rfl, fun ticks => by rw [step, hid]; rfl⟩
  | retry id =>
    obtain rfl := Option.some.inj hnext
    rw [apply_ite State.ticks]
    refine ⟨ite_self _, fun ticks => ?_⟩
    rw [step]
    split <;> rfl
  | tick | claim _ _ | handle _ _ | crash => exact absurd rfl ha
  | _ =>
    obtain rfl := Option.some.inj hnext
    exact ⟨rfl, fun ticks => rfl⟩

namespace Wire

theorem settleTick_idle (t : Tick) : settleTick .idle t = t := by
  cases t with
  | mk queue handler => cases handler <;> rfl

theorem settleTick_request (t : Tick) : settleTick (.request req) t = t := settleTick_idle t

theorem settleTick_answer {t : Tick} (hh : t.handler = some h)
    (hphase : h.receive response = some phase) :
    settleTick (.answer response) t = t.goOn (.running phase) := by
  rw [settleTick, Tick.goOn, hh, Option.map_some, Option.map_some, settle, hphase,
    Option.getD_some]

theorem settleTick_of_none {flight : Flight} {t : Tick} (hh : t.handler = none) :
    settleTick flight t = t := by
  rw [settleTick, hh, Option.map_none, ← hh]

/-- What is on the wire belongs to a handler that waits for it. -/
def Waits (flight : Flight) (handler : Option Handler) : Prop :=
  match flight with
  | .idle => True
  | .request req => ∃ h, handler = some h ∧ h.request = some req
  | .answer response =>
    ∃ h phase, handler = some h ∧ h.request.isSome ∧ h.receive response = some phase

/-- Nothing is on the wire without a handler that waits for it. -/
def Ok (w : Wire) : Prop := ∀ i, Waits (w.flights i) (w.handler i)

/-- What is on the wire belongs to a handler that calls the HCM. -/
theorem Ok.waits (hw : w.Ok) (hi : w.flights i ≠ .idle) :
    ∃ h, w.handler i = some h ∧ h.request.isSome := by
  have hwaits := hw i
  cases hflight : w.flights i with
  | idle => exact absurd hflight hi
  | request req =>
    rw [hflight] at hwaits
    obtain ⟨h, hh, hreq⟩ := hwaits
    exact ⟨h, hh, by rw [hreq]; rfl⟩
  | answer response =>
    rw [hflight] at hwaits
    obtain ⟨h, _, hh, hreq, _⟩ := hwaits
    exact ⟨h, hh, hreq⟩

/-- Nothing is on the wire for a tick without a handler that calls the HCM. -/
theorem Ok.idle (hw : w.Ok) (hnone : ∀ h, w.handler i = some h → h.request = none) :
    w.flights i = .idle := by
  by_contra hi
  obtain ⟨h, hh, hreq⟩ := hw.waits hi
  rw [hnone h hh] at hreq
  cases hreq

theorem view_of_idle (hidle : ∀ i, w.flights i = .idle) : w.view = w.toState := by
  have hticks : (w.ticks.mapRows fun i => settleTick (w.flights i)) = w.ticks :=
    Table.mapRows_eq_self fun i t _ => by rw [hidle, settleTick_idle]
  rw [view, hticks]

/-- A tick that is seen as it is. -/
theorem ticks_view {t : Tick} (ht : w.ticks.get i = some t)
    (hsettle : settleTick (w.flights i) t = t) : w.view.ticks.get i = some t := by
  change (w.ticks.get i).map (settleTick (w.flights i)) = some t
  rw [ht, Option.map_some, hsettle]

/-! ## Steps -/

/-- What is seen after a step of a tick for which nothing is on the wire. -/
theorem view_setTick (hi : w.flights i = .idle) (db : Database) (hcm : HcmState)
    (f : Tick → Tick) :
    view ⟨{ w.toState with db := db, hcm := hcm, ticks := w.ticks.update i f }, w.flights⟩ =
      { w.view with db := db, hcm := hcm, ticks := w.view.ticks.update i f } := by
  refine congrArg (fun ticks => ({ w.toState with db := db, hcm := hcm, ticks := ticks } : State))
    (Table.mapRows_update (fun _ _ => rfl) fun t _ => ?_)
  rw [hi, settleTick_idle, settleTick_idle]

/-- A claim is not affected by what is on the wire. -/
theorem claim_refines {o : Outcome} (hw : w.Ok)
    (hnext : TimeOff.step cfg w.toState (.claim i o) = some s) :
    TimeOff.step cfg w.view (.claim i o) = some (view ⟨s, w.flights⟩) := by
  rw [TimeOff.step] at hnext
  split at hnext
  case h_2 => cases hnext
  case h_1 id event queue ht =>
  have hidle : w.flights i = .idle := hw.idle fun h hh => by
    rw [State.handler, ht] at hh
    cases hh
  have hview := ticks_view ht (by rw [hidle, settleTick_idle])
  have hclaimed : claimEvent w.view.db id = claimEvent w.db id := rfl
  rw [TimeOff.step]
  simp only [hview, hclaimed]
  split at hnext
  · next ho =>
    obtain rfl := Option.some.inj hnext
    rw [if_pos ho]
    exact congrArg some (view_setTick hidle _ _ _).symm
  · next ho =>
    rw [if_neg ho]
    split at hnext <;> obtain rfl := Option.some.inj hnext <;>
      exact congrArg some (view_setTick hidle _ _ _).symm

/-- Nor is a step of a handler that is no call. -/
theorem handle_refines {o : Outcome} (hw : w.Ok) (hcalling : ¬w.calling (.handle i o))
    (hnext : TimeOff.step cfg w.toState (.handle i o) = some s) :
    TimeOff.step cfg w.view (.handle i o) = some (view ⟨s, w.flights⟩) := by
  rw [TimeOff.step] at hnext
  split at hnext
  case h_2 => cases hnext
  case h_1 queue h ht =>
  obtain rfl := Option.some.inj hnext
  have hh : w.handler i = some h := handler_eq_some.2 ⟨_, ht, rfl⟩
  have hidle : w.flights i = .idle := hw.idle fun h' hh' => by
    obtain rfl := Option.some.inj (hh.symm.trans hh')
    rw [calling, hh, Option.any_some, Bool.not_eq_true, Option.isSome_eq_false_iff] at hcalling
    exact Option.isNone_iff_eq_none.1 hcalling
  have hview := ticks_view ht (by rw [hidle, settleTick_idle])
  rw [TimeOff.step]
  simp only [hview]
  exact congrArg some (view_setTick hidle _ _ _).symm

/-- An action that calls no HCM is the same action of the system. -/
theorem act_refines {a : TimeOff.Action} (hw : w.Ok) (hcalling : ¬w.calling a)
    (hnext : TimeOff.step cfg w.toState a = some s) :
    TimeOff.step cfg w.view a = some (view ⟨s, w.connections a⟩) := by
  cases a with
  | tick =>
    obtain rfl := Option.some.inj hnext
    have hinsert := Table.mapRows_insert (t := w.ticks) (a := ⟨fetchDue w.db w.now, none⟩)
      (g := fun i => settleTick (w.flights i))
    rw [settleTick_of_none rfl] at hinsert
    exact congrArg some
      (congrArg (fun ticks => ({ w.toState with ticks := ticks } : State)) hinsert.symm)
  | claim i o => exact claim_refines hw hnext
  | handle i o => exact handle_refines hw hcalling hnext
  | crash =>
    obtain rfl := Option.some.inj hnext
    exact congrArg some (view_of_idle (w := ⟨_, fun _ => .idle⟩) fun _ => rfl).symm
  | _ =>
    obtain ⟨hticks, hset⟩ := step_setTicks (fun h => by cases h) hnext
    have hview := hset w.view.ticks
    refine hview.trans (congrArg some ?_)
    exact congrArg (fun ticks => ({ s with ticks := ticks } : State))
      (congrArg (Table.mapRows · fun i => settleTick (w.flights i)) hticks.symm)

/-- A handler that waits for what is on the wire is left alone. -/
theorem handler_kept {a : TimeOff.Action} (hcalling : ¬w.calling a) (ha : a ≠ .crash)
    (hnext : TimeOff.step cfg w.toState a = some s) (hh : w.handler i = some h)
    (hreq : h.request.isSome) : s.handler i = some h := by
  obtain ⟨t, ht, hth⟩ := handler_eq_some.1 hh
  have hother : ∀ {j t'}, w.ticks.get j = some t' → t'.handler = none → i ≠ j := by
    rintro j t' ht' hnone rfl
    obtain rfl := Option.some.inj (ht.symm.trans ht')
    rw [hnone] at hth
    cases hth
  cases step_stepped hnext with
  | tick => rwa [handler_insert (s := w.toState) rfl rfl]
  | abandon ht' hnone _ => rwa [handler_update ht' rfl, Function.update_of_ne (hother ht' hnone)]
  | skip ht' _ => rwa [handler_update ht' rfl, Function.update_of_ne (hother ht' rfl)]
  | claim ht' _ _ => rwa [handler_update ht' rfl, Function.update_of_ne (hother ht' rfl)]
  | @handle j o t' h' _ _ _ ht' hh' _ =>
    rw [handler_update ht' rfl, Function.update_of_ne, hh]
    rintro rfl
    obtain rfl := Option.some.inj (hh.symm.trans (handler_eq_some.2 ⟨_, ht', hh'⟩))
    rw [calling, hh, Option.any_some] at hcalling
    exact hcalling hreq
  | crash => exact absurd rfl ha
  | _ => exact hh

/-- What a step of the wire is for the system. -/
structure Refined (cfg : Config) (w : Wire) (a : Action) (w' : Wire) : Prop where
  ok : w'.Ok
  seen : (∃ b, w.label a = some b ∧ TimeOff.step cfg w.view b = some w'.view) ∨
    (w.label a = none ∧ w'.view = w.view)

/-- Only what is on the wire for one tick changes. -/
theorem Ok.change (hw : w.Ok) (hhandler : ∀ j, j ≠ i → w'.handler j = w.handler j)
    (hflights : ∀ j, j ≠ i → w'.flights j = w.flights j)
    (hi : Waits (w'.flights i) (w'.handler i)) : w'.Ok := by
  intro j
  by_cases hj : j = i
  · rwa [hj]
  · rw [hflights j hj, hhandler j hj]
    exact hw j

/-- A step of the service is the same step in the view. -/
theorem act_refined {a : TimeOff.Action} (hw : w.Ok)
    (hnext : step cfg server w (.act a) = some w') : Refined cfg w (.act a) w' := by
  rw [step] at hnext
  split at hnext
  case isTrue => cases hnext
  case isFalse hcalling =>
  obtain ⟨s, hs, rfl⟩ := Option.map_eq_some_iff.1 hnext
  refine ⟨fun i => ?_, .inl ⟨a, rfl, act_refines hw hcalling hs⟩⟩
  by_cases ha : a = .crash
  · subst ha
    trivial
  · -- The step closes no connection, and the handlers that are waiting are still there.
    have hflights : w.connections a = w.flights := by
      cases a with
      | crash => exact absurd rfl ha
      | _ => rfl
    have hwaits := hw i
    change Waits (w.connections a i) (s.handler i)
    rw [hflights]
    cases hflight : w.flights i with
    | idle => trivial
    | request req =>
      rw [hflight] at hwaits
      obtain ⟨h, hh, hreq⟩ := hwaits
      exact ⟨h, handler_kept hcalling ha hs hh (by rw [hreq]; rfl), hreq⟩
    | answer response =>
      rw [hflight] at hwaits
      obtain ⟨h, phase, hh, hreq, hphase⟩ := hwaits
      exact ⟨h, phase, handler_kept hcalling ha hs hh hreq, hreq, hphase⟩

/-- That a request is sent is not seen. -/
theorem send_refined (hw : w.Ok) (hnext : step cfg server w (.send i) = some w') :
    Refined cfg w (.send i) w' := by
  rw [step] at hnext
  split at hnext
  case h_2 => cases hnext
  case h_1 req hflight hreq =>
  obtain rfl := Option.some.inj hnext
  obtain ⟨h, hh, hreq⟩ := Option.bind_eq_some_iff.1 hreq
  have hflights : ∀ j, j ≠ i → (w.fly i (.request req)).flights j = w.flights j :=
    fun j hj => Function.update_of_ne hj _ _
  have hsent : (w.fly i (.request req)).flights i = .request req := Function.update_self _ _ _
  refine ⟨hw.change (fun _ _ => rfl) hflights (by rw [hsent]; exact ⟨h, hh, hreq⟩), .inr ⟨rfl, ?_⟩⟩
  refine congrArg (fun ticks => ({ w.toState with ticks := ticks } : State)) ?_
  refine (Table.mapRows_change (i := i) (u := id) (fun j hj => ?_) fun t _ => ?_).trans
    Table.update_id
  · exact congrArg settleTick (hflights j hj)
  · rw [hsent, hflight, settleTick_request, settleTick_idle]
    rfl

/-- The call of a handler is made when its request is lost, or served. -/
theorem call_refined {response : Option HttpResponse} {hcm' : HcmState} {o : Outcome} (hw : w.Ok)
    (hflight : w.flights i = .request req) (hh : w.handler i = some h) (hreq : h.request.isSome)
    (hphase : h.receive response = some phase)
    (hcall : h.step cfg w.now w.db w.hcm o = (w.db, hcm', .running phase)) :
    Ok ({ w with hcm := hcm' }.fly i (.answer response)) ∧
      TimeOff.step cfg w.view (.handle i o) =
        some ({ w with hcm := hcm' }.fly i (.answer response)).view := by
  obtain ⟨⟨queue, _⟩, ht, rfl⟩ := handler_eq_some.1 hh
  -- In the view, the handler makes its call in this step. It has been waiting up to now,
  -- hence was seen as it is.
  have hview := ticks_view ht (by rw [hflight, settleTick_request])
  have hflights : ∀ j, j ≠ i →
      ({ w with hcm := hcm' }.fly i (.answer response)).flights j = w.flights j :=
    fun j hj => Function.update_of_ne hj _ _
  have hanswer : ({ w with hcm := hcm' }.fly i (.answer response)).flights i = .answer response :=
    Function.update_self _ _ _
  refine ⟨hw.change (fun _ _ => rfl) hflights (by rw [hanswer]; exact ⟨h, phase, hh, hreq, hphase⟩),
    ?_⟩
  have hgo : h.step cfg w.view.now w.view.db w.view.hcm o = (w.db, hcm', .running phase) := hcall
  rw [TimeOff.step]
  simp only [hview, hgo]
  refine congrArg some (congrArg (fun ticks =>
    ({ w.toState with hcm := hcm', ticks := ticks } : State)) ?_)
  refine (Table.mapRows_change (fun j hj => ?_) fun t ht' => ?_).symm
  · exact congrArg settleTick (hflights j hj)
  · obtain rfl := Option.some.inj (ht.symm.trans ht')
    rw [hanswer, hflight, settleTick_request, settleTick_answer rfl hphase]

/-- A request that is lost is a call that has not arrived. -/
theorem drop_refined (hw : w.Ok) (hnext : step cfg server w (.drop i) = some w') :
    Refined cfg w (.drop i) w' := by
  rw [step] at hnext
  split at hnext
  case h_2 => cases hnext
  case h_1 req hflight =>
  obtain rfl := Option.some.inj hnext
  have hwaits := hw i
  rw [hflight] at hwaits
  obtain ⟨h, hh, hreq⟩ := hwaits
  have hsome : h.request.isSome := by rw [hreq]; rfl
  obtain ⟨hok, hcall⟩ := call_refined hw hflight hh hsome (h.receive_none hsome)
    (h.step_throws hsome)
  exact ⟨hok, .inl ⟨_, rfl, hcall⟩⟩

/-- A request that is served is the call. -/
theorem serve_refined (hserver : server.Meets) (hw : w.Ok) (hgenuine : Genuine w.view)
    (hnext : step cfg server w (.serve i simulated answered) = some w') :
    Refined cfg w (.serve i simulated answered) w' := by
  rw [step] at hnext
  split at hnext
  case h_2 => cases hnext
  case h_1 req hflight =>
  have hwaits := hw i
  rw [hflight] at hwaits
  obtain ⟨h, hh, hreq⟩ := hwaits
  obtain ⟨t, ht, hth⟩ := handler_eq_some.1 hh
  have hview : w.view.handler i = some h :=
    handler_eq_some.2 ⟨t, ticks_view ht (by rw [hflight, settleTick_request]), hth⟩
  have hserved : h.Served server cfg w.now w.db w.hcm req simulated :=
    h.served hserver hgenuine.hcm (fun x => hgenuine.phase i h x hview) hreq
  obtain ⟨hcm', res, hserve, hanswer⟩ := hserved
  obtain ⟨phase, hphase, hcall⟩ := hanswer answered
  simp only [hserve] at hnext
  obtain rfl := Option.some.inj hnext
  obtain ⟨hok, hstep⟩ := call_refined hw hflight hh (by rw [hreq]; rfl) hphase hcall
  exact ⟨hok, .inl ⟨_, by rw [label, hh]; rfl, hstep⟩⟩

/-- That a response is received is not seen: the handler has gone on in the view
    before. -/
theorem receive_refined (hw : w.Ok) (hnext : step cfg server w (.receive i) = some w') :
    Refined cfg w (.receive i) w' := by
  rw [step] at hnext
  split at hnext
  case h_2 => cases hnext
  case h_1 response h hflight hh =>
  obtain ⟨phase, hphase, rfl⟩ := Option.map_eq_some_iff.1 hnext
  obtain ⟨t, ht, hth⟩ := handler_eq_some.1 hh
  set v := { w with ticks := w.ticks.update i (·.goOn (.running phase)) }.fly i .idle with hv
  have hflights : ∀ j, j ≠ i → v.flights j = w.flights j := fun j hj => Function.update_of_ne hj _ _
  have hidle : v.flights i = .idle := Function.update_self _ _ _
  have hhandler : ∀ j, j ≠ i → v.handler j = w.handler j := fun j hj => by
    rw [handler_update (s := w.toState) ht rfl, Function.update_of_ne hj]
  refine ⟨hw.change hhandler hflights (by rw [hidle]; trivial), .inr ⟨rfl, ?_⟩⟩
  refine congrArg (fun ticks => ({ w.toState with ticks := ticks } : State)) ?_
  refine (Table.mapRows_update (u := id) (fun j hj => ?_) fun t' ht' => ?_).trans Table.update_id
  · exact congrArg settleTick (hflights j hj)
  · obtain rfl := Option.some.inj (ht.symm.trans ht')
    rw [hidle, hflight, settleTick_idle, settleTick_answer hth hphase]
    rfl

/-- Every step of the wire is one of the system, or not seen there. -/
theorem step_refined {a : Action} (hserver : server.Meets) (hw : w.Ok) (hgenuine : Genuine w.view)
    (hnext : step cfg server w a = some w') : Refined cfg w a w' := by
  cases a with
  | act a => exact act_refined hw hnext
  | send i => exact send_refined hw hnext
  | drop i => exact drop_refined hw hnext
  | serve i simulated answered => exact serve_refined hserver hw hgenuine hnext
  | receive i => exact receive_refined hw hnext

/-! ## Runs -/

/-- The callback of a deduction is called with an id of the HCM. -/
def Answered (w : Wire) (a : Action) : Prop := ∀ b, a = .act b → TimeOff.Answered w.toState b

/-- Nothing is on the wire. -/
def quiet (s : State) : Wire := ⟨s, fun _ => .idle⟩

/-- What is answered on the wire is answered in the view. -/
theorem answered_label {a : Action} {b : TimeOff.Action} (hok : w.Answered a)
    (hlabel : w.label a = some b) : TimeOff.Answered w.view b := by
  cases a with
  | act a =>
    obtain rfl := Option.some.inj hlabel
    have hanswered := hok a rfl
    cases a <;> exact hanswered
  | send i | receive i => cases hlabel
  | drop i =>
    obtain rfl := Option.some.inj hlabel
    trivial
  | serve i simulated answered =>
    obtain ⟨h, _, rfl⟩ := Option.map_eq_some_iff.1 hlabel
    trivial

/-- After every run, what is on the wire belongs to its handler. -/
theorem ok_of_run {hist : List (Wire × Action)} (hserver : server.Meets)
    (hidle : ∀ i, w₀.flights i = .idle) (hgenuine : Genuine w₀.toState)
    (hrun : Run (step cfg server) Answered w₀ hist w) : w.Ok ∧ Genuine w.view := by
  refine hrun.invariant (I := fun w => w.Ok ∧ Genuine w.view) ⟨fun i => ?_, ?_⟩
    fun w a w' ⟨hw, hview⟩ hok hnext => ?_
  · rw [hidle]
    trivial
  · rwa [view_of_idle hidle]
  · have hrefined := step_refined hserver hw hview hnext
    refine ⟨hrefined.ok, ?_⟩
    rcases hrefined.seen with ⟨b, hlabel, hstep⟩ | ⟨_, hsame⟩
    · exact hview.step (answered_label hok hlabel) (step_stepped hstep)
    · rwa [hsame]

/-- A run of the wire is a run of the system. -/
theorem run_of_wire {hist : List (Wire × Action)} (hserver : server.Meets)
    (hidle : ∀ i, w₀.flights i = .idle) (hgenuine : Genuine w₀.toState)
    (hrun : Run (step cfg server) Answered w₀ hist w) :
    Run (TimeOff.step cfg) TimeOff.Answered w₀.toState (seen view label hist) w.view := by
  rw [← view_of_idle hidle]
  refine hrun.refines fun hist w a w' hrun _ hok hnext => ?_
  obtain ⟨hw, hview⟩ := ok_of_run hserver hidle hgenuine hrun
  rcases (step_refined hserver hw hview hnext).seen with ⟨b, hlabel, hstep⟩ | hsilent
  · exact .inl ⟨b, hlabel, answered_label hok hlabel, hstep⟩
  · exact .inr hsilent

/-- A handler can go on with whatever response it gets. -/
theorem Ok.receives (hw : w.Ok) (hflight : w.flights i = .answer response) :
    ∃ w', step cfg server w (.receive i) = some w' := by
  have hwaits := hw i
  rw [hflight] at hwaits
  obtain ⟨h, phase, hh, _, hphase⟩ := hwaits
  refine Option.isSome_iff_exists.1 ?_
  rw [step, hflight, hh]
  simp only [hphase]
  rfl

/-- The handler of the tick `i` goes on with a response that has arrived. -/
theorem receive_quiet {hcm : HcmState} {flights : ℕ → Flight} (hh : s.handler i = some h)
    (hreceive : h.receive response = some phase) (hflights : ∀ j, j ≠ i → flights j = .idle)
    (hi : flights i = .answer response) :
    step cfg server ⟨{ s with hcm := hcm }, flights⟩ (.receive i) =
      some (quiet { s with hcm := hcm, ticks := s.ticks.update i (·.goOn (.running phase)) }) := by
  have hh' : State.handler { s with hcm := hcm } i = some h := hh
  have hidle : Function.update flights i .idle = fun _ => .idle := by
    funext j
    rw [Function.update_apply]
    split
    · rfl
    · next hj => exact hflights j hj
  rw [step]
  simp only [hi, hh', hreceive, Option.map_some]
  exact congrArg (fun flights => some (Wire.mk _ flights)) hidle

@[simp] theorem flights_fly {flight : Flight} :
    (w.fly i flight).flights j = if j = i then flight else w.flights j := Function.update_apply ..

/-- A request on the wire is not seen. -/
theorem view_asked : ((quiet s).fly i (.request req)).view = s := by
  refine (congrArg (fun ticks => ({ s with ticks := ticks } : State))
    (Table.mapRows_eq_self fun j t _ => ?_))
  rw [flights_fly]
  split
  · exact settleTick_request t
  · exact settleTick_idle t

/-- With `a`, the request of the handler `h` comes to what the call `o` does: the
    response is received in the phase that the call ends in. -/
structure ComesTo (cfg : Config) (server : HcmServer) (s : State) (i : ℕ) (h : Handler)
    (req : HttpRequest) (o : Outcome) (a : Action) (response : Option HttpResponse)
    (hcm' : HcmState) (phase : Phase) : Prop where
  receive : h.receive response = some phase
  call : h.step cfg s.now s.db s.hcm o = (s.db, hcm', .running phase)
  label : label ((quiet s).fly i (.request req)) a = some (.handle i o)
  step : step cfg server ((quiet s).fly i (.request req)) a =
    some ({ (quiet s).fly i (.request req) with hcm := hcm' }.fly i (.answer response))
  wire : ∀ b, a ≠ .act b

/-- A call of the system is an exchange on the wire: the request is sent, comes
    to its end with `a`, and the handler goes on. -/
theorem exchange_run {a : Action} {o : Outcome} {hcm' : HcmState} (hh : s.handler i = some h)
    (hreq : h.request = some req) (hend : ComesTo cfg server s i h req o a response hcm' phase) :
    ∃ hist, Run (step cfg server) Answered (quiet s) hist
        (quiet { s with hcm := hcm', ticks := s.ticks.update i (·.goOn (.running phase)) }) ∧
      seen view label hist = [(s, .handle i o)] := by
  -- Three steps for the call: the request is sent, it is served or lost, and its answer is
  -- received; only the second is seen.
  have hsend : step cfg server (quiet s) (.send i) =
      some ((quiet s).fly i (.request req)) := by
    have hbind : ((quiet s).handler i).bind (·.request) = some req := by
      rw [show (quiet s).handler i = some h from hh]
      exact hreq
    rw [step, hbind]
    rfl
  have hothers : ∀ j, j ≠ i →
      ({ (quiet s).fly i (.request req) with hcm := hcm' }.fly i (.answer response)).flights j =
        .idle := fun j hj => by
    rw [flights_fly, if_neg hj]
    exact flights_fly.trans (if_neg hj)
  have hreceived : step cfg server
      ({ (quiet s).fly i (.request req) with hcm := hcm' }.fly i (.answer response)) (.receive i) =
      some (quiet { s with hcm := hcm', ticks := s.ticks.update i (·.goOn (.running phase)) }) :=
    receive_quiet hh hend.receive hothers (flights_fly.trans (if_pos rfl))
  have hsilent : ∀ w : Wire, w.Answered (.send i) ∧ w.Answered (.receive i) := fun w =>
    ⟨fun b hb => (by cases hb), fun b hb => (by cases hb)⟩
  refine ⟨_, .step (.step (.step .init (hsilent _).1 hsend) (fun b hb => absurd hb (hend.wire b))
    hend.step) (hsilent _).2 hreceived, ?_⟩
  rw [seen_snoc_none rfl, seen_snoc_some hend.label, seen_snoc_none rfl, view_asked]
  rfl

/-- Whatever comes of a call, a request on the wire may come to it. -/
theorem exchange_end {o : Outcome} (hserver : server.Meets) (hs : Genuine s)
    (hh : s.handler i = some h) (hreq : h.request = some req) :
    ∃ a response hcm' phase, ComesTo cfg server s i h req o a response hcm' phase := by
  have hsome : h.request.isSome := by rw [hreq]; rfl
  have hasked : ((quiet s).fly i (.request req)).flights i = .request req :=
    flights_fly.trans (if_pos rfl)
  -- A request that is served without a simulated error.
  have hserve : ∀ answered, ∃ a response hcm' phase,
      ComesTo cfg server s i h req (h.outcome false answered) a response hcm' phase := by
    intro answered
    have hserved : h.Served server cfg s.now s.db s.hcm req false :=
      h.served hserver hs.hcm (fun x => hs.phase i h x hh) hreq
    obtain ⟨hcm', res, hres, hanswer⟩ := hserved
    obtain ⟨phase, hphase, hcall⟩ := hanswer answered
    have hhandler : ((quiet s).fly i (.request req)).handler i = some h := hh
    refine ⟨.serve i false answered, _, hcm', phase, hphase, hcall, ?_, ?_, fun b hb => ?_⟩
    · rw [label, hhandler]
      rfl
    · have hres' : server ((quiet s).fly i (.request req)).now false
          ((quiet s).fly i (.request req)).hcm req = (hcm', res) := hres
      rw [step, hasked]
      simp only [hres']
    · cases hb
  cases o with
  | ok => exact hserve true
  | lost => exact hserve false
  | throws =>
    refine ⟨.drop i, none, s.hcm, _, h.receive_none hsome, h.step_throws hsome, rfl, ?_,
      fun b hb => ?_⟩
    · rw [step, hasked]
      rfl
    · cases hb

/-- Every step of the system is made on the wire, which is quiet afterwards. -/
theorem run_of_step {a : TimeOff.Action} (hserver : server.Meets) (hs : Genuine s)
    (hok : TimeOff.Answered s a) (hnext : TimeOff.step cfg s a = some s') :
    ∃ hist, Run (step cfg server) Answered (quiet s) hist (quiet s') ∧
      seen view label hist = [(s, a)] := by
  -- A call of the HCM takes an exchange on the wire; every other step is the same there.
  by_cases hcalling : (quiet s).calling a
  · cases a with
    | handle i o =>
      obtain ⟨h, hh, hsome⟩ := (Option.any_eq_true _ _).1 hcalling
      obtain ⟨req, hreq⟩ := Option.isSome_iff_exists.1 hsome
      obtain ⟨a, response, hcm', phase, hend⟩ := exchange_end (o := o) hserver hs hh hreq
      obtain ⟨⟨queue, _⟩, ht, rfl⟩ := handler_eq_some.1 hh
      have hs' : s' =
          { s with hcm := hcm', ticks := s.ticks.update i (·.goOn (.running phase)) } := by
        replace ht : s.ticks.get i = some ⟨queue, some h⟩ := ht
        rw [TimeOff.step] at hnext
        simp only [ht] at hnext
        rw [← Option.some.inj hnext, hend.call]
      rw [hs']
      exact exchange_run hh hreq hend
    | _ => cases hcalling
  · have hconnections : (quiet s).connections a = fun _ => .idle := by cases a <;> rfl
    have hact : step cfg server (quiet s) (.act a) = some (quiet s') := by
      rw [step, if_neg hcalling, hconnections]
      change Option.map _ (TimeOff.step cfg s a) = _
      rw [hnext]
      rfl
    refine ⟨_, .step .init (fun b hb => ?_) hact, ?_⟩
    · obtain rfl := Action.act.inj hb
      exact hok
    · rw [seen_snoc_some rfl, view_of_idle fun _ => rfl]
      rfl

theorem genuine_of_run {hist : List (State × TimeOff.Action)} (hs₀ : Genuine s₀)
    (hrun : Run (TimeOff.step cfg) TimeOff.Answered s₀ hist s) : Genuine s :=
  hrun.invariant hs₀ fun _ _ _ hs hok hnext => hs.step hok (step_stepped hnext)

/-- A run of the system is a run of the wire. -/
theorem wire_of_run {hist : List (State × TimeOff.Action)} (hserver : server.Meets)
    (hs₀ : Genuine s₀) (hrun : Run (TimeOff.step cfg) TimeOff.Answered s₀ hist s) :
    ∃ hist', Run (step cfg server) Answered (quiet s₀) hist' (quiet s) ∧
      seen view label hist' = hist := by
  induction hrun with
  | init => exact ⟨[], .init, rfl⟩
  | step hrun hok hnext ih =>
    obtain ⟨hist', hrun', hseen⟩ := ih
    obtain ⟨hist'', hrun'', hseen'⟩ :=
      run_of_step hserver (genuine_of_run hs₀ hrun) hok hnext
    refine ⟨hist' ++ hist'', hrun'.append hrun'', ?_⟩
    rw [seen, List.filterMap_append]
    exact congrArg₂ _ hseen hseen'

/-- **The wire is the system.** With an HCM that meets the contract, what is seen
    of a run on the wire, with its requests and responses, is a run of the
    system, and a handler can always go on with what it has received. Every run
    of the system is seen of a run on the wire. -/
theorem same_runs (hserver : server.Meets) (hs₀ : Genuine s₀) :
    (∀ hist w, Run (step cfg server) Answered (quiet s₀) hist w →
      Run (TimeOff.step cfg) TimeOff.Answered s₀ (seen view label hist) w.view ∧
      ∀ i response, w.flights i = .answer response →
        ∃ w', step cfg server w (.receive i) = some w') ∧
    ∀ hist s, Run (TimeOff.step cfg) TimeOff.Answered s₀ hist s →
      ∃ hist', Run (step cfg server) Answered (quiet s₀) hist' (quiet s) ∧
        seen view label hist' = hist := by
  refine ⟨fun hist w hrun => ⟨?_, fun i response hflight => ?_⟩, fun hist s hrun => ?_⟩
  · exact run_of_wire hserver (fun _ => rfl) hs₀ hrun
  · exact (ok_of_run hserver (fun _ => rfl) hs₀ hrun).1.receives hflight
  · exact wire_of_run hserver hs₀ hrun

/-- A call whose response is lost, one that gets a simulated error, and one that
    is answered as a duplicate. -/
def sampleCalls : List Action :=
  (sampleApproval 2).map .act ++
    [.act .tick, .act (.claim 0 .ok), .send 0, .serve 0 false false, .receive 0,
      .act (.handle 0 .ok), .act (.advance 30000)] ++
    [.act .tick, .act (.claim 1 .ok), .send 1, .serve 1 true true, .receive 1,
      .act (.handle 1 .ok), .act (.advance 300000)] ++
    [.act .tick, .act (.claim 2 .ok), .send 2, .serve 2 false true, .receive 2,
      .act (.handle 2 .ok)]

/-- The sample on the wire, with a request that is approved in the end. -/
theorem same_runs_sample : ∃ hist w,
    Run (step sampleConfig HcmController.respond) Answered (quiet (sampleStart 10)) hist w ∧
    (w.db.requests.get 0).any (fun r => r.status = .approved ∧ r.hcmRequestId = some "hcm-1-0") ∧
    Run (TimeOff.step sampleConfig) TimeOff.Answered (sampleStart 10) (seen view label hist)
      w.view := by
  have hexec : ∃ w ∈ exec (step sampleConfig HcmController.respond) (quiet (sampleStart 10))
      sampleCalls, (w.db.requests.get 0).any
        (fun r => r.status = .approved ∧ r.hcmRequestId = some "hcm-1-0") := by
    decide +kernel
  have hcallback : ∀ a ∈ sampleCalls, ∀ id x, a ≠ .act (.completeDeductionFromOutbox id x) := by
    simp [sampleCalls, sampleApproval, sampleSubmit]
  obtain ⟨w, hrun, happroved⟩ := exists_run_of_exec hcallback hexec
  have hanswered : ∀ (w : Wire) a, (∀ id x, a ≠ .act (.completeDeductionFromOutbox id x)) →
      w.Answered a := by
    intro w a ha b hb
    cases b with
    | completeDeductionFromOutbox id x => exact absurd hb (ha id x)
    | _ => trivial
  have hrun' := hrun.mono hanswered
  exact ⟨_, w, hrun', happroved,
    ((same_runs HcmController.respond_meets (genuine_sample 10)).1 _ w hrun').1⟩

end Wire

end TimeOff
