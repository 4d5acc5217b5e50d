import TimeOff.HcmRoute

/-!
# The HCM as a server

The service and the HCM talk over HTTP: `HcmClientService` makes requests and
reads responses, `HcmController` of the mock HCM routes the requests to its
`HcmService`. A request has a URL where the endpoint has parameters, which are
read off it as in `TimeOff.HcmRoute`.

What the service relies on, of any HCM, is the contract `HcmServer.Meets`: the
status says whether a deduction has been made, refused or made before, and the
response has its id; a `404` for a reversal says that there is nothing to
reverse. The mock HCM meets it (`respond_meets`).
-/

namespace TimeOff

open Url HcmState

/-! ## Messages -/

/-- A request to the HCM. -/
inductive HttpRequest
  /-- `POST /hcm/requests` -/
  | postRequests (key : BalanceKey) (days : ℚ) (idempotencyKey : Option String)
  /-- `POST /hcm/balances/seed` -/
  | postSeed (key : BalanceKey) (totalDays : ℚ)
  /-- A `POST` of the days of a bonus. -/
  | postBonus (url : String) (bonusDays : ℚ)
  | get (url : String)
  | delete (url : String)

/-- The body of a response. -/
inductive ResponseBody
  | empty
  /-- `{ ok: true }` -/
  | ok
  | status (status : String)
  | hcmRequestId (hcmRequestId : String)
  | balance (record : BalanceRecord)
  | error (message : String)

/-- A response of the HCM. -/
structure HttpResponse where
  status : ℕ
  body : ResponseBody

/-- A status that axios resolves. -/
def HttpResponse.isSuccess (res : HttpResponse) : Bool := 200 ≤ res.status && res.status < 300

/-- `data.hcmRequestId` -/
def HttpResponse.hcmRequestId (res : HttpResponse) : Option String :=
  match res.body with
  | .hcmRequestId hcmRequestId => some hcmRequestId
  | _ => none

/-- The URL of a deduction. -/
def requestUrl (hcmRequestId : String) : String := s!"/hcm/requests/{hcmRequestId}"

/-- The parameter that the router reads off a URL, if it is one of `base`. -/
def urlParam (base url : String) : Option String :=
  match route base.toList 1 url.toList with
  | some [p] => some (.ofList p)
  | _ => none

/-- The URL is the path `path`, with or without a query. -/
def isPath (path url : String) : Bool := Url.path url.toList = path.toList

/-! ## `HcmClientService` -/

/-- What a call of the HCM throws. -/
inductive HcmClientError
  /-- `HcmBalanceInsufficientException` -/
  | balanceInsufficient (message : String)
  /-- `HcmUnavailableException` -/
  | unavailable (message : String)
  /-- The error of axios, with its response, if there is any. -/
  | axios (response : Option HttpResponse)

namespace HcmClientService

/-- `handleHcmError`, for a call that no success has come from. -/
def handleHcmError (response : Option HttpResponse) (operation : String) : HcmClientError :=
  match response with
  | none => .axios none
  | some res =>
    if res.status = 422 then .balanceInsufficient s!"HCM rejected {operation}: insufficient balance"
    else if 500 ≤ res.status then .unavailable s!"HCM returned {res.status} during {operation}"
    else .axios (some res)

/-- `deductBalance`, when its request has got a response, or none: the id of the
    deduction, as far as the response has one. -/
def deductBalance (response : Option HttpResponse) : Except HcmClientError (Option String) :=
  match response with
  | none => .error (handleHcmError none "deductBalance")
  | some res =>
    if res.isSuccess then .ok res.hcmRequestId
    else
      match if res.status = 409 then truthy res.hcmRequestId else none with
      | some hcmRequestId => .ok (some hcmRequestId)
      | none => .error (handleHcmError (some res) "deductBalance")

/-- `reverseDeduction`, likewise. -/
def reverseDeduction (response : Option HttpResponse) : Except HcmClientError Unit :=
  match response with
  | none => .error (handleHcmError none "reverseDeduction")
  | some res =>
    if res.isSuccess || res.status = 404 then .ok ()
    else .error (handleHcmError (some res) "reverseDeduction")

end HcmClientService

/-! ## `HcmController` -/

/-- A server for the requests: what it makes of one, at a time, and if it
    simulates an error or not. -/
abbrev HcmServer := Instant → Bool → HcmState → HttpRequest → HcmState × HttpResponse

/-- `simulateAnniversary` -/
def HcmState.simulateAnniversary (hcm : HcmState) (employeeId : String) (bonusDays : ℚ) :
    HcmState :=
  { hcm with
    balances := fun key => (hcm.balances key).map fun record =>
      if s!"{employeeId}:".toList <+: key.toList then
        { record with
          totalDays := record.totalDays + bonusDays
          hcmVersion := record.hcmVersion + 1 }
      else record }

/-- `reset` -/
def HcmState.reset : HcmState := ⟨fun _ => none, fun _ => none, fun _ => none, 0⟩

/-- The response to an error of `HcmService`. -/
def HcmError.response : HcmError → HttpResponse
  | .notFound message => ⟨404, .error message⟩
  | .unprocessable message => ⟨422, .error message⟩

namespace HcmController

/-- A URL that is not routed. -/
def notRouted : HttpResponse := ⟨404, .error "Cannot be routed"⟩

/-- `getBalance`: the record of the key that the path spells. -/
def getBalance (hcm : HcmState) (p : BalanceParams) : HttpResponse :=
  match hcm.balances s!"{p.employeeId}:{p.locationId}:{p.leaveType}" with
  | some record => ⟨200, .balance record⟩
  | none => HcmError.response (.notFound "Balance not found")

/-- `deductBalance`: `201` for a deduction that is made, `200` for one that is
    live. -/
def deductBalance (now : Instant) (simulated : Bool) (hcm : HcmState) (key : BalanceKey)
    (days : ℚ) (idempotencyKey : Option String) : HcmState × HttpResponse :=
  if simulated then (hcm, ⟨500, .error "Simulated HCM error"⟩)
  else
    match hcm.deductBalance key days idempotencyKey now with
    | .ok (hcmRequestId, hcm') =>
      -- A duplicate is answered like the first one, but for the status.
      let statusCode := if ((truthy idempotencyKey).bind hcm.deductions).isSome then 200 else 201
      (hcm', ⟨statusCode, .hcmRequestId hcmRequestId⟩)
    | .error e => (hcm, e.response)

/-- `reverseDeduction`: `204` once the days are back. -/
def reverseDeduction (hcm : HcmState) (id : String) : HcmState × HttpResponse :=
  match hcm.reverseDeduction id with
  | .ok hcm' => (hcm', ⟨204, .empty⟩)
  | .error e => (hcm, e.response)

/-- `getDeduction`: whether the deduction is live. -/
def getDeduction (hcm : HcmState) (id : String) : HttpResponse :=
  if (hcm.requestIndex id).isSome then ⟨200, .hcmRequestId id⟩
  else HcmError.response (.notFound "HCM request not found")

/-- The endpoints of the controller. -/
def respond : HcmServer := fun now simulated hcm req =>
  match req with
  | .postRequests key days idempotencyKey =>
    deductBalance now simulated hcm key days idempotencyKey
  | .postSeed key totalDays => (hcm.seedBalance key totalDays, ⟨201, .ok⟩)
  | .postBonus url bonusDays =>
    match urlParam "/hcm/simulate/anniversary/" url with
    | some employeeId => (hcm.simulateAnniversary employeeId bonusDays, ⟨201, .ok⟩)
    | none => (hcm, notRouted)
  | .get url =>
    match balanceParams url, urlParam "/hcm/requests/" url with
    | some p, _ => (hcm, getBalance hcm p)
    | none, some id => (hcm, getDeduction hcm id)
    | none, none => (hcm, if isPath "/hcm/health" url then ⟨200, .status "ok"⟩ else notRouted)
  | .delete url =>
    match urlParam "/hcm/requests/" url with
    | some id => reverseDeduction hcm id
    | none => if isPath "/hcm/state" url then (.reset, ⟨204, .empty⟩) else (hcm, notRouted)

end HcmController

/-! ## URLs of deductions -/

variable {hcm hcm' : HcmState} {key : BalanceKey} {days : ℚ} {k id : String} {now : Instant}
  {simulated : Bool} {res : HttpResponse} {base : String} {n : ℕ}

/-- A parameter that is plain is read as it is written. -/
theorem urlParam_of_plain (hbase : base.toList.all fun c => c ≠ '?' ∧ c ≠ '#') (hne : id ≠ "")
    (hplain : Url.Plain id.toList) : urlParam base (base ++ id) = some id := by
  have hempty : [] ∉ [id.toList] := by
    rw [List.mem_singleton]
    exact fun h => hne (String.toList_eq_nil_iff.1 h.symm)
  have hroute := route_of_plain (fun c hc => of_decide_eq_true (List.all_eq_true.1 hbase c hc))
    (List.cons_ne_nil id.toList []) hempty fun s hs => List.mem_singleton.1 hs ▸ hplain
  rw [urlParam, String.toList_append]
  rw [List.intercalate_singleton] at hroute
  rw [show [id.toList].length = 1 from rfl] at hroute
  rw [hroute]
  exact congrArg some String.ofList_toList

/-- The time is written with digits, and perhaps a sign. -/
theorem plain_toString_int (t : ℤ) : Url.Plain (toString t).toList := by
  cases t with
  | ofNat m =>
    rw [show toString (Int.ofNat m) = toString m from rfl, toList_toString]
    exact plain_digits m
  | negSucc m =>
    have hstring : toString (Int.negSucc m) = "-" ++ toString (m + 1) := rfl
    rw [hstring, String.toList_append, toList_toString]
    exact plain_append (by decide) (plain_digits _)

/-- The ids that the HCM gives out are plain. -/
theorem Issued.plain (hid : Issued n id) : Url.Plain id.toList ∧ id ≠ "" := by
  obtain ⟨c, t, _, rfl⟩ := hid
  have hstring : ∀ s : String, toString s = s := fun _ => rfl
  refine ⟨?_, by simp⟩
  simp only [String.toList_append, hstring, toList_toString]
  have hstart : Url.Plain "hcm-".toList := by decide
  have hdash : Url.Plain "-".toList := by decide
  exact plain_append (plain_append (plain_append hstart (plain_digits c)) hdash)
    (plain_toString_int t)

/-! ## What the service relies on -/

/-- The deduction has been made, now or before, and has this id. -/
def HttpResponse.Grants (res : HttpResponse) (hcmRequestId : String) : Prop :=
  (res.isSuccess ∨ res.status = 409) ∧ res.body = .hcmRequestId hcmRequestId

/-- No deduction has been made. -/
def HttpResponse.Refuses (res : HttpResponse) : Prop :=
  ¬res.isSuccess ∧ (res.status = 409 → truthy res.hcmRequestId = none)

/-- A store as `HcmService` makes it: versions are counted from `1`. -/
structure HcmState.Sound (hcm : HcmState) : Prop extends WellFormed hcm where
  version : ∀ key b, hcm.balances key = some b → b.hcmVersion ≠ 0

/-- The contract of an HCM, as far as the service makes use of it. What happens
    to the store is what `HcmService` does. -/
structure HcmServer.Meets (server : HcmServer) : Prop where
  deducts : ∀ {now hcm hcm' key days k id}, hcm.Sound → k ≠ "" →
    hcm.deductBalance key days (some k) now = .ok (id, hcm') →
    ∃ res, server now false hcm (.postRequests key days (some k)) = (hcm', res) ∧ res.Grants id
  refuses : ∀ {now hcm key days k e}, hcm.Sound → k ≠ "" →
    hcm.deductBalance key days (some k) now = .error e →
    ∃ res, server now false hcm (.postRequests key days (some k)) = (hcm, res) ∧ res.Refuses
  simulates : ∀ {now hcm key days k},
    ∃ res, server now true hcm (.postRequests key days k) = (hcm, res) ∧ res.Refuses
  reverses : ∀ {now simulated hcm hcm' n id}, hcm.Sound → Issued n id →
    hcm.reverseDeduction id = .ok hcm' →
    ∃ res, server now simulated hcm (.delete (requestUrl id)) = (hcm', res) ∧ res.isSuccess
  misses : ∀ {now simulated hcm n id}, hcm.Sound → Issued n id → hcm.requestIndex id = none →
    ∃ res, server now simulated hcm (.delete (requestUrl id)) = (hcm, res) ∧ res.status = 404

namespace HcmClientService

/-- A deduction that is granted is taken note of. -/
theorem deductBalance_granted (hres : res.Grants id) (hid : id ≠ "") :
    deductBalance (some res) = .ok (some id) := by
  obtain ⟨hstatus, hbody⟩ := hres
  have hdata : res.hcmRequestId = some id := by rw [HttpResponse.hcmRequestId, hbody]
  rw [deductBalance]
  split
  · rw [hdata]
  · next hfail => rw [if_pos (hstatus.resolve_left hfail), hdata, truthy_some hid]

/-- The client throws for an answer that refuses. -/
theorem deductBalance_refused (hres : res.Refuses) :
    ∃ e, deductBalance (some res) = .error e := by
  rw [deductBalance, if_neg hres.1]
  split
  · next hduplicate =>
    split at hduplicate
    · next hstatus =>
      rw [hres.2 hstatus] at hduplicate
      cases hduplicate
    · cases hduplicate
  · exact ⟨_, rfl⟩

theorem reverseDeduction_success (hres : res.isSuccess ∨ res.status = 404) :
    reverseDeduction (some res) = .ok () := by
  rw [reverseDeduction]
  exact if_pos (by simpa using hres)

end HcmClientService

/-- Every error is answered with a status that is no success. -/
theorem HcmError.response_refuses (e : HcmError) : e.response.Refuses := by
  cases e with
  | notFound message =>
    refine ⟨?_, fun h => ?_⟩
    · exact Bool.false_ne_true
    · cases h
  | unprocessable message =>
    refine ⟨?_, fun h => ?_⟩
    · exact Bool.false_ne_true
    · cases h

namespace HcmState

/-- A balance that is written has a version. -/
theorem version_update {b : BalanceRecord} {j : String}
    (hversion : ∀ j b, hcm.balances j = some b → b.hcmVersion ≠ 0) (hb : b.hcmVersion ≠ 0) :
    ∀ j' b', Function.update hcm.balances j (some b) j' = some b' → b'.hcmVersion ≠ 0 := by
  intro j' b' hb'
  rcases PartialMap.set_eq_some.1 hb' with ⟨_, rfl⟩ | ⟨_, hb'⟩
  · exact hb
  · exact hversion j' b' hb'

/-- A deduction that succeeds has an id that has been given out, now or before. -/
theorem Sound.deductBalance (hsound : hcm.Sound) (hk : k ≠ "")
    (hd : hcm.deductBalance key days (some k) now = .ok (id, hcm')) :
    hcm'.Sound ∧ hcm.requestCounter ≤ hcm'.requestCounter ∧ Issued hcm'.requestCounter id := by
  rcases deductBalance_ok hk hd with ⟨d, hlive, rfl, rfl⟩ | ⟨hnone, balance, _, _, rfl, rfl⟩
  · exact ⟨hsound, le_rfl, hsound.issued k d hlive⟩
  · exact ⟨⟨hsound.deduct hk hnone balance, version_update hsound.version (Nat.succ_ne_zero _)⟩,
      Nat.le_succ _, hcm.nextRequestId_issued now⟩

theorem Sound.reverseDeduction (hsound : hcm.Sound) (hr : hcm.reverseDeduction id = .ok hcm') :
    hcm'.Sound ∧ hcm.requestCounter = hcm'.requestCounter := by
  obtain ⟨k, d, balance, hd, rfl, _, rfl⟩ := hsound.reverseDeduction_ok hr
  exact ⟨⟨hsound.reversed hd balance, version_update hsound.version (Nat.succ_ne_zero _)⟩, rfl⟩

end HcmState

/-- A URL that the client has made of an id is read as the same id. -/
theorem urlParam_requestUrl (hid : Issued n id) :
    urlParam "/hcm/requests/" (requestUrl id) = some id :=
  urlParam_of_plain (by decide) hid.plain.2 hid.plain.1

/-- A reversal of what is not in the index finds nothing. -/
theorem reverseDeduction_of_none (hnone : hcm.requestIndex id = none) :
    hcm.reverseDeduction id = .error (.notFound "HCM request not found") := by
  rw [HcmState.reverseDeduction, hnone]
  rfl

/-- The mock HCM meets the contract. -/
theorem HcmController.respond_meets : HcmServer.Meets respond where
  deducts {now hcm hcm' key days k id} _ _ hd := by
    have hrespond : respond now false hcm (.postRequests key days (some k)) =
        (hcm', ⟨if ((truthy (some k)).bind hcm.deductions).isSome then 200 else 201,
          .hcmRequestId id⟩) := by
      rw [respond, deductBalance, if_neg Bool.false_ne_true, hd]
    refine ⟨_, hrespond, .inl ?_, rfl⟩
    split <;> rfl
  refuses {now hcm key days k e} _ _ hd := by
    have hrespond : respond now false hcm (.postRequests key days (some k)) =
        (hcm, e.response) := by
      rw [respond, deductBalance, if_neg Bool.false_ne_true, hd]
    exact ⟨_, hrespond, e.response_refuses⟩
  simulates := by
    refine ⟨⟨500, .error "Simulated HCM error"⟩, rfl, ?_, fun h => ?_⟩
    · exact Bool.false_ne_true
    · cases h
  reverses _ hid hr := by
    refine ⟨⟨204, .empty⟩, ?_, rfl⟩
    rw [respond, urlParam_requestUrl hid]
    dsimp only
    rw [reverseDeduction, hr]
  misses _ hid hnone := by
    refine ⟨⟨404, .error "HCM request not found"⟩, ?_, rfl⟩
    rw [respond, urlParam_requestUrl hid]
    dsimp only
    rw [reverseDeduction, reverseDeduction_of_none hnone]
    rfl

end TimeOff
