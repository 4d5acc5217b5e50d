import Mathlib.Data.Option.Basic
import TimeOff.HcmServer
import TimeOff.Lib.Run

/-!
# The HCM of the tests

The tests of the service do not run against the mock HCM, but against a small
server of their own, `MockHcmServer`, which keeps the same four maps and routes
requests by hand: it takes the parameters of a URL for what stands between its
slashes, and decodes nothing.

The requests that the service and the tests make are answered alike by both
(`stands_in`). They differ in what they do with an anniversary, which
leaves the versions of balances alone here, and so in these versions afterwards.
So the tests exercise the contract that the service relies on (`route_meets`).
-/

namespace TimeOff

open Transition HcmState

namespace MockHcmServer

/-- `url.split('/')[n]`, as a part of a string. -/
def urlPart (url : String) (n : ℕ) : String :=
  (url.toList.splitOn '/')[n]?.elim "undefined" .ofList

/-- `url.startsWith(base)` -/
def startsWith (base url : String) : Bool := base.toList <+: url.toList

/-- `String((Number(hcmVersion) || 1) + 1)` -/
def nextVersion (hcmVersion : ℕ) : ℕ := (if hcmVersion = 0 then 1 else hcmVersion) + 1

/-- What a new deduction writes. -/
def deducted (now : Instant) (hcm : HcmState) (key : BalanceKey) (days : ℚ)
    (idempotencyKey : Option String) (balance : BalanceRecord) : HcmState where
  balances := Function.update hcm.balances key.hcmKey (some { balance with
    totalDays := balance.totalDays - days
    hcmVersion := nextVersion balance.hcmVersion })
  deductions :=
    match truthy idempotencyKey with
    | some k => Function.update hcm.deductions k
        (some { key with days := days, hcmRequestId := hcm.nextRequestId now })
    | none => hcm.deductions
  requestIndex := Function.update hcm.requestIndex (hcm.nextRequestId now)
    (some (idempotencyKey.getD (hcm.nextRequestId now)))
  requestCounter := hcm.requestCounter + 1

/-- `POST /hcm/requests` -/
def postRequests (now : Instant) (simulated : Bool) (hcm : HcmState) (key : BalanceKey)
    (days : ℚ) (idempotencyKey : Option String) : HcmState × HttpResponse :=
  if simulated then (hcm, ⟨500, .error "Simulated HCM error"⟩)
  else
    match (truthy idempotencyKey).bind hcm.deductions with
    | some existing => (hcm, ⟨200, .hcmRequestId existing.hcmRequestId⟩)
    | none =>
      match hcm.balances key.hcmKey with
      | none => (hcm, ⟨404, .error "Balance not found"⟩)
      | some balance =>
        if balance.totalDays < days then (hcm, ⟨422, .error "Insufficient balance"⟩)
        else
          (deducted now hcm key days idempotencyKey balance,
            ⟨201, .hcmRequestId (hcm.nextRequestId now)⟩)

/-- What a reversal restores: nothing if there is no such balance any more. -/
def restored (hcm : HcmState) (idemKey : String) : HcmState :=
  match hcm.deductions idemKey with
  | none => hcm
  | some deduction =>
    match hcm.balances deduction.hcmKey with
    | none => hcm
    | some balance =>
      { hcm with
        balances := Function.update hcm.balances deduction.hcmKey (some { balance with
          totalDays := balance.totalDays + deduction.days
          hcmVersion := nextVersion balance.hcmVersion }) }

/-- `DELETE /hcm/requests/:id` -/
def deleteRequest (hcm : HcmState) (id : String) : HcmState × HttpResponse :=
  match hcm.requestIndex id with
  | none => (hcm, ⟨404, .error "Not found"⟩)
  | some idemKey => ((restored hcm idemKey).forget idemKey id, ⟨204, .empty⟩)

/-- `POST /hcm/simulate/anniversary/:employeeId` -/
def anniversary (hcm : HcmState) (employeeId : String) (bonusDays : ℚ) : HcmState :=
  { hcm with
    balances := fun key => (hcm.balances key).map fun record =>
      if s!"{employeeId}:".toList <+: key.toList then
        { record with totalDays := record.totalDays + bonusDays }
      else record }

/-- `GET /hcm/balances/:employeeId/:locationId/:leaveType` -/
def getBalance (hcm : HcmState) (url : String) : HttpResponse :=
  match hcm.balances s!"{urlPart url 3}:{urlPart url 4}:{urlPart url 5}" with
  | none => ⟨404, .error "Not found"⟩
  | some balance => ⟨200, .balance balance⟩

/-- `GET /hcm/requests/:id` -/
def getRequest (hcm : HcmState) (id : String) : HttpResponse :=
  match truthy (hcm.requestIndex id) with
  | none => ⟨404, .error "Not found"⟩
  | some _ => ⟨200, .hcmRequestId id⟩

/-- What no route of the double matches. -/
def unknownRoute : HttpResponse := ⟨404, .error "Unknown route"⟩

/-- `route` -/
def route : HcmServer := fun now simulated hcm req =>
  match req with
  | .postRequests key days idempotencyKey =>
    postRequests now simulated hcm key days idempotencyKey
  | .delete url =>
    if startsWith "/hcm/requests/" url then deleteRequest hcm (urlPart url 3)
    else if url = "/hcm/state" then (.reset, ⟨204, .empty⟩)
    else (hcm, unknownRoute)
  | .postSeed key totalDays => (hcm.seedBalance key totalDays, ⟨201, .ok⟩)
  | .postBonus url bonusDays =>
    if startsWith "/hcm/simulate/anniversary/" url then
      (anniversary hcm (urlPart url 4) bonusDays, ⟨200, .ok⟩)
    else (hcm, unknownRoute)
  | .get url =>
    if startsWith "/hcm/balances/" url then (hcm, getBalance hcm url)
    else if startsWith "/hcm/requests/" url then (hcm, getRequest hcm (urlPart url 3))
    else (hcm, unknownRoute)

end MockHcmServer

/-! ## Requests -/

/-- The URL of the anniversary of an employee. -/
def anniversaryUrl (employeeId : ℕ) : String := s!"/hcm/simulate/anniversary/{employeeId}"

/-- The requests that the service and its tests make. -/
inductive Sent : HttpRequest → Prop
  | deduct {key : BalanceKey} {days : ℚ} {idempotencyKey : Option String} :
      idempotencyKey ≠ some "" → Sent (.postRequests key days idempotencyKey)
  | reverse {id : String} : id ≠ "" → Url.Plain id.toList → Sent (.delete (requestUrl id))
  | reset : Sent (.delete "/hcm/state")
  | seed {key : BalanceKey} {totalDays : ℚ} : Sent (.postSeed key totalDays)
  | anniversary {employeeId : ℕ} {bonusDays : ℚ} :
      Sent (.postBonus (anniversaryUrl employeeId) bonusDays)
  | balance {key : BalanceKey} : key.locationId ≠ "" → key.leaveType ≠ "" → key.Plain →
      Sent (.get key.balancePath)
  | deduction {id : String} : id ≠ "" → Url.Plain id.toList → Sent (.get (requestUrl id))

/-- The one kind of request that the two answer differently. -/
def HttpRequest.isAnniversary : HttpRequest → Bool
  | .postBonus _ _ => true
  | _ => false

/-! ## URLs -/

section
variable {url base id : String} {n : ℕ} {key : BalanceKey} {ss us : List (List Char)}
  {s : List Char}

namespace MockHcmServer

/-- The parts of a URL are the segments that it is made of: the fixed ones of
    the endpoint, and the parameters. -/
theorem urlPart_of_segments (hbase : base.toList = ['/'].intercalate (ss ++ [[]]))
    (hfixed : ∀ s ∈ ss, '/' ∉ s) (hurl : url.toList = base.toList ++ ['/'].intercalate us)
    (hplain : ∀ s ∈ us, Url.Plain s) (hn : us[n]? = some s) :
    urlPart url (ss.length + n) = .ofList s := by
  have hne : us ≠ [] := by
    rintro rfl
    cases hn
  have hslash : ∀ s ∈ ss ++ us, '/' ∉ s := by
    intro s hs
    rcases List.mem_append.1 hs with hs | hs
    · exact hfixed s hs
    · exact fun h => absurd (hplain s hs '/' h) (by decide)
  rw [urlPart, hurl, hbase, Url.intercalate_append hne,
    List.splitOn_intercalate '/' hslash (List.append_ne_nil_of_right_ne_nil _ hne),
    List.getElem?_append_right (Nat.le_add_right _ _), Nat.add_sub_cancel_left, hn,
    Option.elim_some]

theorem startsWith_append : startsWith base (base ++ id) := by
  rw [startsWith, decide_eq_true_eq, String.toList_append]
  exact List.prefix_append _ _

/-- What a URL starts with is determined by its first characters. -/
theorem startsWith_eq_false {base' : String} (n : ℕ) (hn : n ≤ base.toList.length)
    (hn' : n ≤ base'.toList.length) (hne : base.toList.take n ≠ base'.toList.take n) :
    startsWith base (base' ++ id) = false := by
  rw [startsWith, decide_eq_false_iff_not, String.toList_append]
  rintro ⟨l, hl⟩
  have htake := congrArg (List.take n) hl
  rw [List.take_append_of_le_length hn,
    List.take_append_of_le_length hn'] at htake
  exact hne htake

/-- The id is read back from the URL of its deduction. -/
theorem urlPart_requestUrl (hplain : Url.Plain id.toList) : urlPart (requestUrl id) 3 = id := by
  have hbase : "/hcm/requests/".toList =
      ['/'].intercalate ([[], "hcm".toList, "requests".toList] ++ [[]]) := by decide +kernel
  have hfixed : ∀ s ∈ [[], "hcm".toList, "requests".toList], '/' ∉ s := by decide +kernel
  have hurl : (requestUrl id).toList =
      "/hcm/requests/".toList ++ ['/'].intercalate [id.toList] := by
    rw [List.intercalate_singleton]
    exact String.toList_append
  have hpart := urlPart_of_segments hbase hfixed hurl (List.forall_mem_singleton.2 hplain)
    (rfl : [id.toList][0]? = some id.toList)
  rwa [String.ofList_toList] at hpart

/-- The parts of the path of a balance. -/
theorem urlPart_balancePath (hplain : key.Plain) :
    urlPart key.balancePath 3 = toString key.employeeId ∧
      urlPart key.balancePath 4 = key.locationId ∧ urlPart key.balancePath 5 = key.leaveType := by
  have hbase : "/hcm/balances/".toList =
      ['/'].intercalate ([[], "hcm".toList, "balances".toList] ++ [[]]) := by decide +kernel
  have hfixed : ∀ s ∈ [[], "hcm".toList, "balances".toList], '/' ∉ s := by decide +kernel
  have hpart : ∀ n s, key.segments[n]? = some s → urlPart key.balancePath (3 + n) = .ofList s :=
    fun n s hn => urlPart_of_segments hbase hfixed toList_balancePath
      (plain_segments_iff.2 hplain) hn
  refine ⟨?_, ?_, ?_⟩
  · rw [hpart 0 _ rfl, ← toList_toString, String.ofList_toList]
  · rw [hpart 1 _ rfl, String.ofList_toList]
  · rw [hpart 2 _ rfl, String.ofList_toList]

/-- So is the employee from the URL of an anniversary. -/
theorem urlPart_anniversaryUrl {employeeId : ℕ} :
    urlPart (anniversaryUrl employeeId) 4 = toString employeeId := by
  have hbase : "/hcm/simulate/anniversary/".toList = ['/'].intercalate
      ([[], "hcm".toList, "simulate".toList, "anniversary".toList] ++ [[]]) := by decide +kernel
  have hfixed : ∀ s ∈ [[], "hcm".toList, "simulate".toList, "anniversary".toList], '/' ∉ s := by
    decide +kernel
  have hurl : (anniversaryUrl employeeId).toList = "/hcm/simulate/anniversary/".toList ++
      ['/'].intercalate [Nat.toDigits 10 employeeId] := by
    rw [List.intercalate_singleton, ← toList_toString]
    exact String.toList_append
  have hpart := urlPart_of_segments hbase hfixed hurl
    (List.forall_mem_singleton.2 (plain_digits employeeId))
    (rfl : [Nat.toDigits 10 employeeId][0]? = some (Nat.toDigits 10 employeeId))
  rwa [← toList_toString, String.ofList_toList] at hpart

end MockHcmServer
end

/-! ## Stores that mirror each other -/

/-- The balances are the same, and if `exact` is so, their versions, too. -/
structure BalanceRecord.Mirrors (exact : Prop) (b b' : BalanceRecord) : Prop where
  key : b.toBalanceKey = b'.toBalanceKey
  totalDays : b.totalDays = b'.totalDays
  hcmVersion : exact → b.hcmVersion = b'.hcmVersion

/-- The store of the server of the tests, and that of the mock HCM. -/
structure HcmState.Mirrors (exact : Prop) (hcm hcm' : HcmState) : Prop where
  balances : ∀ j, Option.Rel (BalanceRecord.Mirrors exact) (hcm.balances j) (hcm'.balances j)
  deductions : hcm.deductions = hcm'.deductions
  requestIndex : hcm.requestIndex = hcm'.requestIndex
  requestCounter : hcm.requestCounter = hcm'.requestCounter
  /-- What the responses depend on besides. -/
  version : ∀ j b, hcm.balances j = some b → b.hcmVersion ≠ 0
  covered : ∀ k d, hcm.deductions k = some d → ∃ b, hcm.balances d.hcmKey = some b
  indexed : ∀ id k, hcm.requestIndex id = some k → k ≠ ""

/-- The responses are the same, except for the texts of errors and perhaps for
    the versions of balances. -/
def ResponseBody.Agrees (exact : Prop) : ResponseBody → ResponseBody → Prop
  | .balance b, .balance b' => b.Mirrors exact b'
  | .error _, .error _ => True
  | body, body' => body = body'

/-- The responses have the same status, and their bodies agree. -/
def HttpResponse.Agrees (exact : Prop) (res res' : HttpResponse) : Prop :=
  res.status = res'.status ∧ res.body.Agrees exact res'.body

namespace HcmState.Mirrors

variable {exact : Prop} {hcm hcm' : HcmState} {b b' : BalanceRecord} {key : BalanceKey} {days : ℚ}
  {k id j : String} {now : Instant} {simulated : Bool} {idempotencyKey : Option String}

/-- The two empty stores mirror each other. -/
theorem reset : HcmState.reset.Mirrors exact HcmState.reset where
  balances _ := .none
  deductions := rfl
  requestIndex := rfl
  requestCounter := rfl
  version _ _ hb := by cases hb
  covered _ _ hd := by cases hd
  indexed _ _ hk := by cases hk

/-- A balance is there in both stores, or in none. -/
theorem get_eq_some (h : hcm.Mirrors exact hcm') (hb : hcm.balances j = some b) :
    ∃ b', hcm'.balances j = some b' ∧ b.Mirrors exact b' := by
  have hrel := h.balances j
  rw [hb] at hrel
  generalize hcm'.balances j = o at hrel
  cases hrel with
  | some hmirrors => exact ⟨_, rfl, hmirrors⟩

/-- Neither store has a balance that the other has not. -/
theorem get_eq_none (h : hcm.Mirrors exact hcm') (hb : hcm.balances j = none) :
    hcm'.balances j = none := by
  have hrel := h.balances j
  rw [hb] at hrel
  generalize hcm'.balances j = o at hrel
  cases hrel
  rfl

/-- Stores that mirror each other exactly do so in the weaker sense, too. -/
theorem mono {exact' : Prop} (h : hcm.Mirrors exact hcm') (hexact : exact' → exact) :
    hcm.Mirrors exact' hcm' where
  balances j := by
    have hrel := h.balances j
    generalize hcm.balances j = o at hrel ⊢
    generalize hcm'.balances j = o' at hrel ⊢
    cases hrel with
    | none => exact .none
    | some hmirrors =>
      exact .some ⟨hmirrors.key, hmirrors.totalDays, fun hyes => hmirrors.hcmVersion (hexact hyes)⟩
  deductions := h.deductions
  requestIndex := h.requestIndex
  requestCounter := h.requestCounter
  version := h.version
  covered := h.covered
  indexed := h.indexed

/-- Balances that mirror each other are written. -/
theorem write (h : hcm.Mirrors exact hcm') (hb : b.Mirrors exact b') (hversion : b.hcmVersion ≠ 0) :
    ({ hcm with balances := Function.update hcm.balances j (some b) } : HcmState).Mirrors exact
      { hcm' with balances := Function.update hcm'.balances j (some b') } where
  balances i := by
    dsimp only
    rw [Function.update_apply, Function.update_apply]
    split
    · exact .some hb
    · exact h.balances i
  deductions := h.deductions
  requestIndex := h.requestIndex
  requestCounter := h.requestCounter
  version := version_update h.version hversion
  covered k d hd := by
    dsimp only
    rw [Function.update_apply]
    split
    · exact ⟨_, rfl⟩
    · exact h.covered k d hd
  indexed := h.indexed

/-- A reversal is forgotten. -/
theorem forget (h : hcm.Mirrors exact hcm') :
    (hcm.forget k id).Mirrors exact (hcm'.forget k id) where
  balances := h.balances
  deductions := 
    congrArg (fun m : String → Option DeductionRecord => Function.update m k none) h.deductions
  requestIndex := 
    congrArg (fun m : String → Option String => Function.update m id none) h.requestIndex
  requestCounter := h.requestCounter
  version := h.version
  covered _ d hd := h.covered _ d (PartialMap.unset_eq_some.1 hd).2
  indexed _ k hk := h.indexed _ k (PartialMap.unset_eq_some.1 hk).2

theorem nextVersion (h : hcm.Mirrors exact hcm') (hb : hcm.balances j = some b)
    (hmirrors : b.Mirrors exact b') (hexact : exact) :
    MockHcmServer.nextVersion b.hcmVersion = b'.hcmVersion + 1 := by
  rw [MockHcmServer.nextVersion, if_neg (h.version j b hb), hmirrors.hcmVersion hexact]

theorem nextRequestId (h : hcm.Mirrors exact hcm') :
    hcm.nextRequestId now = hcm'.nextRequestId now := by
  rw [HcmState.nextRequestId, HcmState.nextRequestId, h.requestCounter]

/-- A deduction that is made in both. -/
theorem deduct (h : hcm.Mirrors exact hcm') (hb : hcm.balances key.hcmKey = some b)
    (hmirrors : b.Mirrors exact b') (hkey : idempotencyKey ≠ some "") :
    (MockHcmServer.deducted now hcm key days idempotencyKey b).Mirrors exact
      (hcm'.deduct key days b' idempotencyKey now) := by
  have hid : hcm.nextRequestId now = hcm'.nextRequestId now := h.nextRequestId
  have hwritten : BalanceRecord.Mirrors exact
      { b with
        totalDays := b.totalDays - days
        hcmVersion := MockHcmServer.nextVersion b.hcmVersion }
      { b' with
        totalDays := b'.totalDays - days
        hcmVersion := b'.hcmVersion + 1 } :=
    ⟨hmirrors.key, congrArg (· - days) hmirrors.totalDays, h.nextVersion hb hmirrors⟩
  have hwrite := h.write (j := key.hcmKey) hwritten (Nat.succ_ne_zero _)
  refine ⟨hwrite.balances, ?_, ?_, congrArg (· + 1) h.requestCounter, hwrite.version,
    fun k d hd => ?_, fun id k hk => ?_⟩
  · cases htruthy : truthy idempotencyKey <;>
      simp only [MockHcmServer.deducted, HcmState.deduct, htruthy, hid, h.deductions]
  · rw [MockHcmServer.deducted, HcmState.deduct, hid, h.requestIndex]
  · cases htruthy : truthy idempotencyKey with
    | none =>
      simp only [MockHcmServer.deducted, htruthy] at hd
      exact hwrite.covered k d hd
    | some key =>
      simp only [MockHcmServer.deducted, htruthy] at hd
      rcases PartialMap.set_eq_some.1 hd with ⟨_, rfl⟩ | ⟨_, hd⟩
      · exact ⟨_, Function.update_self _ _ _⟩
      · exact hwrite.covered k d hd
  · rcases PartialMap.set_eq_some.1 hk with ⟨_, rfl⟩ | ⟨_, hk⟩
    · cases idempotencyKey with
      | none => exact (hcm.nextRequestId_issued now).plain.2
      | some key => exact fun hempty => hkey (congrArg some hempty)
    · exact h.indexed id k hk

/-- A deduction is answered alike, and leaves stores that mirror each other. -/
theorem postRequests (h : hcm.Mirrors exact hcm') (hkey : idempotencyKey ≠ some "") :
    (MockHcmServer.postRequests now simulated hcm key days idempotencyKey).1.Mirrors exact
        (HcmController.deductBalance now simulated hcm' key days idempotencyKey).1 ∧
      (MockHcmServer.postRequests now simulated hcm key days idempotencyKey).2.Agrees exact
        (HcmController.deductBalance now simulated hcm' key days idempotencyKey).2 := by
  rw [MockHcmServer.postRequests, HcmController.deductBalance]
  cases simulated with
  | true => exact ⟨h, rfl, trivial⟩
  | false =>
    rw [if_neg Bool.false_ne_true, if_neg Bool.false_ne_true, deductBalance, h.deductions]
    cases hlive : (truthy idempotencyKey).bind hcm'.deductions with
    | some existing => exact ⟨h, rfl, rfl⟩
    | none =>
      cases hb : hcm.balances key.hcmKey with
      | none =>
        rw [h.get_eq_none hb]
        exact ⟨h, rfl, trivial⟩
      | some b =>
        obtain ⟨b', hb', hmirrors⟩ := h.get_eq_some hb
        simp only [hb', hmirrors.totalDays]
        split
        · exact ⟨h, rfl, trivial⟩
        · exact ⟨h.deduct hb hmirrors hkey, rfl, congrArg ResponseBody.hcmRequestId h.nextRequestId⟩

/-- A reversal: the balance of a live deduction is there, so that it does not
    matter what would happen otherwise. -/
theorem deleteRequest (h : hcm.Mirrors exact hcm') :
    (MockHcmServer.deleteRequest hcm id).1.Mirrors exact
        (HcmController.reverseDeduction hcm' id).1 ∧
      (MockHcmServer.deleteRequest hcm id).2.Agrees exact
        (HcmController.reverseDeduction hcm' id).2 := by
  rw [MockHcmServer.deleteRequest, HcmController.reverseDeduction, HcmState.reverseDeduction,
    h.requestIndex]
  cases hk : hcm'.requestIndex id with
  | none => exact ⟨h, rfl, trivial⟩
  | some k =>
    have hne : k ≠ "" := h.indexed id k (h.requestIndex.symm ▸ hk)
    simp only [truthy_some hne, MockHcmServer.restored, ← h.deductions]
    cases hd : hcm.deductions k with
    | none => exact ⟨h.forget, rfl, rfl⟩
    | some d =>
      obtain ⟨b, hb⟩ := h.covered k d hd
      obtain ⟨b', hb', hmirrors⟩ := h.get_eq_some hb
      simp only [hb, hb']
      have hwritten : BalanceRecord.Mirrors exact
          { b with
            totalDays := b.totalDays + d.days
            hcmVersion := MockHcmServer.nextVersion b.hcmVersion }
          { b' with
            totalDays := b'.totalDays + d.days
            hcmVersion := b'.hcmVersion + 1 } :=
        ⟨hmirrors.key, congrArg (· + d.days) hmirrors.totalDays, h.nextVersion hb hmirrors⟩
      exact ⟨(h.write hwritten (Nat.succ_ne_zero _)).forget, rfl, rfl⟩

theorem seedBalance (h : hcm.Mirrors exact hcm') {totalDays : ℚ} :
    (hcm.seedBalance key totalDays).Mirrors exact (hcm'.seedBalance key totalDays) :=
  h.write ⟨rfl, rfl, fun _ => rfl⟩ Nat.one_ne_zero

/-- An anniversary changes the versions in one of them. -/
theorem anniversary (h : hcm.Mirrors exact hcm') (hexact : ¬exact) {employeeId : String}
    {bonusDays : ℚ} :
    (MockHcmServer.anniversary hcm employeeId bonusDays).Mirrors exact
      (hcm'.simulateAnniversary employeeId bonusDays) where
  balances j := by
    rw [MockHcmServer.anniversary, simulateAnniversary]
    have hrel := h.balances j
    dsimp only
    generalize hcm.balances j = o at hrel ⊢
    generalize hcm'.balances j = o' at hrel ⊢
    cases hrel with
    | none => exact .none
    | some hmirrors =>
      refine .some ⟨?_, ?_, fun hyes => absurd hyes hexact⟩
      · split <;> exact hmirrors.key
      · split
        · exact congrArg (· + bonusDays) hmirrors.totalDays
        · exact hmirrors.totalDays
  deductions := h.deductions
  requestIndex := h.requestIndex
  requestCounter := h.requestCounter
  version j b hb := by
    obtain ⟨b₀, hb₀, rfl⟩ := Option.map_eq_some_iff.1 hb
    split <;> exact h.version j b₀ hb₀
  covered k d hd := by
    obtain ⟨b, hb⟩ := h.covered k d hd
    exact ⟨_, congrArg (Option.map _) hb⟩
  indexed := h.indexed

/-- A balance is answered alike. -/
theorem getBalance (h : hcm.Mirrors exact hcm') (hplain : key.Plain) :
    (MockHcmServer.getBalance hcm key.balancePath).Agrees exact
      (HcmController.getBalance hcm' key.params) := by
  obtain ⟨hemployee, hlocation, htype⟩ := MockHcmServer.urlPart_balancePath hplain
  rw [MockHcmServer.getBalance, HcmController.getBalance, hemployee, hlocation, htype]
  have hrel := h.balances key.hcmKey
  have hroute : hcm.balances s!"{toString key.employeeId}:{key.locationId}:{key.leaveType}" =
      hcm.balances key.hcmKey := rfl
  have hrespond :
      hcm'.balances s!"{key.params.employeeId}:{key.params.locationId}:{key.params.leaveType}" =
      hcm'.balances key.hcmKey := rfl
  rw [hroute, hrespond]
  generalize hcm.balances key.hcmKey = o at hrel ⊢
  generalize hcm'.balances key.hcmKey = o' at hrel ⊢
  cases hrel with
  | none => exact ⟨rfl, trivial⟩
  | some hmirrors => exact ⟨rfl, hmirrors⟩

/-- A deduction that is looked up is answered alike. -/
theorem getRequest (h : hcm.Mirrors exact hcm') :
    (MockHcmServer.getRequest hcm id).Agrees exact (HcmController.getDeduction hcm' id) := by
  rw [MockHcmServer.getRequest, HcmController.getDeduction, h.requestIndex]
  cases hk : hcm'.requestIndex id with
  | none => exact ⟨rfl, trivial⟩
  | some k =>
    rw [truthy_some (h.indexed id k (h.requestIndex.symm ▸ hk))]
    exact ⟨rfl, rfl⟩

end HcmState.Mirrors

/-! ## Runs -/

open MockHcmServer

variable {exact : Prop} {hcm hcm' : HcmState} {req : HttpRequest} {now : Instant}
  {simulated : Bool} {id : String} {key : BalanceKey}

/-- A URL is not routed by what it does not start with. -/
theorem route_of_startsWith {base url : String} {n : ℕ} (h : startsWith base url = false) :
    Url.route base.toList n url.toList = none := by
  have hprefix : ¬base.toList <+: Url.path url.toList := fun hbase =>
    of_decide_eq_false h (hbase.trans (List.takeWhile_prefix _))
  rw [Url.route, if_neg hprefix]

theorem urlParam_of_startsWith {base url : String} (h : startsWith base url = false) :
    urlParam base url = none := by
  rw [urlParam, route_of_startsWith h]

theorem balanceParams_of_startsWith {url : String} (h : startsWith "/hcm/balances/" url = false) :
    balanceParams url = none := by
  rw [balanceParams, route_of_startsWith h]

theorem startsWith_requestUrl : startsWith "/hcm/requests/" (requestUrl id) ∧
    startsWith "/hcm/balances/" (requestUrl id) = false :=
  ⟨startsWith_append, startsWith_eq_false 6 (by decide +kernel) (by decide +kernel)
    (by decide +kernel)⟩

theorem startsWith_anniversaryUrl {employeeId : ℕ} :
    startsWith "/hcm/simulate/anniversary/" (anniversaryUrl employeeId) := startsWith_append

theorem startsWith_balancePath : startsWith "/hcm/balances/" key.balancePath :=
  decide_eq_true ⟨_, toList_balancePath.symm⟩

theorem urlParam_requestUrl_of_plain (hne : id ≠ "") (hplain : Url.Plain id.toList) :
    urlParam "/hcm/requests/" (requestUrl id) = some id :=
  urlParam_of_plain (by decide) hne hplain

/-- The employee in the URL of an anniversary, as the double cuts it out. -/
theorem urlParam_anniversaryUrl {employeeId : ℕ} :
    urlParam "/hcm/simulate/anniversary/" (anniversaryUrl employeeId) =
      some (toString employeeId) := by
  refine urlParam_of_plain (by decide) (fun hempty => ?_) ?_
  · have hdigits := congrArg String.toList hempty
    rw [toList_toString] at hdigits
    exact Nat.toDigits_ne_nil hdigits
  · rw [toList_toString]
    exact plain_digits employeeId

/-- A request that both stores get is answered alike, and they mirror each other
    afterwards. -/
theorem HcmState.Mirrors.step (h : hcm.Mirrors exact hcm') (hreq : Sent req)
    (hexact : exact → ¬req.isAnniversary) :
    (route now simulated hcm req).1.Mirrors exact
        (HcmController.respond now simulated hcm' req).1 ∧
      (¬req.isAnniversary → (route now simulated hcm req).2.Agrees exact
        (HcmController.respond now simulated hcm' req).2) := by
  cases hreq with
  | deduct hkey =>
    obtain ⟨hmirrors, hagrees⟩ := h.postRequests hkey
    exact ⟨hmirrors, fun _ => hagrees⟩
  | reverse hne hplain =>
    rw [route, HcmController.respond]
    simp only [startsWith_requestUrl.1, if_true, urlPart_requestUrl hplain,
      urlParam_requestUrl_of_plain hne hplain]
    obtain ⟨hmirrors, hagrees⟩ := h.deleteRequest
    exact ⟨hmirrors, fun _ => hagrees⟩
  | reset =>
    have hstart : startsWith "/hcm/requests/" "/hcm/state" = false := by decide +kernel
    have hpath : isPath "/hcm/state" "/hcm/state" = true := by decide +kernel
    rw [route, HcmController.respond]
    simp only [hstart, urlParam_of_startsWith hstart, hpath, if_true]
    exact ⟨.reset, fun _ => ⟨rfl, rfl⟩⟩
  | seed => exact ⟨h.seedBalance, fun _ => ⟨rfl, rfl⟩⟩
  | anniversary =>
    rw [route, HcmController.respond]
    simp only [startsWith_anniversaryUrl, if_true, urlPart_anniversaryUrl, urlParam_anniversaryUrl]
    exact ⟨h.anniversary fun hyes => hexact hyes rfl, fun hno => absurd rfl hno⟩
  | balance hlocation htype hplain =>
    rw [route, HcmController.respond]
    simp only [startsWith_balancePath, if_true, (balanceParams_iff hlocation htype).2 hplain]
    exact ⟨h, fun _ => h.getBalance hplain⟩
  | deduction hne hplain =>
    rw [route, HcmController.respond]
    simp only [startsWith_requestUrl, if_true, Bool.false_eq_true, if_false,
      urlPart_requestUrl hplain, balanceParams_of_startsWith startsWith_requestUrl.2,
      urlParam_requestUrl_of_plain hne hplain]
    exact ⟨h, fun _ => h.getRequest⟩

/-! ## The contract -/

/-- A store mirrors itself. -/
theorem HcmState.Sound.mirrors (hsound : hcm.Sound) : hcm.Mirrors True hcm where
  balances j := by
    cases hcm.balances j with
    | none => exact .none
    | some b => exact .some ⟨rfl, rfl, fun _ => rfl⟩
  deductions := rfl
  requestIndex := rfl
  requestCounter := rfl
  version := hsound.version
  covered := hsound.covered
  indexed id k hk := by
    obtain ⟨d, hd, _⟩ := hsound.live id k hk
    exact hsound.key k d hd

/-- If the versions agree as well, then the two stores are the same. -/
theorem HcmState.Mirrors.eq (h : hcm.Mirrors True hcm') : hcm = hcm' := by
  have hbalances : hcm.balances = hcm'.balances := by
    funext j
    have hrel := h.balances j
    generalize hcm.balances j = o at hrel ⊢
    generalize hcm'.balances j = o' at hrel ⊢
    cases hrel with
    | none => rfl
    | @some b b' hmirrors =>
      obtain ⟨key, totalDays, hcmVersion⟩ := b
      obtain ⟨rfl, rfl, hversion⟩ := hmirrors
      obtain rfl := hversion trivial
      rfl
  obtain ⟨balances, deductions, requestIndex, requestCounter⟩ := hcm
  obtain ⟨_, rfl, rfl, rfl⟩ := h
  exact congrArg (HcmState.mk · _ _ _) hbalances

/-- What the mock HCM does, the server of the tests does, but for the texts of
    errors. -/
theorem route_eq {res : HttpResponse} (hsound : hcm.Sound) (hreq : Sent req)
    (hother : ¬req.isAnniversary)
    (hrespond : HcmController.respond now simulated hcm req = (hcm', res)) :
    ∃ res', route now simulated hcm req = (hcm', res') ∧ res'.Agrees True res := by
  have hstep : (route now simulated hcm req).1.Mirrors True
        (HcmController.respond now simulated hcm req).1 ∧
      (¬req.isAnniversary → (route now simulated hcm req).2.Agrees True
        (HcmController.respond now simulated hcm req).2) :=
    hsound.mirrors.step hreq fun _ => hother
  rw [hrespond] at hstep
  obtain ⟨hmirrors, hagrees⟩ := hstep
  exact ⟨(route now simulated hcm req).2, Prod.ext hmirrors.eq rfl, hagrees hother⟩

namespace HttpResponse.Agrees

variable {res res' : HttpResponse}

/-- Answers that agree name the same deduction. -/
theorem hcmRequestId (h : res'.Agrees exact res) : res'.hcmRequestId = res.hcmRequestId := by
  obtain ⟨status, body⟩ := res
  obtain ⟨status', body'⟩ := res'
  obtain ⟨_, hbody⟩ := h
  cases body' with
  | balance b' =>
    cases body with
    | balance b => rfl
    | _ => cases hbody
  | error message' =>
    cases body with
    | error message => rfl
    | _ => cases hbody
  | _ =>
    obtain rfl := hbody
    rfl

theorem isSuccess (h : res'.Agrees exact res) : res'.isSuccess = res.isSuccess := by
  rw [HttpResponse.isSuccess, HttpResponse.isSuccess, h.1]

/-- If one of them grants it, then so does the other. -/
theorem grants (h : res'.Agrees exact res) (hres : res.Grants id) : res'.Grants id := by
  obtain ⟨hstatus, hbody⟩ := hres
  refine ⟨by rwa [h.isSuccess, h.1], ?_⟩
  have hid : res'.hcmRequestId = some id := by rw [h.hcmRequestId, HttpResponse.hcmRequestId, hbody]
  rw [HttpResponse.hcmRequestId] at hid
  split at hid
  · next hbody' => rw [hbody', Option.some.inj hid]
  · cases hid

theorem refuses (h : res'.Agrees exact res) (hres : res.Refuses) : res'.Refuses := by
  refine ⟨by rw [h.isSuccess]; exact hres.1, fun hstatus => ?_⟩
  rw [h.hcmRequestId]
  exact hres.2 (h.1.symm.trans hstatus)

end HttpResponse.Agrees

/-- The server of the tests meets the contract, since the mock HCM does. -/
theorem route_meets : HcmServer.Meets route where
  deducts {now hcm hcm' key days k id} hsound hk hd := by
    have hreq : Sent (.postRequests key days (some k)) := .deduct fun h => hk (Option.some.inj h)
    obtain ⟨res, hrespond, hres⟩ := HcmController.respond_meets.deducts hsound hk hd
    obtain ⟨res', hroute, hagrees⟩ := route_eq hsound hreq Bool.false_ne_true hrespond
    exact ⟨res', hroute, hagrees.grants hres⟩
  refuses {now hcm key days k e} hsound hk hd := by
    have hreq : Sent (.postRequests key days (some k)) := .deduct fun h => hk (Option.some.inj h)
    obtain ⟨res, hrespond, hres⟩ := HcmController.respond_meets.refuses hsound hk hd
    obtain ⟨res', hroute, hagrees⟩ := route_eq hsound hreq Bool.false_ne_true hrespond
    exact ⟨res', hroute, hagrees.refuses hres⟩
  simulates := by
    refine ⟨⟨500, .error "Simulated HCM error"⟩, rfl, ?_, fun h => ?_⟩
    · exact Bool.false_ne_true
    · cases h
  reverses hsound hid hr := by
    have hreq := Sent.reverse hid.plain.2 hid.plain.1
    obtain ⟨res, hrespond, hres⟩ := HcmController.respond_meets.reverses hsound hid hr
    obtain ⟨res', hroute, hagrees⟩ := route_eq hsound hreq Bool.false_ne_true hrespond
    exact ⟨res', hroute, hagrees.isSuccess.trans hres⟩
  misses hsound hid hnone := by
    have hreq := Sent.reverse hid.plain.2 hid.plain.1
    obtain ⟨res, hrespond, hres⟩ := HcmController.respond_meets.misses hsound hid hnone
    obtain ⟨res', hroute, hagrees⟩ := route_eq hsound hreq Bool.false_ne_true hrespond
    exact ⟨res', hroute, hagrees.1.trans hres⟩

/-! ## Runs -/

/-- A request arrives, at a time, and an error is simulated or not. -/
structure Arrival where
  now : Instant
  simulated : Bool
  request : HttpRequest

/-- Both servers get a request. -/
def both (stores : HcmState × HcmState) (a : Arrival) : Option (HcmState × HcmState) :=
  some ((route a.now a.simulated stores.1 a.request).1,
    (HcmController.respond a.now a.simulated stores.2 a.request).1)

/-- No anniversary has been simulated. -/
def NoAnniversary (hist : List ((HcmState × HcmState) × Arrival)) : Prop :=
  ∀ x ∈ hist, ¬x.2.request.isAnniversary

variable {hist : List ((HcmState × HcmState) × Arrival)} {stores : HcmState × HcmState}

/-- The stores mirror each other after every sequence of requests. -/
theorem mirrors_of_run (hrun : Run both (fun _ a => Sent a.request) (.reset, .reset) hist stores) :
    stores.1.Mirrors (NoAnniversary hist) stores.2 := by
  refine hrun.history (I := fun hist stores => stores.1.Mirrors (NoAnniversary hist) stores.2)
    .reset fun hist stores a stores' _ hmirrors hsent hnext => ?_
  obtain rfl := Option.some.inj hnext
  have hsofar : NoAnniversary (hist ++ [(stores, a)]) → NoAnniversary hist := fun hno x hx =>
    hno x (List.mem_append_left _ hx)
  refine ((hmirrors.mono hsofar).step hsent fun hno => ?_).1
  exact hno (stores, a) (List.mem_append_right _ (List.mem_singleton_self _))

/-- **The server of the tests stands in for the mock HCM.** It meets the contract
    that the service relies on; and after any requests of the service and of its
    tests, whose keys and ids are plain, it answers the next one as the mock HCM
    does, but for the texts of errors and, after an anniversary, the versions of
    balances. -/
theorem stands_in : HcmServer.Meets route ∧
    ∀ hist stores, Run both (fun _ a => Sent a.request) (.reset, .reset) hist stores →
      ∀ now simulated req, Sent req → ¬req.isAnniversary →
        (route now simulated stores.1 req).2.Agrees (NoAnniversary hist)
          (HcmController.respond now simulated stores.2 req).2 :=
  ⟨route_meets, fun _ _ hrun _ _ _ hsent hother =>
    ((mirrors_of_run hrun).step hsent fun _ => hother).2 hother⟩

/-- A deduction of two days, and its reversal. -/
def sampleArrivals : List Arrival :=
  [⟨0, false, .postSeed ⟨1, "LOC1", "ANNUAL"⟩ 10⟩,
    ⟨0, false, .postRequests ⟨1, "LOC1", "ANNUAL"⟩ 2 (some "outbox-0")⟩,
    ⟨0, false, .delete (requestUrl "hcm-1-0")⟩]

/-- A deduction and its reversal, sent to both. -/
theorem stands_in_sample : ∃ hist stores,
    Run both (fun _ a => Sent a.request) (.reset, .reset) hist stores ∧
    stores.2.requestCounter = 1 ∧ stores.2.requestIndex "hcm-1-0" = none ∧
    (route 0 false stores.1 (.get (BalanceKey.mk 1 "LOC1" "ANNUAL").balancePath)).2.Agrees
      (NoAnniversary hist) (HcmController.respond 0 false stores.2
        (.get (BalanceKey.mk 1 "LOC1" "ANNUAL").balancePath)).2 := by
  have hexec : ∃ stores ∈ exec both (.reset, .reset) sampleArrivals,
      stores.2.requestCounter = 1 ∧ stores.2.requestIndex "hcm-1-0" = none := by decide +kernel
  have hsent : ∀ a ∈ sampleArrivals, Sent a.request := by
    simp only [sampleArrivals, List.forall_mem_cons]
    refine ⟨.seed, .deduct (by decide), .reverse (by decide) (by decide), fun a ha => ?_⟩
    cases ha
  obtain ⟨stores, hrun, hreversed⟩ := exists_run_of_exec hsent hexec
  exact ⟨_, stores, hrun, hreversed.1, hreversed.2, stands_in.2 _ stores hrun 0 false _
    (.balance (by decide) (by decide) ⟨by decide, by decide⟩) Bool.false_ne_true⟩

end TimeOff
