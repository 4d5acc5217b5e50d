import TimeOff.Hcm
import TimeOff.Lib.Url

/-!
# The URL of a balance

`HcmClientService.getBalance` writes the employee, the location and the leave
type of a balance into the path of a URL, as they are, and `HcmController` reads
them off it again, decoded. The location and the leave type are any strings that
are not empty, so they may contain what means something in a URL. The balance
asked for is the one found if and only if they do not (`balance_route_iff`).

(`deductBalance` sends the three in a JSON body, which has no such exceptions.)
-/

namespace TimeOff

open Url

/-- The path that `HcmClientService.getBalance` asks for. -/
def BalanceKey.balancePath (key : BalanceKey) : String :=
  s!"/hcm/balances/{key.employeeId}/{key.locationId}/{key.leaveType}"

/-- The parameters of a request to `hcm/balances/:employeeId/:locationId/:leaveType`. -/
structure BalanceParams where
  employeeId : String
  locationId : String
  leaveType : String
  deriving DecidableEq

/-- The parameters that the router of `HcmController` reads off a URL, if it is
    one of balances. -/
def balanceParams (url : String) : Option BalanceParams :=
  match route "/hcm/balances/".toList 3 url.toList with
  | some [employeeId, locationId, leaveType] =>
    some ⟨.ofList employeeId, .ofList locationId, .ofList leaveType⟩
  | _ => none

/-- What is asked for. -/
def BalanceKey.params (key : BalanceKey) : BalanceParams :=
  ⟨toString key.employeeId, key.locationId, key.leaveType⟩

/-- `HcmController.getBalance`, for a URL. -/
def HcmState.getBalanceByUrl (hcm : HcmState) (url : String) : Option BalanceRecord :=
  (balanceParams url).bind fun p => hcm.balances s!"{p.employeeId}:{p.locationId}:{p.leaveType}"

variable {key key' : BalanceKey}

/-- The location and the leave type contain none of `/`, `?`, `#` and `%`. -/
def BalanceKey.Plain (key : BalanceKey) : Prop :=
  Url.Plain key.locationId.toList ∧ Url.Plain key.leaveType.toList

/-- The parameters as they stand in the path. -/
def BalanceKey.segments (key : BalanceKey) : List (List Char) :=
  [Nat.toDigits 10 key.employeeId, key.locationId.toList, key.leaveType.toList]

/-- The path, cut at its slashes. -/
theorem toList_balancePath :
    key.balancePath.toList = "/hcm/balances/".toList ++ ['/'].intercalate key.segments := by
  have hstring : ∀ s : String, toString s = s := fun _ => rfl
  have hslash : "/".toList = ['/'] := rfl
  unfold BalanceKey.balancePath BalanceKey.segments
  simp only [String.toList_append, hstring, toList_toString, hslash, List.intercalate_cons_cons,
    List.intercalate_singleton, List.append_assoc]

theorem BalanceKey.params_inj (h : key.params = key'.params) : key = key' := by
  obtain ⟨hid, hlocation, htype⟩ := BalanceParams.mk.inj h
  have hdigits := congrArg String.toList hid
  rw [toList_toString, toList_toString] at hdigits
  exact BalanceKey.ext (toDigits_injective hdigits) hlocation htype

/-- The digits of a number are plain. -/
theorem plain_digits (n : ℕ) : Url.Plain (Nat.toDigits 10 n) := by
  intro c hc
  have hdigit := Nat.isDigit_of_mem_toDigits (by omega) (by omega) hc
  have hother : ∀ d : Char, isReserved d → ¬d.isDigit := by
    intro d hd
    simp only [isReserved, Bool.or_eq_true, decide_eq_true_eq] at hd
    obtain ((rfl | rfl) | rfl) | rfl := hd <;> decide
  rw [Bool.not_eq_true']
  exact Bool.eq_false_iff.2 fun hreserved => hother c hreserved hdigit

theorem plain_segments_iff : (∀ s ∈ key.segments, Url.Plain s) ↔ key.Plain := by
  simp [BalanceKey.segments, BalanceKey.Plain, plain_digits]

/-- The three parameters are read off one by one. -/
theorem balanceParams_eq_params_iff : balanceParams key.balancePath = some key.params ↔
    route "/hcm/balances/".toList 3 key.balancePath.toList = some key.segments := by
  rw [balanceParams]
  constructor
  · intro h
    split at h
    · next employeeId locationId leaveType hroute =>
      obtain ⟨hid, hlocation, htype⟩ := BalanceParams.mk.inj (Option.some.inj h)
      rw [hroute, BalanceKey.segments, ← toList_toString, ← hid, ← hlocation, ← htype]
      simp only [String.toList_ofList]
    · cases h
  · intro h
    rw [h, BalanceKey.params, ← String.ofList_toList (s := toString key.employeeId),
      toList_toString]
    simp only [BalanceKey.segments, String.ofList_toList]

/-- The URL of a balance leads to the parameters it has been made of if and only
    if its key is plain. -/
theorem balanceParams_iff (hlocation : key.locationId ≠ "") (htype : key.leaveType ≠ "") :
    balanceParams key.balancePath = some key.params ↔ key.Plain := by
  have hbase : ∀ c ∈ "/hcm/balances/".toList, c ≠ '?' ∧ c ≠ '#' := by
    have hall : "/hcm/balances/".toList.all fun c => c ≠ '?' ∧ c ≠ '#' := by decide
    exact fun c hc => of_decide_eq_true (List.all_eq_true.1 hall c hc)
  have hempty : [] ∉ key.segments := by
    intro h
    rcases List.mem_cons.1 h with h | h
    · exact Nat.toDigits_ne_nil h.symm
    rcases List.mem_cons.1 h with h | h
    · exact hlocation (String.toList_eq_nil_iff.1 h.symm)
    · exact htype (String.toList_eq_nil_iff.1 (List.mem_singleton.1 h).symm)
  rw [balanceParams_eq_params_iff, toList_balancePath, ← plain_segments_iff]
  exact route_iff hbase (List.cons_ne_nil _ _) hempty

/-- The balance that is asked for, by the path as it is built, is the one that is
    found if and only if its key is plain. So plain keys that differ have URLs
    that differ for the router. -/
theorem balance_route_iff (hlocation : key.locationId ≠ "") (htype : key.leaveType ≠ "") :
    (balanceParams key.balancePath = some key.params ↔ key.Plain) ∧
      (key.Plain → ∀ key' : BalanceKey, key'.locationId ≠ "" → key'.leaveType ≠ "" → key'.Plain →
        balanceParams key'.balancePath = balanceParams key.balancePath → key' = key) := by
  refine ⟨balanceParams_iff hlocation htype, fun hplain k hlocation' htype' hplain' hsame => ?_⟩
  rw [(balanceParams_iff hlocation' htype').2 hplain',
    (balanceParams_iff hlocation htype).2 hplain] at hsame
  exact BalanceKey.params_inj (Option.some.inj hsame)

/-- A slash in the location: the URL is not one of a balance. An escape in it:
    the URL is that of another balance. -/
theorem balance_route_reserved :
    balanceParams (BalanceKey.mk 1 "A/B" "ANNUAL").balancePath = none ∧
      balanceParams (BalanceKey.mk 1 "%41" "ANNUAL").balancePath =
        some (BalanceKey.mk 1 "A" "ANNUAL").params := by
  decide +kernel

theorem balance_route_sample : balanceParams (BalanceKey.mk 1 "LOC 1" "ANNUAL").balancePath =
    some (BalanceKey.mk 1 "LOC 1" "ANNUAL").params :=
  (balance_route_iff (by decide) (by decide)).1.2 ⟨by decide, by decide⟩

/-- The HCM answers for a plain key with the balance of this key. -/
theorem getBalanceByUrl_of_plain (hcm : HcmState) (hlocation : key.locationId ≠ "")
    (htype : key.leaveType ≠ "") (hplain : key.Plain) :
    hcm.getBalanceByUrl key.balancePath = hcm.balances key.hcmKey := by
  rw [HcmState.getBalanceByUrl, (balanceParams_iff hlocation htype).2 hplain, Option.bind_some]
  rfl

end TimeOff
