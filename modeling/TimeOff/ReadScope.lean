import TimeOff.Covered
import TimeOff.Request.Listing

/-!
# Who sees which requests

`getRequest`, `listRequests` and `listTeamRequests` decide each in its own way
which requests a caller sees: on the request it has loaded, by the conditions
of a query, and by the conditions of a join. They agree (`readPaths_agree`).

Two things could come in between. The location of a request might be empty,
which `getRequest` treats as missing and the conditions do not; and the joins
might drop a request that has no employee or no balance, or repeat one. Neither
happens to a request that has been submitted, since the validation of the body
refuses an empty location, and `submitRequest` looks the employee up and
reserves the days on the balance; and nothing takes these away again
(`Database.Linked`, `linked_of_run`).
-/

namespace TimeOff

open Transaction Transition Pagination

variable {cfg : Config} {db db' db'' : Database} {s s' : State} {a : Action} {id : ℕ}
  {r : TimeOffRequest} {t t' : Session} {caller : RequestUser} {query : ListRequestsQueryDto}
  {status : Option RequestStatus}

/-! ## What only a submission changes -/

/-- No request is added, or gets another key; no employee changes, and no
    balance is removed. -/
structure Database.Kept (db db' : Database) : Prop where
  employees : db'.employees = db.employees
  nextId : db'.requests.nextId = db.requests.nextId
  requests : ∀ id r', db'.requests.get id = some r' →
    ∃ r, db.requests.get id = some r ∧ r'.toBalanceKey = r.toBalanceKey
  balances : ∀ key, db.balances.Has key → db'.balances.Has key

namespace Database.Kept

/-- A step that leaves the three tables alone. -/
theorem of_eq (hemployees : db'.employees = db.employees) (hrequests : db'.requests = db.requests)
    (hbalances : db'.balances = db.balances) : db.Kept db' where
  employees := hemployees
  nextId := by rw [hrequests]
  requests _ r' hr' := ⟨r', by rw [← hrequests, hr'], rfl⟩
  balances _ h := by rwa [hbalances]

theorem refl (db : Database) : db.Kept db := of_eq rfl rfl rfl

/-- What two steps keep, one after the other. -/
theorem trans (h : db.Kept db') (h' : db'.Kept db'') : db.Kept db'' where
  employees := h'.employees.trans h.employees
  nextId := h'.nextId.trans h.nextId
  requests id r'' hr'' := by
    obtain ⟨r', hr', hk'⟩ := h'.requests id r'' hr''
    obtain ⟨r, hr, hk⟩ := h.requests id r' hr'
    exact ⟨r, hr, hk'.trans hk⟩
  balances key hhas := h'.balances key (h.balances key hhas)

/-- A request that is updated stays with its key. -/
theorem updateRequest (db : Database) (id : ℕ) {f : TimeOffRequest → TimeOffRequest}
    (hf : ∀ r, (f r).toBalanceKey = r.toBalanceKey) : db.Kept (db.updateRequest id f) where
  employees := rfl
  nextId := rfl
  requests i r' hr' := by
    rcases Table.get_update_eq_some.1 hr' with ⟨rfl, r, hr, rfl⟩ | ⟨_, hr⟩
    · exact ⟨r, hr, hf r⟩
    · exact ⟨r', hr, rfl⟩
  balances _ h := h

/-- So does a balance. -/
theorem updateBalance (db : Database) (key : BalanceKey) {f : LeaveBalance → LeaveBalance}
    (hf : ∀ b, (f b).toBalanceKey = b.toBalanceKey) : db.Kept (db.updateBalance key f hf) where
  employees := rfl
  nextId := rfl
  requests _ r' hr' := ⟨r', hr', rfl⟩
  balances _ h := h.map fun i b hb =>
    ⟨_, by rw [balances_updateBalance, KeyedTable.get_updateKey, hb, Option.map_some],
      by split <;> simp [hf]⟩

theorem move (db : Database) (id : ℕ) (target : RequestStatus) (x : ExtraFields) :
    db.Kept (db.updateRequest id (·.move target x)) :=
  updateRequest db id fun _ => rfl

/-- A sync touches balances only, and deletes none. -/
theorem synced (h : Synced db db') : db.Kept db' where
  employees := h.employees
  nextId := by rw [h.requests]
  requests _ r' hr' := ⟨r', by rw [← h.requests, hr'], rfl⟩
  balances _ hhas := hhas.map fun i b hb => by
    obtain ⟨b', hb', hsame⟩ := h.balances.kept i b hb
    exact ⟨b', hb', hsame.key⟩

/-- The completion of a deduction updates one request and one balance. -/
theorem complete {hcmRequestId : String}
    (hrun : (completeDeductionFromOutbox id hcmRequestId).run t = .ok r t') : t.db.Kept t'.db := by
  obtain ⟨r₀, _, ⟨_, rfl⟩ | ⟨_, hdb, _⟩ | ⟨_, hdb, _⟩⟩ := completeDeductionFromOutbox_ok hrun
  · exact .refl _
  · rw [hdb]
    exact .updateRequest _ _ fun _ => rfl
  · rw [hdb]
    exact (Kept.move _ _ _ _).trans (.updateBalance _ _ _)

theorem fail (hrun : (failRequestFromOutbox id).run t = .ok r t') : t.db.Kept t'.db := by
  obtain ⟨r₀, _, ⟨_, rfl⟩ | ⟨_, hdb, _⟩⟩ := failRequestFromOutbox_ok hrun
  · exact .refl _
  · rw [hdb]
    exact .move _ _ _ _

/-- A handler does no more than that. -/
theorem handled {now : Instant} {hcm hcm' : HcmState} {h : Handler} {p : Progress}
    (hh : Handled cfg now db hcm h db' hcm' p) : db.Kept db' := by
  cases hh with
  | completed _ hrun =>
    obtain ⟨r, t, hcomplete, hdb, _⟩ := deductTransaction_ok hrun
    have hkept : db.Kept t.db := complete hcomplete
    rw [hdb]
    exact hkept.trans (.of_eq rfl rfl rfl)
  | recorded _ hrun =>
    rcases handleEventFailure_ok hrun with ⟨_, hdb⟩ | ⟨_, _, hdb⟩ | ⟨_, _, r, t, hfail, hdb⟩
    · exact .of_eq (by rw [hdb]; rfl) (by rw [hdb]; rfl) (by rw [hdb]; rfl)
    · exact .of_eq (by rw [hdb]; rfl) (by rw [hdb]; rfl) (by rw [hdb]; rfl)
    · have hkept : db.Kept t.db := .of_eq (by rw [hdb]; rfl) (by rw [hdb]; rfl) (by rw [hdb]; rfl)
      exact hkept.trans (fail hfail)
  | _ => exact .of_eq rfl rfl rfl

end Database.Kept

/-- A step that is not a submission keeps the requests where they are. -/
theorem Stepped.kept (hstep : Stepped cfg s a s')
    (ha : ∀ dto caller, a ≠ .submitRequest dto caller) : s.db.Kept s'.db := by
  cases hstep with
  | submit _ _ _ _ => exact absurd rfl (ha _ _)
  | approve _ _ _ _ _ _ => exact (Database.Kept.move _ _ _ _).trans (.of_eq rfl rfl rfl)
  | reject _ _ _ _ _ _ => exact (Database.Kept.move _ _ _ _).trans (.updateBalance _ _ _)
  | @cancel n c r _ _ _ _ _ =>
    have hevent : s.db.Kept (cancelEvent s.now c s.db) := by
      rw [cancelEvent]
      split <;> exact .of_eq rfl rfl rfl
    exact (hevent.trans (.updateBalance _ _ _)).trans (.move _ _ _ _)
  | complete hrun => exact .complete hrun
  | fail hrun => exact .fail hrun
  | sync _ hsync => exact .synced hsync
  | handle _ _ hh => exact .handled (Handler.step_handled hh)
  | _ => exact .of_eq rfl rfl rfl

/-! ## Requests have an employee, a balance and a location -/

/-- What the validation of the body checks, apart from the dates. -/
structure SubmitRequestDto.Valid (dto : SubmitRequestDto) : Prop where
  employeeId : 0 < dto.employeeId
  locationId : dto.locationId ≠ ""
  leaveType : dto.leaveType ≠ ""

/-- The body of a submission has been validated. -/
def Action.Valid : Action → Prop
  | .submitRequest dto _ => dto.Valid
  | _ => True

/-- What a request refers to is there, and its location is not empty. -/
structure Database.HasParts (db : Database) (key : BalanceKey) : Prop where
  employee : ∃ e, db.employees.get key.employeeId = some e
  balance : db.balances.Has key
  location : key.locationId ≠ ""

/-- What all requests refer to is there. -/
structure Database.Linked (db : Database) : Prop where
  numbered : db.Numbered
  nextId : 0 < db.requests.nextId
  parts : ∀ id r, db.requests.get id = some r → db.HasParts r.toBalanceKey

/-- No request has been written; the first one gets the id `1`, or a later one. -/
structure Database.NoRequests (db : Database) : Prop where
  nextId : 0 < db.requests.nextId
  requests : ∀ id, db.requests.get id = none

theorem Database.NoRequests.linked (h : db.NoRequests) : db.Linked where
  numbered := h.requests 0
  nextId := h.nextId
  parts id r hr := by rw [h.requests] at hr; cases hr

theorem Database.HasParts.kept {key : BalanceKey} (h : db.HasParts key) (hkept : db.Kept db') :
    db'.HasParts key where
  employee := by rw [hkept.employees]; exact h.employee
  balance := hkept.balances key h.balance
  location := h.location

theorem Database.HasParts.insertRequest {key : BalanceKey} (h : db.HasParts key) :
    (db.insertRequest r).HasParts key := ⟨h.employee, h.balance, h.location⟩

/-- What links the rows is kept with them. -/
theorem Database.Linked.kept (h : db.Linked) (hkept : db.Kept db') : db'.Linked where
  numbered := by
    cases h0 : db'.requests.get 0 with
    | none => exact h0
    | some r' =>
      obtain ⟨r, hr, _⟩ := hkept.requests 0 r' h0
      rw [h.numbered] at hr
      cases hr
  nextId := by rw [hkept.nextId]; exact h.nextId
  parts id r' hr' := by
    obtain ⟨r, hr, hk⟩ := hkept.requests id r' hr'
    rw [hk]
    exact (h.parts id r hr).kept hkept

/-- A submission links the request it writes. -/
theorem Database.Linked.submit {today : Instant} {dto : SubmitRequestDto} (h : t.db.Linked)
    (hdto : dto.Valid) (hrun : (submitRequest today dto caller).run t = .ok r t') :
    t'.db.Linked := by
  obtain ⟨days, i, b, _, hb, hk, _, hdb, _⟩ := submitRequest_ok hrun
  obtain ⟨hrole, _, _, _, _, htransaction⟩ := submitRequest_checked hrun
  rw [submitTransaction, bind_eq_ok] at htransaction
  obtain ⟨_, _, hscope, _⟩ := htransaction
  obtain ⟨hemployee, _⟩ := ensureEmployeeScope_ok hrole hscope
  have hreserve : t.db.Kept (t.db.reserve dto.toBalanceKey days) := .updateBalance _ _ _
  have hnew : t.db.HasParts dto.toBalanceKey := ⟨hemployee, ⟨i, b, hb, hk⟩, hdto.locationId⟩
  have hlinked : (t.db.reserve dto.toBalanceKey days).Linked := h.kept hreserve
  rw [hdb]
  refine ⟨?_, Nat.succ_pos _, fun id r' hr' => ?_⟩
  · rw [Numbered, requests_insertRequest, Table.get_insert, if_neg hlinked.nextId.ne]
    exact hlinked.numbered
  · rcases Table.get_insert_eq_some.1 hr' with ⟨_, rfl⟩ | hr'
    · exact (hnew.kept hreserve).insertRequest
    · exact (hlinked.parts id r' hr').insertRequest

/-- Every step of the system keeps the rows linked; a submission links its own. -/
theorem linked_step (h : s.db.Linked) (ha : a.Valid) (hnext : step cfg s a = some s') :
    s'.db.Linked := by
  cases a with
  | submitRequest dto caller =>
    obtain rfl := Option.some.inj hnext
    rw [State.commit]
    rcases transaction_cases (submitRequest (localMidnight cfg.utcOffset s.now) dto caller) s.db
      with ⟨r, t, hrun, ht⟩ | ⟨e, t, _, ht⟩ <;> rw [ht]
    · exact Database.Linked.submit (t := .start s.db) h ha hrun
    · exact h
  | _ => exact h.kept ((step_stepped hnext).kept (by simp))

theorem linked_of_run {s₀ : State} {h : List (State × Action)} (hdb : s₀.db.NoRequests)
    (hrun : Run (step cfg) (fun _ a => a.Valid) s₀ h s) : s.db.Linked :=
  hrun.invariant (I := fun s => s.db.Linked) hdb.linked
    fun _ _ _ hlinked ha hnext => linked_step hlinked ha hnext

/-! ## The read paths -/

/-- `getRequest` returns the request `r`. -/
def Gets (caller : RequestUser) (db : Database) (id : ℕ) (r : TimeOffRequest) : Prop :=
  ∃ t, (getRequest id caller).run (.start db) = .ok r t

/-- `listRequests`, followed over all pages of a database, returns `rows`. -/
def Lists (query : ListRequestsQueryDto) (caller : RequestUser) (db : Database)
    (rows : List (ℕ × TimeOffRequest)) : Prop :=
  ∃ n pages, listPages query caller (List.replicate n db) = some pages ∧ Ended pages ∧
    allRows pages = rows

/-- The status of a request is the one that is asked for, if any is. -/
def HasStatus (status : Option RequestStatus) (r : TimeOffRequest) : Prop :=
  ∀ st ∈ status, r.status = st

theorem hasStatus_iff : HasStatus status r ↔ status.all (r.status = ·) := by
  rw [HasStatus, Option.all_eq_true]
  simp only [decide_eq_true_eq, Option.mem_def]

/-- A location that is not empty is that of the caller. -/
theorem hasLocation_iff {locationId : String} (hlocation : locationId ≠ "") :
    caller.hasLocation locationId ↔ caller.locationId = some locationId := by
  rw [RequestUser.hasLocation]
  cases caller.locationId with
  | none => simp
  | some l =>
    simp only [Bool.and_eq_true, decide_eq_true_eq, Option.some.injEq]
    exact ⟨And.right, fun h => ⟨h ▸ hlocation, h⟩⟩

/-- The check of the scope passes if the caller sees the request. -/
theorem ensureRequestScope_eq_ok {u : Unit} (hlocation : r.locationId ≠ "") :
    (ensureRequestScope r caller).run t = .ok u t' ↔ caller.Sees r ∧ t' = t := by
  rw [ensureRequestScope, RequestUser.Sees]
  cases caller.role with
  | admin =>
    change _ ↔ True ∧ t' = t
    rw [true_and]
    exact pure_eq_ok.trans ⟨fun h => h.2.symm, fun h => ⟨rfl, h.symm⟩⟩
  | manager =>
    change _ ↔ caller.locationId = some r.locationId ∧ t' = t
    rw [← hasLocation_iff hlocation]
    exact check_eq_ok
  | employee => exact check_eq_ok

/-- `getRequest` returns the requests that its caller is meant to see. -/
theorem gets_iff (h : db.Linked) :
    Gets caller db id r ↔ db.requests.get id = some r ∧ caller.Sees r := by
  constructor
  · rintro ⟨t, hrun⟩
    rw [getRequest, bind_eq_ok] at hrun
    obtain ⟨request, s₁, hfind, hrun⟩ := hrun
    obtain ⟨hr, rfl⟩ := findOrFail_ok hfind
    rw [bind_eq_ok] at hrun
    obtain ⟨u, s₂, hscope, hrun⟩ := hrun
    obtain ⟨rfl, rfl⟩ := pure_eq_ok.1 hrun
    exact ⟨hr, ((ensureRequestScope_eq_ok (h.parts id _ hr).location).1 hscope).1⟩
  · rintro ⟨hr, hsees⟩
    have hscope := (ensureRequestScope_eq_ok (u := ()) (t := .start db)
      (h.parts id r hr).location).2 ⟨hsees, rfl⟩
    exact ⟨.start db, bind_eq_ok.2 ⟨r, _, findOrFail_run hr, bind_eq_ok.2 ⟨(), _, hscope, rfl⟩⟩⟩

variable {rows : List (ℕ × TimeOffRequest)}

/-- Whatever is asked for, no list shows more than the caller is meant to see. -/
theorem sees_of_matching (hrows : matching query caller db = some rows) (hr : (id, r) ∈ rows) :
    db.requests.get id = some r ∧ caller.Sees r ∧ HasStatus query.status r := by
  obtain ⟨hget, hsees, _, _, hstatus⟩ := (mem_matching hrows).1 hr
  exact ⟨hget, hsees, hstatus⟩

/-- Without further filters, a query asks for a status only. -/
theorem asks_unfiltered (hemployee : query.employeeId = none)
    (hlocation : query.locationId = none) :
    query.Asks caller r ↔ HasStatus query.status r := by
  rw [ListRequestsQueryDto.Asks, hemployee, hlocation]
  exact ⟨fun h => h.2.2, fun h => ⟨fun _ _ hid => (Option.not_mem_none _ hid).elim,
    fun _ hl => (Option.not_mem_none _ hl).elim, h⟩⟩

/-- A query without further filters is not refused. -/
theorem matching_ne_none (hemployee : query.employeeId = none)
    (hlocation : query.locationId = none) : matching query caller db ≠ none := by
  rw [matching, listWhere, hlocation, roleWhere, hemployee]
  cases caller.role <;> exact Option.some_ne_none _

/-- Without filters the list is what the caller sees, with the status that is
    asked for. -/
theorem matching_unfiltered (hemployee : query.employeeId = none)
    (hlocation : query.locationId = none) : ∃ rows, matching query caller db = some rows ∧
      ∀ id r, (id, r) ∈ rows ↔
        db.requests.get id = some r ∧ caller.Sees r ∧ HasStatus query.status r := by
  have hadmitted : matching query caller db ≠ none := matching_ne_none hemployee hlocation
  obtain ⟨rows, hrows⟩ := Option.ne_none_iff_exists'.1 hadmitted
  refine ⟨rows, hrows, fun id r => ?_⟩
  rw [mem_matching hrows, asks_unfiltered hemployee hlocation]

/-- The pages give what matches. -/
theorem lists_of_matching (hlimit : 1 ≤ query.pageLimit) (hdb : db.Numbered)
    (hrows : matching query caller db = some rows) : Lists query caller db rows := by
  have hadmitted : matching query caller db ≠ none := by
    rw [hrows]
    exact Option.some_ne_none _
  obtain ⟨n, pages, hpages, hended⟩ : ∃ n pages,
      listPages query caller ((List.range n).map fun _ => db) = some pages ∧ Ended pages :=
    exists_listPages (fun _ => hdb) (fun _ => rfl) fun _ => hadmitted
  rw [List.map_const', List.length_range] at hpages
  have hall := (listPages_exact hlimit hdb hpages hended).1
  exact ⟨n, pages, hpages, hended, Option.some.inj (hall.symm.trans hrows)⟩

/-! ## Teams -/

/-- Every request has one employee and one balance: the joins neither drop nor
    repeat it. -/
theorem teamRows_requests (h : db.Linked) :
    (teamRows db).map (·.1.1) = db.requests.rows := by
  have hbalances : ∀ re ∈ innerJoin (fun r e => e.1 = r.2.employeeId) db.requests.rows
      db.employees.rows, ∃ b, db.balances.rows.filter
        (fun b => b.2.toBalanceKey = re.1.2.toBalanceKey) = [b] := by
    intro re hre
    have hr := Table.mem_rows.1 (mem_innerJoin.1 hre).1
    obtain ⟨i, b, hb, hk⟩ := (h.parts _ _ hr).balance
    exact ⟨(i, b), Table.filter_rows hb (decide_eq_true hk) fun j c hc hkc =>
      db.balances.unique hc hb ((of_decide_eq_true hkc).trans hk.symm)⟩
  have hemployees : ∀ r ∈ db.requests.rows, ∃ e, db.employees.rows.filter
      (fun e => e.1 = r.2.employeeId) = [e] := by
    intro r hr
    obtain ⟨e, he⟩ := (h.parts _ _ (Table.mem_rows.1 hr)).employee
    exact ⟨(r.2.employeeId, e), Table.filter_rows he (decide_eq_true rfl) fun j _ _ hj =>
      of_decide_eq_true hj⟩
  have hsplit : (teamRows db).map (·.1.1) = ((teamRows db).map Prod.fst).map Prod.fst := by
    rw [List.map_map]
    rfl
  rw [hsplit, teamRows, map_fst_innerJoin hbalances, map_fst_innerJoin hemployees]

theorem teamWhere_iff (hrole : caller.role = .manager ∨ caller.role = .admin) :
    teamWhere caller status r ↔ caller.Sees r ∧ HasStatus status r := by
  rw [teamWhere, Bool.and_eq_true, ← hasStatus_iff, decide_eq_true_eq, RequestUser.Sees]
  rcases hrole with hrole | hrole <;> simp [hrole, sqlEq_iff]

/-- `listTeamRequests` returns the requests that its caller is meant to see,
    each once. -/
theorem listTeamRequests_run (h : db.Linked) (times : ℕ → Timestamps)
    (hrole : caller.role = .manager ∨ caller.role = .admin) :
    ∃ team, (listTeamRequests times caller status).run (.start db) = .ok team (.start db) ∧
      (team.map (·.id)).Nodup ∧ ∀ id, id ∈ team.map (·.id) ↔
        ∃ r, db.requests.get id = some r ∧ caller.Sees r ∧ HasStatus status r := by
  have hassert : (assertManagerOrAdmin caller
      "Only managers or admins can view team requests").run (.start db) = .ok () (.start db) := by
    rw [assertManagerOrAdmin, if_pos hrole]
    rfl
  refine ⟨_, bind_eq_ok.2 ⟨(), _, hassert, rfl⟩, ?_⟩
  -- The join has one row for each request, since the employee and the balance of each
  -- exist, so that nothing is lost or doubled by it.
  have hids : ((((teamRows db).filter fun row => teamWhere caller status row.1.1.2).map
      (·.select times)).mergeSort fun x y => y.createdAt ≤ x.createdAt).map (·.id) |>.Perm
      ((db.requests.rows.filter fun r => teamWhere caller status r.2).map Prod.fst) := by
    refine ((List.mergeSort_perm _ _).map _).trans (List.Perm.of_eq ?_)
    rw [← teamRows_requests h, List.filter_map, List.map_map, List.map_map]
    rfl
  refine ⟨hids.nodup_iff.2 (Table.nodup_rows.sublist (List.filter_sublist.map _)), fun id =>
    hids.mem_iff.trans ?_⟩
  rw [List.mem_map]
  constructor
  · rintro ⟨⟨_, r⟩, hr, rfl⟩
    obtain ⟨hr, hwhere⟩ := List.mem_filter.1 hr
    exact ⟨r, Table.mem_rows.1 hr, (teamWhere_iff hrole).1 hwhere⟩
  · rintro ⟨r, hr, hwhere⟩
    exact ⟨(id, r), List.mem_filter.2 ⟨Table.mem_rows.2 hr, (teamWhere_iff hrole).2 hwhere⟩, rfl⟩

/-! ## They agree -/

/-- In every database that the service reaches from one without requests, and
    for every caller and status: `listRequests` with only that status returns
    the requests of that status that `getRequest` returns; with any other filter
    besides it returns a part of them, or throws; and `listTeamRequests` returns
    the same to a manager or an administrator, each once. -/
theorem readPaths_agree {s₀ : State} {h : List (State × Action)} (hdb : s₀.db.NoRequests)
    (hrun : Run (step cfg) (fun _ a => a.Valid) s₀ h s) (caller : RequestUser)
    (status : Option RequestStatus) :
    (∀ limit : Option ℕ, 1 ≤ limit.getD 20 →
      ∃ rows, Lists { status := status, limit := limit } caller s.db rows ∧
        ∀ id r, (id, r) ∈ rows ↔ Gets caller s.db id r ∧ HasStatus status r) ∧
    (∀ query : ListRequestsQueryDto, query.status = status → 1 ≤ query.pageLimit →
      (∃ rows, Lists query caller s.db rows ∧
        ∀ id r, (id, r) ∈ rows → Gets caller s.db id r ∧ HasStatus status r) ∨
      ∀ cursor, fetchPage query caller s.db cursor = none) ∧
    (caller.role = .manager ∨ caller.role = .admin → ∀ times,
      ∃ team, (listTeamRequests times caller status).run (.start s.db) = .ok team (.start s.db) ∧
        (team.map (·.id)).Nodup ∧
        ∀ id, id ∈ team.map (·.id) ↔ ∃ r, Gets caller s.db id r ∧ HasStatus status r) := by
  -- All three paths are compared with what the caller sees; that the rows are linked makes
  -- this of use.
  have hlinked := linked_of_run hdb hrun
  refine ⟨fun limit hlimit => ?_, fun query hstatus hlimit => ?_, fun hrole times => ?_⟩
  · obtain ⟨rows, hrows, hmem⟩ :=
      @matching_unfiltered s.db caller { status := status, limit := limit } rfl rfl
    refine ⟨rows, lists_of_matching hlimit hlinked.numbered hrows, fun id r => ?_⟩
    rw [hmem, gets_iff hlinked, and_assoc]
  · cases hrows : matching query caller s.db with
    | none => exact .inr fun cursor => by rw [(serves hlinked.numbered).fetch, hrows]; rfl
    | some rows =>
      refine .inl ⟨rows, lists_of_matching hlimit hlinked.numbered hrows, fun id r hr => ?_⟩
      obtain ⟨hget, hsees, hst⟩ := sees_of_matching hrows hr
      exact ⟨(gets_iff hlinked).2 ⟨hget, hsees⟩, hstatus ▸ hst⟩
  · obtain ⟨team, hteam, hnodup, hmem⟩ := listTeamRequests_run hlinked times hrole
    refine ⟨team, hteam, hnodup, fun id => (hmem id).trans (exists_congr fun r => ?_)⟩
    rw [gets_iff hlinked, and_assoc]

/-- The manager sees the request that the employee has submitted. -/
theorem readPaths_agree_sample : ∃ h s, Run (step sampleConfig) (fun _ a => a.Valid)
    (.start { sampleDb 10 with requests := noRequests } (sampleHcm 10) 0) h s ∧
      ∃ team, (listTeamRequests (fun _ => ⟨0, 0⟩) sampleManager none).run (.start s.db) =
        .ok team (.start s.db) ∧ 1 ∈ team.map (·.id) := by
  have hexec : ∃ s ∈ exec (step sampleConfig)
      (.start { sampleDb 10 with requests := noRequests } (sampleHcm 10) 0) [sampleSubmit 2],
      (s.db.requests.get 1).any fun r => r.locationId = "LOC1" := by decide +kernel
  have hvalid : ∀ a ∈ [sampleSubmit 2], a.Valid := by
    intro a ha
    rw [List.mem_singleton.1 ha]
    exact ⟨by decide, by decide, by decide⟩
  obtain ⟨s, hrun, hs⟩ := exists_run_of_exec hvalid hexec
  obtain ⟨r, hr, hlocation⟩ := (Option.any_eq_true _ _).1 hs
  have hdb : Database.NoRequests { sampleDb 10 with requests := noRequests } :=
    ⟨Nat.one_pos, fun _ => rfl⟩
  have hsees : sampleManager.Sees r := congrArg some (of_decide_eq_true hlocation).symm
  obtain ⟨_, _, hteam⟩ := readPaths_agree hdb hrun sampleManager none
  obtain ⟨team, hteam, _, hmem⟩ := hteam (.inl rfl) fun _ => ⟨0, 0⟩
  have hgets := (gets_iff (linked_of_run hdb hrun)).2 ⟨hr, hsees⟩
  exact ⟨_, s, hrun, team, hteam, (hmem 1).2 ⟨r, hgets, by simp [HasStatus]⟩⟩

end TimeOff
