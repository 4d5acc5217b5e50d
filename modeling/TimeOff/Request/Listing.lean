import TimeOff.Hcm
import TimeOff.Lib.Join
import TimeOff.Lib.Pagination
import TimeOff.Request.Effects

/-!
# Reading requests

The operations of `RequestService` that only read: `getRequest`, one request;
`listRequests`, a page of the requests that meet the conditions of a query
(`ListRequestsQueryDto`); `listTeamRequests`, the requests joined with their
employees and balances.

Conditions are SQL. A caller without a location header has the location
`undefined`, which equals that of no row (`sqlEq`).

The pages of `listRequests` are those of `Pagination`, with the id as the key
(`serves`): a caller who passes on `nextCursor` until there is none gets every
matching request once, in the order of the ids (`listRequests_pages`).
-/

namespace TimeOff

open Transaction Pagination
open HcmState (truthy)

/-- `getRequest` -/
def getRequest (id : ℕ) (caller : RequestUser) : Tx TimeOffRequest := do
  let request ← findOrFail id
  ensureRequestScope request caller
  pure request

/-! ## Lists -/

/-- `ListRequestsQueryDto`. The numbers are positive ones. -/
structure ListRequestsQueryDto where
  employeeId : Option ℕ := none
  status : Option RequestStatus := none
  locationId : Option String := none
  cursor : Option ℕ := none
  limit : Option ℕ := none

/-- `column = :parameter`. Nothing equals an undefined parameter. -/
def sqlEq (column : String) (parameter : Option String) : Bool := parameter = some column

/-- A `FindOptionsWhere<TimeOffRequest>`: the columns it compares. -/
structure RequestWhere where
  employeeId : Option ℕ := none
  /-- The location it is compared with may be undefined. -/
  locationId : Option (Option String) := none
  status : Option RequestStatus := none

/-- The row meets the conditions. -/
def RequestWhere.holds (w : RequestWhere) (r : TimeOffRequest) : Bool :=
  w.employeeId.all (r.employeeId = ·) && w.locationId.all (sqlEq r.locationId) &&
    w.status.all (r.status = ·)

/-- The condition of a number of the query: `0` is none. -/
def truthyNumber (n : Option ℕ) : Option ℕ := n.filter (· ≠ 0)

/-- The conditions of `listRequests` that depend on the role of the caller. -/
def roleWhere (query : ListRequestsQueryDto) (caller : RequestUser) : Tx RequestWhere :=
  match caller.role with
  | .employee => pure { employeeId := some caller.employeeId }
  | .manager =>
    match truthyNumber query.employeeId with
    | some employeeId => do
      let employee ← findEmployeeOrFail employeeId
      if some employee.locationId ≠ caller.locationId then
        throw (.forbidden "Manager scope does not cover this employee")
      else pure { locationId := some caller.locationId, employeeId := some employeeId }
    | none => pure { locationId := some caller.locationId }
  | .admin => pure { employeeId := truthyNumber query.employeeId }

/-- The conditions of `listRequests`. -/
def listWhere (query : ListRequestsQueryDto) (caller : RequestUser) : Tx RequestWhere := do
  let byRole ← roleWhere query caller
  let byStatus := { byRole with status := query.status }
  match truthy query.locationId with
  | some locationId =>
    if caller.role = .manager ∧ caller.locationId ≠ some locationId then
      throw (.forbidden "Manager scope does not cover this location")
    else pure { byStatus with locationId := some (some locationId) }
  | none => pure byStatus

/-- `limit`, which is `20` by default. -/
def ListRequestsQueryDto.pageLimit (query : ListRequestsQueryDto) : ℕ := query.limit.getD 20

/-- `listRequests` -/
def listRequests (query : ListRequestsQueryDto) (caller : RequestUser) :
    Tx (Page (ℕ × TimeOffRequest) ℕ) := do
  let w ← listWhere query caller
  let rows := (← get).db.requests.rows.filter fun r => w.holds r.2
  pure (page Prod.fst query.pageLimit (truthyNumber query.cursor) rows)

/-! ## Teams -/

/-- What the database keeps by itself for each request. -/
structure Timestamps where
  createdAt : Instant
  updatedAt : Instant

/-- A row of `listTeamRequests`. -/
structure TeamRequest extends TimeOffRequest, Timestamps where
  id : ℕ
  employeeName : String
  effectiveAvailableAtSubmission : ℚ

/-- A request, joined with its employee and its balance. -/
abbrev TeamRow := ((ℕ × TimeOffRequest) × (ℕ × Employee)) × (ℕ × LeaveBalance)

/-- What is selected from a row of the joined tables. -/
def TeamRow.select (times : ℕ → Timestamps) (row : TeamRow) : TeamRequest :=
  let ((r, e), b) := row
  { r.2, times r.1 with
    managerId := truthyNumber r.2.managerId
    id := r.1
    employeeName := e.2.name
    effectiveAvailableAtSubmission := b.2.totalDays - b.2.usedDays - b.2.reservedDays }

/-- The requests joined with their employees and balances. -/
def teamRows (db : Database) : List TeamRow :=
  innerJoin (fun re b => b.2.toBalanceKey = re.1.2.toBalanceKey)
    (innerJoin (fun r e => e.1 = r.2.employeeId) db.requests.rows db.employees.rows)
    db.balances.rows

/-- The conditions of `listTeamRequests`. -/
def teamWhere (caller : RequestUser) (status : Option RequestStatus) (r : TimeOffRequest) : Bool :=
  (caller.role = .manager → sqlEq r.locationId caller.locationId) && status.all (r.status = ·)

/-- `listTeamRequests`, with the timestamps of the requests by id. -/
def listTeamRequests (times : ℕ → Timestamps) (caller : RequestUser)
    (status : Option RequestStatus) : Tx (List TeamRequest) := do
  assertManagerOrAdmin caller "Only managers or admins can view team requests"
  let rows := (teamRows (← get).db).filter fun row => teamWhere caller status row.1.1.2
  let ordered := (rows.map (·.select times)).mergeSort fun x y => y.createdAt ≤ x.createdAt
  pure ordered

/-! ## What they do -/

variable {s s' : Session} {db : Database} {query : ListRequestsQueryDto} {caller : RequestUser}
  {cursor : Option ℕ} {w : RequestWhere} {r : TimeOffRequest} {id : ℕ}

/-- A parameter that is `undefined` equals no column. -/
theorem sqlEq_iff {column : String} {parameter : Option String} :
    sqlEq column parameter ↔ parameter = some column := decide_eq_true_iff

/-- The requests that a caller is meant to see: an administrator all of them, a
    manager those of the own location, an employee the own ones. -/
def RequestUser.Sees (caller : RequestUser) (r : TimeOffRequest) : Prop :=
  match caller.role with
  | .admin => True
  | .manager => caller.locationId = some r.locationId
  | .employee => caller.employeeId = r.employeeId

/-- The request is one that the query asks for. An employee can only ask for the
    own ones. -/
def ListRequestsQueryDto.Asks (query : ListRequestsQueryDto) (caller : RequestUser)
    (r : TimeOffRequest) : Prop :=
  (caller.role ≠ .employee → ∀ id ∈ truthyNumber query.employeeId, r.employeeId = id) ∧
    (∀ locationId ∈ truthy query.locationId, r.locationId = locationId) ∧
    ∀ status ∈ query.status, r.status = status

theorem RequestWhere.holds_iff : w.holds r ↔ (∀ id ∈ w.employeeId, r.employeeId = id) ∧
    (∀ locationId ∈ w.locationId, locationId = some r.locationId) ∧
    ∀ status ∈ w.status, r.status = status := by
  rw [RequestWhere.holds, Bool.and_eq_true, Bool.and_eq_true, and_assoc]
  simp only [Option.all_eq_true, decide_eq_true_eq, sqlEq_iff, Option.mem_def]

/-- The conditions of the role. -/
theorem roleWhere_ok (h : (roleWhere query caller).run s = .ok w s') : s' = s ∧ w =
    match caller.role with
    | .employee => { employeeId := some caller.employeeId }
    | .manager => { locationId := some caller.locationId,
                    employeeId := truthyNumber query.employeeId }
    | .admin => { employeeId := truthyNumber query.employeeId } := by
  rw [roleWhere] at h
  split at h
  · obtain ⟨rfl, rfl⟩ := pure_eq_ok.1 h
    exact ⟨rfl, rfl⟩
  · split at h
    · next employeeId hid =>
      rw [bind_eq_ok] at h
      obtain ⟨employee, s₁, hfind, h⟩ := h
      obtain ⟨_, rfl⟩ := findEmployeeOrFail_ok hfind
      split at h
      · exact absurd h throw_ne_ok
      · obtain ⟨rfl, rfl⟩ := pure_eq_ok.1 h
        exact ⟨rfl, by rw [hid]⟩
    · next hid =>
      obtain ⟨rfl, rfl⟩ := pure_eq_ok.1 h
      exact ⟨rfl, by rw [hid]⟩
  · obtain ⟨rfl, rfl⟩ := pure_eq_ok.1 h
    exact ⟨rfl, rfl⟩

/-- The conditions of a query that is not refused: those of the role, and what it
    asks for. -/
theorem listWhere_ok (h : (listWhere query caller).run s = .ok w s') :
    s' = s ∧ ∀ r, w.holds r ↔ caller.Sees r ∧ query.Asks caller r := by
  rw [listWhere, bind_eq_ok] at h
  obtain ⟨byRole, s₁, hrole, h⟩ := h
  obtain ⟨rfl, hbyRole⟩ := roleWhere_ok hrole
  split at h
  · next locationId hlocation =>
    split at h
    · exact absurd h throw_ne_ok
    · next hown =>
      obtain ⟨rfl, rfl⟩ := pure_eq_ok.1 h
      refine ⟨rfl, fun r => ?_⟩
      rw [RequestWhere.holds_iff, RequestUser.Sees, ListRequestsQueryDto.Asks, hlocation, hbyRole]
      cases hcaller : caller.role with
      | employee => simp [eq_comm]
      | manager =>
        -- A manager can only ask for the own location again.
        have hsame : caller.locationId = some locationId :=
          not_not.1 fun hne => hown ⟨hcaller, hne⟩
        simp [hsame, eq_comm, and_left_comm]
      | admin => simp [eq_comm]
  · next hlocation =>
    obtain ⟨rfl, rfl⟩ := pure_eq_ok.1 h
    refine ⟨rfl, fun r => ?_⟩
    rw [RequestWhere.holds_iff, RequestUser.Sees, ListRequestsQueryDto.Asks, hlocation, hbyRole]
    cases caller.role <;> simp [eq_comm, and_left_comm]

/-- The rows that meet the conditions of a query, unless it is refused. -/
def matching (query : ListRequestsQueryDto) (caller : RequestUser) (db : Database) :
    Option (List (ℕ × TimeOffRequest)) :=
  match (listWhere query caller).run (.start db) with
  | .ok w _ => some (db.requests.rows.filter fun r => w.holds r.2)
  | .error _ _ => none

/-- `listRequests`, called with a cursor; none if it throws. -/
def fetchPage (query : ListRequestsQueryDto) (caller : RequestUser) (db : Database)
    (cursor : Option ℕ) : Option (Page (ℕ × TimeOffRequest) ℕ) :=
  match (listRequests { query with cursor := cursor } caller).run (.start db) with
  | .ok p _ => some p
  | .error _ _ => none

/-- The pages that a caller gets who calls `listRequests` without a cursor, and
    again with the `nextCursor` of each page until there is none. The calls find
    the databases `dbs`. None if one of them throws. -/
def listPages (query : ListRequestsQueryDto) (caller : RequestUser) (dbs : List Database) :
    Option (List (Page (ℕ × TimeOffRequest) ℕ)) :=
  traverse (fetchPage query caller) none dbs

/-- `AUTOINCREMENT` gives out the ids from `1` on. -/
def Database.Numbered (db : Database) : Prop := db.requests.get 0 = none

/-- The requests of a new database: the first one will be `1`. -/
def noRequests : Table TimeOffRequest := ⟨1, fun _ => none, fun _ _ => rfl⟩

/-- The rows that match are sorted by their ids. -/
theorem pairwise_matching {rows : List (ℕ × TimeOffRequest)}
    (h : matching query caller db = some rows) : rows.Pairwise (·.1 < ·.1) := by
  rw [matching] at h
  split at h
  · obtain rfl := Option.some.inj h
    exact Table.pairwise_rows.sublist List.filter_sublist
  · cases h

/-- The matching rows are the requests that the caller is meant to see and that
    the query asks for. -/
theorem mem_matching {rows : List (ℕ × TimeOffRequest)} {x : ℕ × TimeOffRequest}
    (h : matching query caller db = some rows) :
    x ∈ rows ↔ db.requests.get x.1 = some x.2 ∧ caller.Sees x.2 ∧ query.Asks caller x.2 := by
  rw [matching] at h
  split at h
  · next w s' hrun =>
    obtain rfl := Option.some.inj h
    rw [List.mem_filter, ← (listWhere_ok hrun).2]
    exact and_congr_left fun _ => Table.mem_rows
  · cases h

/-- `0` as a cursor is ignored, which makes no difference: all ids are above it. -/
theorem page_truthyNumber {rows : List (ℕ × TimeOffRequest)} {limit : ℕ}
    (hpos : ∀ x ∈ rows, 0 < x.1) :
    page Prod.fst limit (truthyNumber cursor) rows = page Prod.fst limit cursor rows := by
  by_cases hzero : cursor = some 0
  · have hafter : after Prod.fst (some 0) rows = rows :=
      List.filter_eq_self.2 fun x hx => decide_eq_true (hpos x hx)
    rw [hzero, page, page, hafter]
    exact congrArg _ (congrArg _ after_none)
  · have hsame : truthyNumber cursor = cursor := by
      cases cursor with
      | none => rfl
      | some n =>
        rw [truthyNumber, Option.filter_some, if_pos]
        exact decide_eq_true fun hn => hzero (congrArg some hn)
    rw [hsame]

/-- `listRequests` serves pages of the matching rows. -/
theorem serves (hdb : db.Numbered) :
    Serves Prod.fst query.pageLimit (fetchPage query caller) (matching query caller) db where
  fetch cursor := by
    have hwhere : listWhere { query with cursor := cursor } caller = listWhere query caller := rfl
    rw [fetchPage, listRequests, matching, hwhere, EStateM.run_bind]
    cases hrun : (listWhere query caller).run (.start db) with
    | error e t => rfl
    | ok w t =>
      obtain ⟨rfl, _⟩ := listWhere_ok hrun
      refine congrArg some (page_truthyNumber fun x hx => ?_)
      have hx : db.requests.get x.1 = some x.2 := Table.mem_rows.1 (List.mem_filter.1 hx).1
      refine Nat.pos_of_ne_zero fun h0 => ?_
      rw [h0, hdb] at hx
      cases hx
  sorted _ h := pairwise_matching h

variable {dbs : List Database} {pages : List (Page (ℕ × TimeOffRequest) ℕ)}

/-- Without new rows there are only so many pages. -/
theorem exists_listPages {dbs : ℕ → Database} (hdbs : ∀ n, (dbs n).Numbered)
    (hsame : ∀ n, (dbs n).requests.nextId = (dbs 0).requests.nextId)
    (hadmitted : ∀ n, matching query caller (dbs n) ≠ none) :
    ∃ n pages, listPages query caller ((List.range n).map dbs) = some pages ∧ Ended pages := by
  have hserves : ∀ db ∈ (List.range ((dbs 0).requests.nextId + 1)).map dbs,
      Serves Prod.fst query.pageLimit (fetchPage query caller) (matching query caller) db := by
    intro db hdb
    obtain ⟨n, _, rfl⟩ := List.mem_map.1 hdb
    exact serves (hdbs n)
  refine ⟨_, exists_traverse (Finset.range (dbs 0).requests.nextId) hserves (fun db hdb => ?_) ?_⟩
  · obtain ⟨n, _, rfl⟩ := List.mem_map.1 hdb
    obtain ⟨rows, hrows⟩ := Option.ne_none_iff_exists'.1 (hadmitted n)
    refine ⟨rows, hrows, fun x hx => Finset.mem_range.2 ?_⟩
    rw [← hsame n]
    exact Table.lt_nextId ((mem_matching hrows).1 hx).1
  · rw [List.length_map, List.length_range]
    exact Nat.lt_succ_of_le ((Finset.card_filter_le _ _).trans_eq (Finset.card_range _))

/-- The pages of a database that does not change are its matching rows. -/
theorem listPages_exact {n : ℕ} (hlimit : 1 ≤ query.pageLimit) (hdb : db.Numbered)
    (hpages : listPages query caller (List.replicate n db) = some pages) (hended : Ended pages) :
    matching query caller db = some (allRows pages) ∧
      ∀ p ∈ pages.dropLast, p.data.length = query.pageLimit := by
  have hserves : ∀ d ∈ List.replicate n db, Serves Prod.fst query.pageLimit
      (fetchPage query caller) (matching query caller) d := by
    intro d hd
    rw [List.eq_of_mem_replicate hd]
    exact serves hdb
  obtain ⟨rows, hrows⟩ : ∃ rows, matching query caller db = some rows := by
    cases n with
    | zero =>
      obtain rfl := Option.some.inj hpages
      exact absurd hended not_ended_nil
    | succ n =>
      obtain ⟨p, hp, _⟩ := traverse_cons hpages
      obtain ⟨rows, hrows, _⟩ := (serves hdb).eq_page hp
      exact ⟨rows, hrows⟩
  obtain ⟨hall, hfull⟩ := traverse_exact hlimit hserves
    (fun d hd => by rw [List.eq_of_mem_replicate hd, hrows]) hpages hended
  rw [hall, after_none]
  exact ⟨hrows, hfull⟩

theorem listPages_increasing (hdbs : ∀ db ∈ dbs, db.Numbered)
    (hpages : listPages query caller dbs = some pages) : (allRows pages).Pairwise (·.1 < ·.1) :=
  (traverse_increasing (fun db hdb => serves (hdbs db hdb)) hpages).1

/-- A request that matches throughout is returned. -/
theorem listPages_complete (hlimit : 1 ≤ query.pageLimit) (hdbs : ∀ db ∈ dbs, db.Numbered)
    (hpages : listPages query caller dbs = some pages) (hended : Ended pages)
    (hthroughout : ∀ db ∈ dbs, ∃ rows r, matching query caller db = some rows ∧ (id, r) ∈ rows) :
    ∃ r, (id, r) ∈ allRows pages := by
  have hkey : ∀ db ∈ dbs, ∀ rows, matching query caller db = some rows →
      ∃ x ∈ rows, x.1 = id := by
    intro db hdb rows hrows
    obtain ⟨rows', r, hrows', hr⟩ := hthroughout db hdb
    obtain rfl := Option.some.inj (hrows.symm.trans hrows')
    exact ⟨(id, r), hr, rfl⟩
  obtain ⟨⟨_, r⟩, hr, rfl⟩ := traverse_complete hlimit (fun db hdb => serves (hdbs db hdb)) hpages
    hended (by simp) hkey
  exact ⟨r, hr⟩

/-- The pages of `listRequests`, for any caller and query and any positive
    limit. As long as no new rows come in, and no call throws, there are finitely
    many; if nothing changes, they are the matching rows, in the order of their
    ids, and all of them but the last are full. Whatever changes, no request
    comes twice, and the ids increase; and if there is an end, a request that
    has been there and has matched throughout has been returned. -/
theorem listRequests_pages (hlimit : 1 ≤ query.pageLimit) :
    (∀ dbs : ℕ → Database, (∀ n, (dbs n).Numbered) →
      (∀ n, (dbs n).requests.nextId = (dbs 0).requests.nextId) →
      (∀ n, matching query caller (dbs n) ≠ none) →
      ∃ n pages, listPages query caller ((List.range n).map dbs) = some pages ∧ Ended pages) ∧
    (∀ db n pages, db.Numbered → listPages query caller (List.replicate n db) = some pages →
      Ended pages → matching query caller db = some (allRows pages) ∧
        ∀ p ∈ pages.dropLast, p.data.length = query.pageLimit) ∧
    (∀ dbs pages, (∀ db ∈ dbs, db.Numbered) → listPages query caller dbs = some pages →
      (allRows pages).Pairwise (·.1 < ·.1) ∧
        (Ended pages → ∀ id,
          (∀ db ∈ dbs, ∃ rows r, matching query caller db = some rows ∧ (id, r) ∈ rows) →
          ∃ r, (id, r) ∈ allRows pages)) :=
  ⟨fun _ => exists_listPages, fun _ _ _ => listPages_exact hlimit, fun _ _ hdbs hpages =>
    ⟨listPages_increasing hdbs hpages, fun hended _ =>
      listPages_complete hlimit hdbs hpages hended⟩⟩

/-! ## A sample -/

/-- A request of the employee `1` for the first day. -/
def sampleRequest (status : RequestStatus) : TimeOffRequest where
  employeeId := 1
  locationId := "LOC1"
  leaveType := "ANNUAL"
  startDate := .ofDay 0
  endDate := .ofDay 0
  daysRequested := 1
  status := status
  managerId := none
  rejectionReason := none
  hcmRequestId := none
  version := 0

/-- A database with the requests `1`, `2` and `3`, of which `2` is rejected. -/
def samplePagesDb : Database where
  employees := .empty
  balances := .empty
  requests := ((noRequests.insert (sampleRequest .pending)).insert
    (sampleRequest .rejected)).insert (sampleRequest .pending)
  outbox := .empty

/-- The pending requests, one a page. -/
def samplePagesQuery : ListRequestsQueryDto := { status := some .pending, limit := some 1 }

def samplePagesCaller : RequestUser := ⟨0, .manager, some "LOC1"⟩

theorem samplePages : ∃ pages,
    listPages samplePagesQuery samplePagesCaller [samplePagesDb, samplePagesDb] = some pages ∧
      Ended pages ∧ (allRows pages).map Prod.fst = [1, 3] :=
  ⟨_, rfl, ⟨_, rfl, rfl⟩, rfl⟩

/-- The requests of the sample, in pages of one. -/
theorem listRequests_pages_sample :
    (∃ n pages, listPages samplePagesQuery samplePagesCaller
      ((List.range n).map fun _ => samplePagesDb) = some pages ∧ Ended pages) ∧
    ∃ rows, matching samplePagesQuery samplePagesCaller samplePagesDb = some rows ∧
      rows.map Prod.fst = [1, 3] := by
  obtain ⟨hends, hexact, _⟩ := @listRequests_pages samplePagesQuery samplePagesCaller (by decide)
  obtain ⟨pages, hpages, hended, hids⟩ := samplePages
  have hmatching := (hexact samplePagesDb 2 pages rfl hpages hended).1
  refine ⟨hends (fun _ => samplePagesDb) (fun _ => rfl) (fun _ => rfl) fun _ => ?_,
    _, hmatching, hids⟩
  rw [hmatching]
  exact Option.some_ne_none _

end TimeOff
