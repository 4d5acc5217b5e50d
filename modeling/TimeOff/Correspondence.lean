import TimeOff.ExactlyOnce

/-!
# Requests and their events

The status of a request and the statuses of its events in the outbox, whatever
the HCM does. `Matched` lists what goes together: a request is not sent, or its
deduction is awaited, or confirmed, or it has been cancelled after it was sent.
Request operations, ticks and retries change the two ends in transactions of
their own and in single updates (`Turn`), and each of them takes a match to a
match (`AllMatched.turn`).

The HCM need not be the mock HCM here: it may be in any state whenever it is
called (`Open`), so that it answers anything (`callDeduct_any`), as long as a
deduction that succeeds has an id.

* `corresponding_of_run`: all is matched, after every run;
* `agreement_of_run`: what this says about a request, its id and its events.
-/

namespace TimeOff

open Transaction Transition

/-- The events of a type for a request. -/
def eventsFor (t : Table OutboxEvent) (type : OutboxEventType) (id : ℕ) : Set (ℕ × OutboxEvent) :=
  {q | t.get q.1 = some q.2 ∧ q.2.eventType = type ∧ q.2.requestId = id}

/-- How a request and its events may match. -/
inductive Matched (t : Table OutboxEvent) (id : ℕ) (r : TimeOffRequest) : Prop
  | unsent : eventsFor t .hcmDeduct id = ∅ → eventsFor t .hcmReverse id = ∅ →
      r.hcmRequestId = none →
      (r.status = .pending ∨ r.status = .rejected ∨ r.status = .cancelled) → Matched t id r
  | awaited {k : ℕ} {e : OutboxEvent} : eventsFor t .hcmDeduct id = {(k, e)} →
      eventsFor t .hcmReverse id = ∅ → e.payload = some r.deductPayload → r.hcmRequestId = none →
      e.status ≠ .done →
      (r.status = .approvedPendingHcm ∧ e.status ≠ .failed ∨ r.status = .failed) → Matched t id r
  | confirmed {k : ℕ} {e : OutboxEvent} : eventsFor t .hcmDeduct id = {(k, e)} →
      eventsFor t .hcmReverse id = ∅ → e.payload = some r.deductPayload →
      r.hcmRequestId ≠ none → e.status = .done → r.status = .approved → Matched t id r
  | cancelled {k k' : ℕ} {e e' : OutboxEvent} : eventsFor t .hcmDeduct id = {(k, e)} →
      eventsFor t .hcmReverse id = {(k', e')} → e.payload = some r.deductPayload →
      (r.hcmRequestId ≠ none ↔ e.status = .done) → (e'.status = .done → e.status = .done) →
      r.status = .cancelled → Matched t id r

/-- Every request matches its events, and every event is for a request. -/
structure AllMatched (db : Database) : Prop where
  request : ∀ id r, db.requests.get id = some r → Matched db.outbox id r
  event : ∀ k e, db.outbox.get k = some e → ∃ r, db.requests.get e.requestId = some r

/-- What a step does to the requests and their events. -/
inductive Turn (db db' : Database) : Prop
  | stay : db'.requests = db.requests → db'.outbox = db.outbox → Turn db db'
  | submit {dto : SubmitRequestDto} {days : ℤ} :
      db'.requests = db.requests.insert (dto.request days) → db'.outbox = db.outbox → Turn db db'
  /-- A request is rejected, or cancelled before it is approved. -/
  | settle {id : ℕ} {r : TimeOffRequest} {target : RequestStatus} {x : ExtraFields} :
      db.requests.get id = some r → r.status = .pending →
      (target = .rejected ∨ target = .cancelled) → x.hcmRequestId = none →
      db'.requests = db.requests.update id (·.move target x) → db'.outbox = db.outbox → Turn db db'
  | approve {id : ℕ} {r : TimeOffRequest} {x : ExtraFields} {now : Instant} :
      db.requests.get id = some r → r.status = .pending → x.hcmRequestId = none →
      db'.requests = db.requests.update id (·.move .approvedPendingHcm x) →
      db'.outbox = db.outbox.insert (deductEvent now id r) → Turn db db'
  | cancel {id : ℕ} {r : TimeOffRequest} {now : Instant} :
      db.requests.get id = some r → r.status = .approvedPendingHcm →
      db'.requests = db.requests.update id (·.move .cancelled {}) →
      db'.outbox = db.outbox.insert (reverseEvent now id) → Turn db db'
  /-- An event is claimed, put off or put back, or a reversal is given up. -/
  | pass {k : ℕ} {e : OutboxEvent} {f : OutboxEvent → OutboxEvent} :
      db.outbox.get k = some e → e.status ≠ .done → e.Same (f e) → (f e).status ≠ .done →
      ((f e).status = .failed → e.eventType = .hcmReverse) →
      db'.requests = db.requests → db'.outbox = db.outbox.update k f → Turn db db'
  /-- A deduction is given up, and its request with it. -/
  | fail {k : ℕ} {e : OutboxEvent} {r : TimeOffRequest} {n : ℕ} :
      db.outbox.get k = some e → e.status ≠ .done → e.eventType = .hcmDeduct →
      db.requests.get e.requestId = some r →
      (r.status ≠ .approvedPendingHcm ∧ db'.requests = db.requests ∨
        r.status = .approvedPendingHcm ∧
          db'.requests = db.requests.update e.requestId (·.move .failed {})) →
      db'.outbox = db.outbox.update k (·.exhaust n) → Turn db db'
  /-- A deduction is confirmed. -/
  | confirm {k : ℕ} {e : OutboxEvent} {r : TimeOffRequest} {hcmRequestId : String}
      {g : TimeOffRequest → TimeOffRequest} :
      db.outbox.get k = some e → e.status ≠ .done → e.eventType = .hcmDeduct →
      db.requests.get e.requestId = some r →
      (r.status = .cancelled ∧ g = (·.stamp hcmRequestId) ∨
        r.status ≠ .cancelled ∧ g = (·.move .approved { hcmRequestId := some hcmRequestId })) →
      db'.requests = db.requests.update e.requestId g →
      db'.outbox = db.outbox.update k (·.setStatus .done) → Turn db db'
  /-- A reversal is confirmed. -/
  | finish {k : ℕ} {e : OutboxEvent} {r : TimeOffRequest} :
      db.outbox.get k = some e → e.eventType = .hcmReverse →
      db.requests.get e.requestId = some r → r.hcmRequestId ≠ none →
      db'.requests = db.requests → db'.outbox = db.outbox.update k (·.setStatus .done) →
      Turn db db'

variable {cfg : Config} {db db' : Database} {t t' : Table OutboxEvent} {id i j k : ℕ}
  {e e' event : OutboxEvent} {r r' : TimeOffRequest} {f : OutboxEvent → OutboxEvent}
  {type : OutboxEventType}

/-! ## Events of a request -/

/-- An event of another request, or of the other type, is not among them. -/
theorem eventsFor_insert_of_ne (hne : ¬(e.eventType = type ∧ e.requestId = id)) :
    eventsFor (t.insert e) type id = eventsFor t type id := by
  ext ⟨k, e'⟩
  constructor
  · rintro ⟨he', htype, hid⟩
    rcases Table.get_insert_eq_some.1 he' with ⟨_, rfl⟩ | he'
    · exact absurd ⟨htype, hid⟩ hne
    · exact ⟨he', htype, hid⟩
  · rintro ⟨he', htype, hid⟩
    exact ⟨Table.get_insert_of_some he', htype, hid⟩

/-- The first event of this type for a request is the only one. -/
theorem eventsFor_insert_self (htype : e.eventType = type) (hid : e.requestId = id)
    (hempty : eventsFor t type id = ∅) : eventsFor (t.insert e) type id = {(t.nextId, e)} := by
  ext ⟨k, e'⟩
  rw [Set.mem_singleton_iff, Prod.mk.injEq]
  constructor
  · rintro ⟨he', htype', hid'⟩
    rcases Table.get_insert_eq_some.1 he' with ⟨hk, rfl⟩ | he'
    · exact ⟨hk, rfl⟩
    · have hmem : (k, e') ∈ eventsFor t type id := ⟨he', htype', hid'⟩
      rw [hempty] at hmem
      cases hmem
  · rintro ⟨rfl, rfl⟩
    exact ⟨by rw [Table.get_insert, if_pos rfl], htype, hid⟩

/-- The events of a type for a request, or others. -/
theorem eventsFor_update_of_ne (he : t.get k = some e) (hf : e.Same (f e))
    (hne : ¬(e.eventType = type ∧ e.requestId = id)) :
    eventsFor (t.update k f) type id = eventsFor t type id := by
  ext ⟨j, e'⟩
  constructor
  · rintro ⟨he', htype, hid⟩
    rcases Table.get_update_eq_some.1 he' with ⟨rfl, e₀, he₀, rfl⟩ | ⟨_, he'⟩
    · obtain rfl := Option.some.inj (he.symm.trans he₀)
      exact absurd ⟨hf.eventType.symm.trans htype, hf.requestId.symm.trans hid⟩ hne
    · exact ⟨he', htype, hid⟩
  · rintro ⟨he', htype, hid⟩
    refine ⟨?_, htype, hid⟩
    rw [Table.get_update_of_ne, he']
    rintro rfl
    obtain rfl := Option.some.inj (he.symm.trans he')
    exact hne ⟨htype, hid⟩

/-- The events of the other type. -/
theorem eventsFor_update_of_type {type' : OutboxEventType} (he : t.get k = some e)
    (hf : e.Same (f e)) (htype : e.eventType = type') (hne : type' ≠ type) :
    eventsFor (t.update k f) type id = eventsFor t type id :=
  eventsFor_update_of_ne he hf fun hc => hne (htype.symm.trans hc.1)

theorem mem_of_eventsFor_eq (h : eventsFor t type id = {(k, e)}) :
    t.get k = some e ∧ e.eventType = type ∧ e.requestId = id := by
  have hmem : (k, e) ∈ eventsFor t type id := by rw [h, Set.mem_singleton_iff]
  exact hmem

/-- What is written to an event without its type, request and payload leaves it
    where it is. -/
theorem eventsFor_update_self (h : eventsFor t type id = {(k, e)}) (hf : e.Same (f e)) :
    eventsFor (t.update k f) type id = {(k, f e)} := by
  obtain ⟨he, htype, hid⟩ := mem_of_eventsFor_eq h
  ext ⟨j, e'⟩
  rw [Set.mem_singleton_iff, Prod.mk.injEq]
  constructor
  · rintro ⟨he', htype', hid'⟩
    rcases Table.get_update_eq_some.1 he' with ⟨hj, e₀, he₀, rfl⟩ | ⟨hj, he'⟩
    · obtain rfl := Option.some.inj (he.symm.trans he₀)
      exact ⟨hj, rfl⟩
    · have hmem : (j, e') ∈ eventsFor t type id := ⟨he', htype', hid'⟩
      rw [h, Set.mem_singleton_iff, Prod.mk.injEq] at hmem
      exact absurd hmem.1 hj
  · rintro ⟨rfl, rfl⟩
    exact ⟨Table.get_update_self he, hf.eventType.trans htype, hf.requestId.trans hid⟩

/-! ## Matches -/

namespace Matched

/-- What a match depends on. -/
theorem frame (h : Matched t id r) (hevents : ∀ type, eventsFor t' type id = eventsFor t type id) :
    Matched t' id r := by
  cases h with
  | unsent hd hr hnone hstatus =>
    exact .unsent ((hevents _).trans hd) ((hevents _).trans hr) hnone hstatus
  | awaited hd hr hpayload hnone hopen hstatus =>
    exact .awaited ((hevents _).trans hd) ((hevents _).trans hr) hpayload hnone hopen hstatus
  | confirmed hd hr hpayload hsome hdone hstatus =>
    exact .confirmed ((hevents _).trans hd) ((hevents _).trans hr) hpayload hsome hdone hstatus
  | cancelled hd hr hpayload hid himp hstatus =>
    exact .cancelled ((hevents _).trans hd) ((hevents _).trans hr) hpayload hid himp hstatus

/-- A pending request has not been sent. -/
theorem of_pending (h : Matched t id r) (hstatus : r.status = .pending) :
    eventsFor t .hcmDeduct id = ∅ ∧ eventsFor t .hcmReverse id = ∅ ∧ r.hcmRequestId = none := by
  cases h with
  | unsent hd hr hnone _ => exact ⟨hd, hr, hnone⟩
  | awaited _ _ _ _ _ hstatus' => simp [hstatus] at hstatus'
  | confirmed _ _ _ _ _ hstatus' | cancelled _ _ _ _ _ hstatus' =>
    rw [hstatus] at hstatus'
    cases hstatus'

/-- The deduction of a request that is approved is awaited. -/
theorem of_approvedPendingHcm (h : Matched t id r) (hstatus : r.status = .approvedPendingHcm) :
    ∃ k e, eventsFor t .hcmDeduct id = {(k, e)} ∧ eventsFor t .hcmReverse id = ∅ ∧
      e.payload = some r.deductPayload ∧ r.hcmRequestId = none ∧ e.status ≠ .done ∧
      e.status ≠ .failed := by
  cases h with
  | unsent _ _ _ hstatus' => simp [hstatus] at hstatus'
  | @awaited k e hd hr hpayload hnone hopen hstatus' =>
    rcases hstatus' with ⟨_, hfailed⟩ | hstatus'
    · exact ⟨k, e, hd, hr, hpayload, hnone, hopen, hfailed⟩
    · rw [hstatus] at hstatus'
      cases hstatus'
  | confirmed _ _ _ _ _ hstatus' | cancelled _ _ _ _ _ hstatus' =>
    rw [hstatus] at hstatus'
    cases hstatus'

/-- A deduction that is not done is the one of a request that awaits it, or
    has been cancelled. -/
theorem of_deduct (h : Matched t id r) (he : (k, e) ∈ eventsFor t .hcmDeduct id)
    (hopen : e.status ≠ .done) : eventsFor t .hcmDeduct id = {(k, e)} ∧
      e.payload = some r.deductPayload ∧ r.hcmRequestId = none ∧
      ((eventsFor t .hcmReverse id = ∅ ∧
          (r.status = .approvedPendingHcm ∧ e.status ≠ .failed ∨ r.status = .failed)) ∨
        (r.status = .cancelled ∧ ∃ k' e', eventsFor t .hcmReverse id = {(k', e')} ∧
          e'.status ≠ .done)) := by
  have hself : ∀ {k₀ e₀}, eventsFor t .hcmDeduct id = {(k₀, e₀)} → k = k₀ ∧ e = e₀ := by
    intro k₀ e₀ hd
    rwa [hd, Set.mem_singleton_iff, Prod.mk.injEq] at he
  cases h with
  | unsent hd _ _ _ =>
    rw [hd] at he
    cases he
  | awaited hd hr hpayload hnone _ hstatus =>
    obtain ⟨rfl, rfl⟩ := hself hd
    exact ⟨hd, hpayload, hnone, .inl ⟨hr, hstatus⟩⟩
  | confirmed hd _ _ _ hdone _ =>
    obtain ⟨rfl, rfl⟩ := hself hd
    exact absurd hdone hopen
  | @cancelled _ k' _ e' hd hr hpayload hid himp hstatus =>
    obtain ⟨rfl, rfl⟩ := hself hd
    have hnone : r.hcmRequestId = none := not_not.1 fun hsome => hopen (hid.1 hsome)
    exact ⟨hd, hpayload, hnone, .inr ⟨hstatus, k', e', hr, fun hdone => hopen (himp hdone)⟩⟩

/-- A reversal is that of a cancelled request. -/
theorem of_reverse (h : Matched t id r) (he : (k, e) ∈ eventsFor t .hcmReverse id) :
    eventsFor t .hcmReverse id = {(k, e)} ∧ r.status = .cancelled ∧
      ∃ k₀ e₀, eventsFor t .hcmDeduct id = {(k₀, e₀)} ∧ e₀.payload = some r.deductPayload ∧
        (r.hcmRequestId ≠ none ↔ e₀.status = .done) ∧ (e.status = .done → e₀.status = .done) := by
  cases h with
  | unsent _ hr _ _ | awaited _ hr _ _ _ _ | confirmed _ hr _ _ _ _ =>
    rw [hr] at he
    cases he
  | @cancelled k₀ _ e₀ _ hd hr hpayload hid himp hstatus =>
    rw [hr, Set.mem_singleton_iff, Prod.mk.injEq] at he
    obtain ⟨rfl, rfl⟩ := he
    exact ⟨hr, hstatus, k₀, e₀, hd, hpayload, hid, himp⟩

end Matched

namespace AllMatched

/-- A step that concerns only the request `id` and its events. -/
theorem of_request (h : AllMatched db) (hr : db'.requests.get id = some r)
    (hrequests : ∀ j, j ≠ id → db'.requests.get j = db.requests.get j)
    (hevents : ∀ type j, j ≠ id → eventsFor db'.outbox type j = eventsFor db.outbox type j)
    (hmatched : Matched db'.outbox id r) : AllMatched db' where
  request j q hq := by
    by_cases hj : j = id
    · subst hj
      obtain rfl := Option.some.inj (hr.symm.trans hq)
      exact hmatched
    · rw [hrequests j hj] at hq
      exact (h.request j q hq).frame fun type => hevents type j hj
  event k e he := by
    by_cases hid : e.requestId = id
    · exact ⟨r, hid ▸ hr⟩
    · have hmem : (k, e) ∈ eventsFor db'.outbox e.eventType e.requestId := ⟨he, rfl, rfl⟩
      rw [hevents _ _ hid] at hmem
      rw [hrequests _ hid]
      exact h.event k e hmem.1

/-- A request that is not there has no events. -/
theorem eventsFor_eq_empty (h : AllMatched db) (hnone : db.requests.get id = none)
    (type : OutboxEventType) : eventsFor db.outbox type id = ∅ := by
  rw [Set.eq_empty_iff_forall_notMem]
  rintro ⟨k, e⟩ ⟨he, _, hid⟩
  obtain ⟨r, hr⟩ := h.event k e he
  rw [hid, hnone] at hr
  cases hr

/-- A new request has no events yet: ids are not used again. -/
theorem submit (h : AllMatched db) {dto : SubmitRequestDto} {days : ℤ}
    (hrequests : db'.requests = db.requests.insert (dto.request days))
    (hout : db'.outbox = db.outbox) : AllMatched db' := by
  have hnone : db.requests.get db.requests.nextId = none := Table.get_nextId
  have hfresh := h.eventsFor_eq_empty hnone
  have hr : db'.requests.get db.requests.nextId = some (dto.request days) := by
    rw [hrequests, Table.get_insert, if_pos rfl]
  refine h.of_request hr (fun j hj => ?_) (fun type j _ => by rw [hout])
    (.unsent ?_ ?_ rfl (.inl rfl))
  · rw [hrequests, Table.get_insert, if_neg hj]
  · rw [hout, hfresh]
  · rw [hout, hfresh]

/-- A request moves, and an event is posted for it. -/
theorem post (h : AllMatched db) (hr : db.requests.get id = some r) (hid : e.requestId = id)
    {g : TimeOffRequest → TimeOffRequest} (hrequests : db'.requests = db.requests.update id g)
    (hout : db'.outbox = db.outbox.insert e) (hmatched : Matched (db.outbox.insert e) id (g r)) :
    AllMatched db' := by
  refine h.of_request (by rw [hrequests, Table.get_update_self hr])
    (fun j hj => by rw [hrequests, Table.get_update_of_ne hj]) (fun type j hj => ?_)
    (hout ▸ hmatched)
  rw [hout]
  exact eventsFor_insert_of_ne fun hc => hj (hc.2.symm.trans hid)

/-- An event for a request changes. -/
theorem change (h : AllMatched db) (he : db.outbox.get k = some e) (hsame : e.Same (f e))
    (hrequests : ∀ j, j ≠ e.requestId → db'.requests.get j = db.requests.get j)
    (hout : db'.outbox = db.outbox.update k f) (hr : db'.requests.get e.requestId = some r')
    (hmatched : Matched (db.outbox.update k f) e.requestId r') : AllMatched db' := by
  refine h.of_request hr hrequests (fun type j hj => ?_) (hout ▸ hmatched)
  rw [hout]
  exact eventsFor_update_of_ne he hsame fun hc => hj hc.2.symm

/-- An event that is not done before and after may be claimed, scheduled again or
    requeued; a deduction may not be given up this way. -/
theorem pass (h : AllMatched db) (he : db.outbox.get k = some e) (hopen : e.status ≠ .done)
    (hsame : e.Same (f e)) (hopen' : (f e).status ≠ .done)
    (hfailed : (f e).status = .failed → e.eventType = .hcmReverse)
    (hrequests : db'.requests = db.requests) (hout : db'.outbox = db.outbox.update k f) :
    AllMatched db' := by
  obtain ⟨r, hr⟩ := h.event k e he
  refine h.change he hsame (fun j _ => by rw [hrequests]) hout (by rw [hrequests, hr]) ?_
  cases htype : e.eventType with
  | hcmDeduct =>
    obtain ⟨hd, hpayload, hnone, hrest⟩ := (h.request _ r hr).of_deduct ⟨he, htype, rfl⟩ hopen
    have hd' := eventsFor_update_self hd hsame
    have hreverse : eventsFor (db.outbox.update k f) .hcmReverse e.requestId =
        eventsFor db.outbox .hcmReverse e.requestId :=
      eventsFor_update_of_type he hsame htype nofun
    -- A deduction is not given up in this way.
    have hnot : (f e).status ≠ .failed := fun hf => by rw [htype] at hfailed; cases hfailed hf
    rcases hrest with ⟨hr', hstatus⟩ | ⟨hstatus, k', e', hr', hopen''⟩
    · exact .awaited hd' (hreverse.trans hr') (hsame.payload.trans hpayload) hnone hopen'
        (hstatus.imp_left fun hs => ⟨hs.1, hnot⟩)
    · exact .cancelled hd' (hreverse.trans hr') (hsame.payload.trans hpayload)
        (by simp [hnone, hopen']) (fun hdone => absurd hdone hopen'') hstatus
  | hcmReverse =>
    obtain ⟨hr', hstatus, k₀, e₀, hd, hpayload, hid, _⟩ :=
      (h.request _ r hr).of_reverse ⟨he, htype, rfl⟩
    have hdeduct : eventsFor (db.outbox.update k f) .hcmDeduct e.requestId =
        eventsFor db.outbox .hcmDeduct e.requestId :=
      eventsFor_update_of_type he hsame htype nofun
    exact .cancelled (hdeduct.trans hd) (eventsFor_update_self hr' hsame) hpayload hid
      (fun hdone => absurd hdone hopen') hstatus

/-- A pending request that is rejected or cancelled has never had an event. -/
theorem settle (h : AllMatched db) (hr : db.requests.get id = some r)
    (hstatus : r.status = .pending) {target : RequestStatus} {x : ExtraFields}
    (htarget : target = .rejected ∨ target = .cancelled) (hx : x.hcmRequestId = none)
    (hrequests : db'.requests = db.requests.update id (·.move target x))
    (hout : db'.outbox = db.outbox) : AllMatched db' := by
  obtain ⟨hd, hr', hnone⟩ := (h.request id r hr).of_pending hstatus
  have hid : (r.move target x).hcmRequestId = none := (hcmRequestId_move hx).trans hnone
  refine h.of_request (by rw [hrequests, Table.get_update_self hr])
    (fun j hj => by rw [hrequests, Table.get_update_of_ne hj]) (fun type j _ => by rw [hout]) ?_
  rw [hout]
  exact .unsent hd hr' hid (.inr htarget)

/-- An approval inserts the deduction of its request. -/
theorem approve (h : AllMatched db) (hr : db.requests.get id = some r)
    (hstatus : r.status = .pending) {x : ExtraFields} (hx : x.hcmRequestId = none) {now : Instant}
    (hrequests : db'.requests = db.requests.update id (·.move .approvedPendingHcm x))
    (hout : db'.outbox = db.outbox.insert (deductEvent now id r)) : AllMatched db' := by
  obtain ⟨hd, hr', hnone⟩ := (h.request id r hr).of_pending hstatus
  have hid : (r.move .approvedPendingHcm x).hcmRequestId = none :=
    (hcmRequestId_move hx).trans hnone
  exact h.post hr rfl hrequests hout (.awaited (eventsFor_insert_self rfl rfl hd)
    ((eventsFor_insert_of_ne (by nofun)).trans hr') rfl hid (by nofun) (.inl ⟨rfl, by nofun⟩))

/-- A cancellation of an approved request inserts the reversal. -/
theorem cancel (h : AllMatched db) (hr : db.requests.get id = some r)
    (hstatus : r.status = .approvedPendingHcm) {now : Instant}
    (hrequests : db'.requests = db.requests.update id (·.move .cancelled {}))
    (hout : db'.outbox = db.outbox.insert (reverseEvent now id)) : AllMatched db' := by
  obtain ⟨k, e, hd, hr', hpayload, hnone, hopen, _⟩ :=
    (h.request id r hr).of_approvedPendingHcm hstatus
  have hid : (r.move .cancelled {}).hcmRequestId = none := hnone
  exact h.post hr rfl hrequests hout (.cancelled ((eventsFor_insert_of_ne (by nofun)).trans hd)
    (eventsFor_insert_self rfl rfl hr') hpayload (by simp [hid, hopen]) (by nofun) rfl)

/-- A deduction that is given up fails its request, unless this has been cancelled
    or has failed before. -/
theorem fail (h : AllMatched db) (he : db.outbox.get k = some e) (hopen : e.status ≠ .done)
    (htype : e.eventType = .hcmDeduct) (hr : db.requests.get e.requestId = some r) {n : ℕ}
    (hrequests : r.status ≠ .approvedPendingHcm ∧ db'.requests = db.requests ∨
      r.status = .approvedPendingHcm ∧
        db'.requests = db.requests.update e.requestId (·.move .failed {}))
    (hout : db'.outbox = db.outbox.update k (·.exhaust n)) : AllMatched db' := by
  have hsame : e.Same (e.exhaust n) := ⟨rfl, rfl, rfl⟩
  obtain ⟨hd, hpayload, hnone, hrest⟩ := (h.request _ r hr).of_deduct ⟨he, htype, rfl⟩ hopen
  have hd' := eventsFor_update_self (f := (·.exhaust n)) hd hsame
  have hreverse : eventsFor (db.outbox.update k (·.exhaust n)) .hcmReverse e.requestId =
      eventsFor db.outbox .hcmReverse e.requestId :=
    eventsFor_update_of_type he hsame htype nofun
  rcases hrequests with ⟨hne, hrequests⟩ | ⟨hstatus, hrequests⟩
  · -- The request has failed before, or has been cancelled.
    refine h.change he hsame (fun j _ => by rw [hrequests]) hout (by rw [hrequests, hr]) ?_
    rcases hrest with ⟨hr', ⟨hstatus, _⟩ | hstatus⟩ | ⟨hstatus, k', e', hr', hopen'⟩
    · exact absurd hstatus hne
    · exact .awaited hd' (hreverse.trans hr') hpayload hnone (by nofun) (.inr hstatus)
    · exact .cancelled hd' (hreverse.trans hr') hpayload (by simp [hnone, OutboxEvent.exhaust])
        (fun hdone => absurd hdone hopen') hstatus
  · refine h.change he hsame (fun j hj => by rw [hrequests, Table.get_update_of_ne hj]) hout
      (by rw [hrequests, Table.get_update_self hr]) ?_
    rcases hrest with ⟨hr', _⟩ | ⟨hcancelled, _⟩
    · exact .awaited hd' (hreverse.trans hr') hpayload hnone (by nofun) (.inr rfl)
    · rw [hstatus] at hcancelled
      cases hcancelled

/-- A deduction that is done approves its request, or stamps it with the id for
    the reversal if it has been cancelled. -/
theorem confirm (h : AllMatched db) (he : db.outbox.get k = some e) (hopen : e.status ≠ .done)
    (htype : e.eventType = .hcmDeduct) (hr : db.requests.get e.requestId = some r)
    {hcmRequestId : String} {g : TimeOffRequest → TimeOffRequest}
    (hg : r.status = .cancelled ∧ g = (·.stamp hcmRequestId) ∨
      r.status ≠ .cancelled ∧ g = (·.move .approved { hcmRequestId := some hcmRequestId }))
    (hrequests : db'.requests = db.requests.update e.requestId g)
    (hout : db'.outbox = db.outbox.update k (·.setStatus .done)) : AllMatched db' := by
  have hsame : e.Same (e.setStatus .done) := ⟨rfl, rfl, rfl⟩
  obtain ⟨hd, hpayload, hnone, hrest⟩ := (h.request _ r hr).of_deduct ⟨he, htype, rfl⟩ hopen
  have hd' := eventsFor_update_self (f := (·.setStatus .done)) hd hsame
  have hreverse : eventsFor (db.outbox.update k (·.setStatus .done)) .hcmReverse e.requestId =
      eventsFor db.outbox .hcmReverse e.requestId :=
    eventsFor_update_of_type he hsame htype nofun
  refine h.change he hsame (fun j hj => by rw [hrequests, Table.get_update_of_ne hj]) hout
    (by rw [hrequests, Table.get_update_self hr]) ?_
  rcases hg with ⟨hcancelled, rfl⟩ | ⟨hne, rfl⟩
  · -- The request stays cancelled, and gets the id for its reversal.
    rcases hrest with ⟨_, ⟨hstatus, _⟩ | hstatus⟩ | ⟨_, k', e', hr', _⟩
    · rw [hcancelled] at hstatus
      cases hstatus
    · rw [hcancelled] at hstatus
      cases hstatus
    · exact .cancelled hd' (hreverse.trans hr') hpayload (iff_of_true (by nofun) rfl)
        (fun _ => rfl) hcancelled
  · rcases hrest with ⟨hr', _⟩ | ⟨hcancelled, _⟩
    · exact .confirmed hd' (hreverse.trans hr') hpayload (by nofun) rfl rfl
    · exact absurd hcancelled hne

/-- A reversal is done only if its request has got the id of the HCM. -/
theorem finish (h : AllMatched db) (he : db.outbox.get k = some e)
    (htype : e.eventType = .hcmReverse) (hr : db.requests.get e.requestId = some r)
    (hsome : r.hcmRequestId ≠ none) (hrequests : db'.requests = db.requests)
    (hout : db'.outbox = db.outbox.update k (·.setStatus .done)) : AllMatched db' := by
  have hsame : e.Same (e.setStatus .done) := ⟨rfl, rfl, rfl⟩
  obtain ⟨hr', hstatus, k₀, e₀, hd, hpayload, hid, _⟩ :=
    (h.request _ r hr).of_reverse ⟨he, htype, rfl⟩
  have hdeduct : eventsFor (db.outbox.update k (·.setStatus .done)) .hcmDeduct e.requestId =
      eventsFor db.outbox .hcmDeduct e.requestId :=
    eventsFor_update_of_type he hsame htype nofun
  exact h.change he hsame (fun j _ => by rw [hrequests]) hout (by rw [hrequests, hr])
    (.cancelled (hdeduct.trans hd) (eventsFor_update_self hr' hsame) hpayload hid
      (fun _ => hid.1 hsome) hstatus)

/-- Every turn keeps the requests and their events matched. -/
theorem turn (h : AllMatched db) (hturn : Turn db db') : AllMatched db' := by
  cases hturn with
  | stay hrequests hout =>
    refine ⟨fun id r hr => ?_, fun k e he => ?_⟩
    · rw [hout]
      exact h.request id r (hrequests ▸ hr)
    · rw [hrequests]
      exact h.event k e (hout ▸ he)
  | submit hrequests hout => exact h.submit hrequests hout
  | settle hr hstatus htarget hx hrequests hout =>
    exact h.settle hr hstatus htarget hx hrequests hout
  | approve hr hstatus hx hrequests hout => exact h.approve hr hstatus hx hrequests hout
  | cancel hr hstatus hrequests hout => exact h.cancel hr hstatus hrequests hout
  | pass he hopen hsame hopen' hfailed hrequests hout =>
    exact h.pass he hopen hsame hopen' hfailed hrequests hout
  | fail he hopen htype hr hrequests hout => exact h.fail he hopen htype hr hrequests hout
  | confirm he hopen htype hr hg hrequests hout =>
    exact h.confirm he hopen htype hr hg hrequests hout
  | finish he htype hr hsome hrequests hout => exact h.finish he htype hr hsome hrequests hout

end AllMatched

/-- A request that knows the id of its deduction goes on knowing it. -/
theorem Turn.told (hturn : Turn db db') (hr : db.requests.get id = some r)
    (hsome : r.hcmRequestId ≠ none) :
    ∃ r', db'.requests.get id = some r' ∧ r'.hcmRequestId ≠ none := by
  have hupdate : ∀ {i : ℕ} {g : TimeOffRequest → TimeOffRequest},
      db'.requests = db.requests.update i g → (g r).hcmRequestId ≠ none →
      ∃ r', db'.requests.get id = some r' ∧ r'.hcmRequestId ≠ none := by
    intro i g hrequests hg
    rw [hrequests, Table.get_update, hr]
    split
    · exact ⟨g r, rfl, hg⟩
    · exact ⟨r, rfl, hsome⟩
  have hmove : ∀ (target : RequestStatus) (x : ExtraFields),
      (r.move target x).hcmRequestId ≠ none := by
    intro target x
    rw [TimeOffRequest.move, ExtraFields.set]
    cases x.hcmRequestId with
    | none => exact hsome
    | some _ => exact Option.some_ne_none _
  -- No turn takes an id back: the moves set it or leave it, and so does the stamp.
  cases hturn with
  | stay hrequests _ | pass _ _ _ _ _ hrequests _ | finish _ _ _ _ hrequests _ =>
    exact ⟨r, by rw [hrequests, hr], hsome⟩
  | submit hrequests _ => exact ⟨r, by rw [hrequests, Table.get_insert_of_some hr], hsome⟩
  | settle _ _ _ _ hrequests _ | approve _ _ _ hrequests _ | cancel _ _ hrequests _ =>
    exact hupdate hrequests (hmove _ _)
  | fail _ _ _ _ hrequests _ =>
    rcases hrequests with ⟨_, hrequests⟩ | ⟨_, hrequests⟩
    · exact ⟨r, by rw [hrequests, hr], hsome⟩
    · exact hupdate hrequests (hmove _ _)
  | confirm _ _ _ _ hg hrequests _ =>
    refine hupdate hrequests ?_
    rcases hg with ⟨_, rfl⟩ | ⟨_, rfl⟩
    · exact Option.some_ne_none _
    · exact hmove _ _

/-! ## Handlers -/

/-- `event` is the event `k`, perhaps as it has been before. -/
def CopyOf (t : Table OutboxEvent) (k : ℕ) (event : OutboxEvent) : Prop :=
  ∃ e, t.get k = some e ∧ e.Same event

/-- What a handler has found out, not from the HCM: if it gets to a reversal,
    the request knows the id of its deduction. -/
def Handler.Aware (db : Database) (h : Handler) : Prop :=
  match h.phase with
  | .deductBalance | .completeDeduction _ => h.event.eventType = .hcmDeduct
  | .readHcmRequestId => h.event.eventType = .hcmReverse
  | .reverseDeduction _ | .markDone => h.event.eventType = .hcmReverse ∧
      ∃ r, db.requests.get h.event.requestId = some r ∧ r.hcmRequestId ≠ none
  | .handleEventFailure => True

/-- What holds in every state, whatever the HCM does. -/
structure Corresponding (s : State) : Prop where
  calls : CallsOk s
  held : Held s
  matched : AllMatched s.db
  queued : ∀ i q, s.Queued i q → CopyOf s.db.outbox q.1 q.2
  copied : ∀ i h, s.handler i = some h → CopyOf s.db.outbox h.id h.event
  aware : ∀ i h, s.handler i = some h → h.Aware s.db

variable {s s' s₀ : State} {a : Action} {h : Handler} {now : Instant} {hcm hcm' : HcmState}
  {p : Progress}

/-- A copy that has been fetched stays a copy, up to the status and the schedule.
    -/
theorem CopyOf.kept (hcopy : CopyOf s.db.outbox k event) (hd : Delivered cfg s a s') :
    CopyOf s'.db.outbox k event := by
  obtain ⟨e, he, hsame⟩ := hcopy
  obtain ⟨e', he', hsame'⟩ := hd.kept he
  exact ⟨e', he', ⟨hsame.eventType.trans hsame'.eventType.symm,
    hsame.payload.trans hsame'.payload.symm, hsame.requestId.trans hsame'.requestId.symm⟩⟩

/-- What a handler has found out about a request stays true: an id is never taken
    back. -/
theorem Handler.Aware.turn (haware : h.Aware db) (hturn : Turn db db') : h.Aware db' := by
  rw [Aware] at haware ⊢
  split at haware
  · exact haware
  · exact haware
  · exact haware
  · obtain ⟨htype, r, hr, hsome⟩ := haware
    exact ⟨htype, hturn.told hr hsome⟩
  · obtain ⟨htype, r, hr, hsome⟩ := haware
    exact ⟨htype, hturn.told hr hsome⟩
  · trivial

/-- A handler that goes on finds out what it needs. -/
theorem Handled.aware (hh : Handled cfg now db hcm h db' hcm' p) (haware : h.Aware db)
    {phase : Phase} (hp : p = .running phase) : { h with phase := phase }.Aware db' := by
  rw [Handler.Aware] at haware
  cases hh with
  | threw _ =>
    cases hp
    trivial
  | deducted _ hphase _ _ =>
    rw [hphase] at haware
    rcases respond_eq_running hp with rfl | rfl
    · exact haware
    · trivial
  | selected hphase hr hid =>
    rw [hphase] at haware
    cases hp
    exact ⟨haware, _, hr, by rw [hid]; nofun⟩
  | reversed _ hphase _ | absent _ hphase _ =>
    rw [hphase] at haware
    rcases respond_eq_running hp with rfl | rfl
    · exact haware
    · trivial
  | completed _ _ | marked _ | recorded _ _ | aborted _ => cases hp

/-- A deduction is completed: its request has awaited it, or been cancelled. -/
theorem turn_completed (hmatched : AllMatched db) (he : db.outbox.get h.id = some e)
    (hopen : e.status ≠ .done) (hsame : e.Same h.event) (htype : h.event.eventType = .hcmDeduct)
    {hcmRequestId : String} {x : Session}
    (hrun : (deductTransaction h.id h.event hcmRequestId).run (.start db) = .ok () x) :
    Turn db x.db := by
  obtain ⟨r, x₁, hcomplete, hdb, _⟩ := deductTransaction_ok hrun
  have htype' : e.eventType = .hcmDeduct := hsame.eventType.symm.trans htype
  have hout : x.db.outbox = db.outbox.update h.id (·.setStatus .done) :=
    outbox_deductTransaction hrun
  have hrequests : x.db.requests = x₁.db.requests := by rw [hdb]; rfl
  obtain ⟨r₀, hr₀, hcases⟩ := completeDeductionFromOutbox_ok hcomplete
  rw [hsame.requestId] at hr₀ hcases
  -- The three branches of the source: the request has been approved before, it has been
  -- cancelled in the meantime, or it is approved now.
  rcases hcases with ⟨happroved, _⟩ | ⟨hcancelled, hdb₁, _⟩ | ⟨hcan, hdb₁, _⟩
  · -- The deduction of an approved request is done.
    obtain ⟨_, _, _, ⟨_, ⟨hstatus, _⟩ | hstatus⟩ | ⟨hstatus, _⟩⟩ :=
      (hmatched.request _ r₀ hr₀).of_deduct ⟨he, htype', rfl⟩ hopen <;>
    · rw [happroved] at hstatus
      cases hstatus
  · exact .confirm he hopen htype' hr₀ (.inl ⟨hcancelled, rfl⟩)
      (by rw [hrequests, hdb₁, Database.requests_updateRequest]; rfl) hout
  · refine .confirm (g := (·.move .approved { hcmRequestId := some hcmRequestId })) he hopen htype'
      hr₀ (.inr ⟨?_, rfl⟩) (by rw [hrequests, hdb₁]; rfl) hout
    intro hcancelled
    rw [hcancelled] at hcan
    cases hcan

/-- A failure is recorded: the event is put off, or given up. -/
theorem turn_failure (he : db.outbox.get h.id = some e) (hopen : e.status ≠ .done)
    (hsame : e.Same h.event) {x : Session}
    (hrun : (handleEventFailure cfg now h.id h.event).run (.start db) = .ok () x) :
    Turn db x.db := by
  rcases handleEventFailure_ok hrun with ⟨_, hdb⟩ | ⟨_, htype, hdb⟩ |
    ⟨_, htype, r, x₁, hfail, hdb⟩
  · -- There are attempts left.
    exact .pass (f := (·.reschedule _ _)) he hopen ⟨rfl, rfl, rfl⟩ (by nofun) (by nofun)
      (by rw [hdb]; rfl) (by rw [hdb]; rfl)
  · -- A reversal is given up without a word to its request.
    exact .pass (f := (·.exhaust _)) he hopen ⟨rfl, rfl, rfl⟩ (by nofun)
      (fun _ => hsame.eventType.symm.trans htype) (by rw [hdb]; rfl) (by rw [hdb]; rfl)
  · have hrequests₁ : x₁.db.requests = db.requests := by rw [hdb]; rfl
    have hout : x.db.outbox = db.outbox.update h.id (·.exhaust (h.event.attempts + 1)) := by
      rw [outbox_fail hfail, hdb]
      rfl
    obtain ⟨r₀, hr₀, hcases⟩ := failRequestFromOutbox_ok hfail
    rw [hrequests₁, hsame.requestId] at hr₀
    refine .fail he hopen (hsame.eventType.symm.trans htype) hr₀ ?_ hout
    -- `failRequestFromOutbox` leaves a request alone that is not approved any more.
    rcases hcases with ⟨hsettled, rfl⟩ | ⟨hstatus, hdb', _⟩
    · refine .inl ⟨fun hstatus => ?_, hrequests₁⟩
      rw [hstatus] at hsettled
      rcases hsettled with hs | hs | hs <;> cases hs
    · exact .inr ⟨hstatus, by
        rw [hdb', Database.requests_updateRequest, hrequests₁, hsame.requestId]⟩

/-- A step of a handler is a turn. -/
theorem Handled.turn (hh : Handled cfg now db hcm h db' hcm' p) (hmatched : AllMatched db)
    (haware : h.Aware db) (he : db.outbox.get h.id = some e) (hprocessing : e.status = .processing)
    (hsame : e.Same h.event) : Turn db db' := by
  have hopen : e.status ≠ .done := by rw [hprocessing]; nofun
  rw [Handler.Aware] at haware
  cases hh with
  | completed hphase hrun =>
    rw [hphase] at haware
    exact turn_completed hmatched he hopen hsame haware hrun
  | marked hphase =>
    rw [hphase] at haware
    obtain ⟨htype, r, hr, hsome⟩ := haware
    exact .finish he (hsame.eventType.symm.trans htype) (hsame.requestId ▸ hr) hsome rfl rfl
  | recorded _ hrun => exact turn_failure he hopen hsame hrun
  | _ => exact .stay rfl rfl

/-! ## Steps -/

/-- What a cancellation does depends on the status of the copy that its call
    has read, which is that of the row. -/
theorem turn_cancel {c : Call} (hc : c.Ok s.db.books) (hkind : c.kind = .cancel)
    (hr : s.db.requests.get c.id = some r) (hv : r.version = c.request.version)
    (hrequests : db.requests = s.db.requests.update c.id (·.move .cancelled {}))
    (hout : db.outbox = (cancelEvent s.now c s.db).outbox) : Turn s.db db := by
  have hstatus : c.request.status = r.status := (hc.before hr).status hv.symm
  rcases hc.cancel hkind with hpending | hawaiting
  · refine .settle (x := {}) hr (hstatus ▸ hpending) (.inr rfl) rfl hrequests ?_
    rw [hout, cancelEvent, if_neg (by rw [hpending]; decide)]
  · have hposted : db.outbox = s.db.outbox.insert (reverseEvent s.now c.id) := by
      rw [hout, cancelEvent, if_pos hawaiting]
      rfl
    exact .cancel hr (hstatus ▸ hawaiting) hrequests hposted

/-- Every regular step is a turn. -/
theorem Stepped.turn (hstep : Stepped cfg s a s') (hs : Corresponding s) (hok : a.isRegular) :
    Turn s.db s'.db := by
  cases hstep with
  | submit _ _ _ _ => exact .submit rfl rfl
  | approve _ _ hr hstatus _ hx => exact .approve hr hstatus hx rfl rfl
  | reject _ _ hr hstatus _ hx => exact .settle hr hstatus (.inl rfl) hx rfl rfl
  | cancel hc hkind hr _ hv => exact turn_cancel (hs.calls _ _ hc) hkind hr hv (by simp) rfl
  | complete _ | fail _ | writeRetry _ => cases hok
  | sync _ hsync => exact .stay hsync.requests hsync.outbox
  | claim _ he hpending =>
    exact .pass (f := (·.setStatus .processing)) he (by rw [hpending]; nofun) ⟨rfl, rfl, rfl⟩
      (by nofun) (by nofun) rfl rfl
  | handle ht hh hstep =>
    have hh := handler_eq_some.2 ⟨_, ht, hh⟩
    obtain ⟨e, he, hsame⟩ := hs.copied _ _ hh
    obtain ⟨e', he', hprocessing⟩ := hs.held.processing _ _ hh
    obtain rfl := Option.some.inj (he.symm.trans he')
    exact (Handler.step_handled hstep).turn hs.matched (hs.aware _ _ hh) he hprocessing hsame
  | retry he hfailed =>
    exact .pass (f := (·.requeue _)) he (by rw [hfailed]; nofun) ⟨rfl, rfl, rfl⟩ (by nofun)
      (by nofun) rfl rfl
  | _ => exact .stay rfl rfl

/-- Every regular step keeps requests and events matched, and the handlers aware
    of it. -/
theorem Corresponding.step (hs : Corresponding s) (hok : a.isRegular)
    (hstep : Stepped cfg s a s') : Corresponding s' := by
  have hturn := hstep.turn hs hok
  have hd := hstep.delivered
  refine ⟨hs.calls.step hstep, hs.held.step (fun n id ha _ => ?_) hd, hs.matched.turn hturn,
    fun i q hq => ?_, fun i h hh => ?_, fun i h hh => ?_⟩
  · rw [ha] at hok
    cases hok
  · rcases hstep.queued hq with hq | hq
    · exact (hs.queued i q hq).kept hd
    · exact CopyOf.kept ⟨q.2, (mem_fetchDue hq).1, .refl _⟩ hd
  · rcases hstep.handler hh with hh | ⟨h₀, _, _, _, _, hh₀, _, rfl, _⟩ | ⟨q, hq, rfl⟩
    · exact (hs.copied i h hh).kept hd
    · exact (hs.copied i h₀ hh₀).kept hd
    · obtain ⟨e, he, hsame⟩ := (hs.queued i q hq).kept hd
      exact ⟨e, he, hsame.eventType, hsame.payload, hsame.requestId⟩
  · rcases hstep.handler hh with hh | ⟨h₀, o, db, hcm, phase, hh₀, hgo, rfl, hdb, _⟩ | ⟨q, _, rfl⟩
    · exact (hs.aware i h hh).turn hturn
    · rw [hdb]
      exact (Handler.step_handled hgo).aware (hs.aware i h₀ hh₀) rfl
    · rw [Handler.Aware, Handler.start]
      cases htype : q.2.eventType with
      | hcmDeduct => exact htype
      | hcmReverse => exact htype

/-! ## What a match says -/

/-- There is no event for the request. -/
def Unsent (t : Table OutboxEvent) (id : ℕ) : Prop := ∀ k e, t.get k = some e → e.requestId ≠ id

/-- A request without events has been sent nothing. -/
theorem unsent_of_eventsFor (hd : eventsFor t .hcmDeduct id = ∅)
    (hr : eventsFor t .hcmReverse id = ∅) : Unsent t id := by
  intro k e he hid
  have hmem : (k, e) ∈ eventsFor t e.eventType id := ⟨he, rfl, hid⟩
  cases htype : e.eventType with
  | hcmDeduct =>
    rw [htype, hd] at hmem
    cases hmem
  | hcmReverse =>
    rw [htype, hr] at hmem
    cases hmem

/-- The request and its events correspond. -/
structure Agreement (t : Table OutboxEvent) (id : ℕ) (r : TimeOffRequest) : Prop where
  unsent : r.status = .pending ∨ r.status = .rejected → Unsent t id ∧ r.hcmRequestId = none
  approvedPendingHcm : r.status = .approvedPendingHcm → ∃ k e,
    eventsFor t .hcmDeduct id = {(k, e)} ∧ (e.status = .pending ∨ e.status = .processing) ∧
      eventsFor t .hcmReverse id = ∅
  approved : r.status = .approved → ∃ k e, eventsFor t .hcmDeduct id = {(k, e)} ∧
    e.status = .done ∧ eventsFor t .hcmReverse id = ∅
  failed : r.status = .failed → ∃ k e, eventsFor t .hcmDeduct id = {(k, e)} ∧
    (e.status = .failed ∨ e.status = .pending ∨ e.status = .processing) ∧
      eventsFor t .hcmReverse id = ∅
  cancelled : r.status = .cancelled → Unsent t id ∨ ∃ k e k' e',
    eventsFor t .hcmDeduct id = {(k, e)} ∧ eventsFor t .hcmReverse id = {(k', e')} ∧
      (e'.status = .done → e.status = .done)
  hcmRequestId : r.hcmRequestId ≠ none ↔
    ∃ k e, (k, e) ∈ eventsFor t .hcmDeduct id ∧ e.status = .done
  payload : ∀ k e, (k, e) ∈ eventsFor t .hcmDeduct id → ∃ p, e.payload = some p ∧
    p.employeeId = r.employeeId ∧ p.locationId = r.locationId ∧ p.leaveType = r.leaveType ∧
      p.days = r.daysRequested

/-- What the only deduction of a request says about it. -/
theorem only_deduct (hd : eventsFor t .hcmDeduct id = {(k, e)})
    (hpayload : e.payload = some r.deductPayload) (hid : r.hcmRequestId ≠ none ↔ e.status = .done) :
    (r.hcmRequestId ≠ none ↔ ∃ k e, (k, e) ∈ eventsFor t .hcmDeduct id ∧ e.status = .done) ∧
    ∀ k e, (k, e) ∈ eventsFor t .hcmDeduct id → ∃ p, e.payload = some p ∧
      p.employeeId = r.employeeId ∧ p.locationId = r.locationId ∧ p.leaveType = r.leaveType ∧
        p.days = r.daysRequested := by
  have hself : ∀ {j : ℕ} {e' : OutboxEvent}, (j, e') ∈ eventsFor t .hcmDeduct id → e' = e := by
    intro j e' he'
    rw [hd, Set.mem_singleton_iff, Prod.mk.injEq] at he'
    exact he'.2
  refine ⟨hid.trans ⟨fun hdone => ⟨k, e, mem_of_eventsFor_eq hd, hdone⟩, ?_⟩, fun j e' he' => ?_⟩
  · rintro ⟨j, e', he', hdone⟩
    exact hself he' ▸ hdone
  · rw [hself he']
    exact ⟨_, hpayload, rfl, rfl, rfl, rfl⟩

/-- What is matched agrees, as the statuses say. -/
theorem Agreement.of_matched (h : Matched t id r) : Agreement t id r := by
  -- By what the request is matched with. Each kind is what one or two of the statuses ask
  -- for; of the others there is nothing to show.
  cases h with
  | unsent hd hr hnone hstatus =>
    have hunsent := unsent_of_eventsFor hd hr
    have hempty : ∀ {k e}, (k, e) ∉ eventsFor t .hcmDeduct id := fun hmem => by
      rw [hd] at hmem
      cases hmem
    constructor
    case unsent => exact fun _ => ⟨hunsent, hnone⟩
    case cancelled => exact fun _ => .inl hunsent
    case hcmRequestId =>
      exact iff_of_false (not_not.2 hnone) fun ⟨_, _, hmem, _⟩ => hempty hmem
    case payload => exact fun _ _ hmem => absurd hmem hempty
    all_goals
      intro hs
      simp [hs] at hstatus
  | @awaited k e hd hr hpayload hnone hopen hstatus =>
    obtain ⟨hid, hpayloads⟩ :=
      only_deduct hd hpayload (iff_of_false (not_not.2 hnone) hopen)
    constructor
    case approvedPendingHcm =>
      intro hs
      rcases hstatus with ⟨_, hfailed⟩ | hstatus
      · exact ⟨k, e, hd, by cases he : e.status <;> simp_all, hr⟩
      · rw [hs] at hstatus
        cases hstatus
    case failed => exact fun _ => ⟨k, e, hd, by cases he : e.status <;> simp_all, hr⟩
    case hcmRequestId => exact hid
    case payload => exact hpayloads
    all_goals
      intro hs
      rcases hstatus with ⟨hstatus, _⟩ | hstatus <;> simp [hstatus] at hs
  | @confirmed k e hd hr hpayload hsome hdone hstatus =>
    obtain ⟨hid, hpayloads⟩ := only_deduct hd hpayload (iff_of_true hsome hdone)
    constructor
    case approved => exact fun _ => ⟨k, e, hd, hdone, hr⟩
    case hcmRequestId => exact hid
    case payload => exact hpayloads
    all_goals
      intro hs
      simp [hstatus] at hs
  | @cancelled k k' e e' hd hr hpayload hid himp hstatus =>
    obtain ⟨hid, hpayloads⟩ := only_deduct hd hpayload hid
    constructor
    case cancelled => exact fun _ => .inr ⟨k, e, k', e', hd, hr, himp⟩
    case hcmRequestId => exact hid
    case payload => exact hpayloads
    all_goals
      intro hs
      simp [hstatus] at hs

/-! ## Any HCM -/

namespace Open

/-- What may happen next. -/
inductive Event
  /-- The HCM gets into whatever state. -/
  | hcm (hcm : HcmState)
  | act (a : Action)

/-- One step of the system with an HCM of which nothing is known. -/
def step (cfg : Config) (s : State) : Event → Option State
  | .hcm hcm => some { s with hcm := hcm }
  | .act a => TimeOff.step cfg s a

/-- The callbacks are called by handlers only, and a retry is a single step. -/
def Event.isRegular : Event → Bool
  | .hcm _ => true
  | .act a => a.isRegular

/-- Nothing has been requested, and nothing is going on. -/
structure Start (s : State) : Prop where
  requests : ∀ id, s.db.requests.get id = none
  outbox : ∀ k, s.db.outbox.get k = none
  calls : s.calls = .empty
  ticks : s.ticks = .empty

variable {x : Event} {hist : List (State × Event)}

/-- Before a call, the HCM may get into a state in which it answers with any
    id. -/
theorem callDeduct_any {payload : DeductPayload} (hpayload : h.event.payload = some payload)
    (hcmRequestId : String) : ∃ hcm : HcmState,
      h.callDeduct now hcm .ok = (hcm, .running (.completeDeduction hcmRequestId)) := by
  -- It knows the key of the event, and answers with the deduction under it.
  refine ⟨⟨fun _ => none, fun _ => some ⟨payload.toBalanceKey, payload.days, hcmRequestId⟩,
    fun _ => none, 0⟩, ?_⟩
  simp only [Handler.callDeduct, hpayload, HcmState.deductBalance,
    HcmState.truthy_some (idempotencyKey_ne_empty h.id), Option.bind_some]
  rfl

/-- At the start there is nothing to match. -/
theorem Start.corresponding (hs : Start s) : Corresponding s := by
  have hhandler : ∀ i, s.handler i = none := fun i => by
    rw [State.handler, hs.ticks]
    rfl
  refine ⟨fun n c hc => ?_, ⟨fun i h hh => ?_, fun i j h h' hh => ?_⟩,
    ⟨fun id r hr => ?_, fun k e he => ?_⟩, fun i q hq => ?_, fun i h hh => ?_, fun i h hh => ?_⟩
  · rw [hs.calls] at hc
    cases hc
  · rw [hhandler] at hh
    cases hh
  · rw [hhandler] at hh
    cases hh
  · rw [hs.requests] at hr
    cases hr
  · rw [hs.outbox] at he
    cases he
  · obtain ⟨t, ht, _⟩ := hq
    rw [hs.ticks] at ht
    cases ht
  · rw [hhandler] at hh
    cases hh
  · rw [hhandler] at hh
    cases hh

/-- In every regular run requests and events are matched, whatever the HCM does.
    -/
theorem corresponding_of_run (hs₀ : Start s₀)
    (hrun : Run (step cfg) (fun _ x => x.isRegular) s₀ hist s) : Corresponding s := by
  refine hrun.invariant hs₀.corresponding fun s x s' hs hok hnext => ?_
  cases x with
  | hcm hcm =>
    obtain rfl := Option.some.inj hnext
    exact ⟨hs.calls, ⟨hs.held.processing, hs.held.single⟩, hs.matched, hs.queued, hs.copied,
      hs.aware⟩
  | act a => exact hs.step hok (step_stepped hnext)

/-- In every run of request operations, ticks and retries, whatever the HCM
    does, every request and its events correspond. -/
theorem agreement_of_run (hs₀ : Start s₀)
    (hrun : Run (step cfg) (fun _ x => x.isRegular) s₀ hist s)
    (hr : s.db.requests.get id = some r) : Agreement s.db.outbox id r :=
  .of_matched ((corresponding_of_run hs₀ hrun).matched.request id r hr)

/-- A deduction that has failed for good is retried, and answered with an id
    that the mock HCM does not give out. -/
theorem agreement_of_run_sample : ∃ hist s r,
    Run (step sampleConfig) (fun _ x => x.isRegular) (sampleStart 10) hist s ∧
    s.db.requests.get 0 = some r ∧ r.status = .approved ∧ r.hcmRequestId = some "42" ∧
    Agreement s.db.outbox 0 r := by
  let answering : HcmState :=
    ⟨fun _ => none, fun _ => some ⟨sampleKey, 2, "42"⟩, fun _ => none, 0⟩
  let actions : List Action := sampleFailed ++ [.retry 0, .tick, .claim 4 .ok]
  let events : List Event := actions.map .act ++
    [.hcm answering, .act (.handle 4 .ok), .act (.handle 4 .ok)]
  have hexec : ∃ s ∈ exec (step sampleConfig) (sampleStart 10) events,
      ∃ r ∈ s.db.requests.get 0, r.status = .approved ∧ r.hcmRequestId = some "42" := by
    decide +kernel
  have hregular : ∀ x ∈ events, x.isRegular := by decide +kernel
  obtain ⟨s, hrun, r, hr, hstatus, hid⟩ := exists_run_of_exec hregular hexec
  exact ⟨_, s, r, hrun, hr, hstatus, hid, agreement_of_run
    ⟨fun _ => rfl, fun _ => rfl, rfl, rfl⟩ hrun hr⟩

end Open

end TimeOff
