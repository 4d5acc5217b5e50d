import Mathlib.Data.Set.Insert
import TimeOff.Outbox

/-!
# The exchange with the HCM

What the outbox is for: every request that has been approved is deducted at
the HCM once, and every deduction of a cancelled request is reversed. The two
ends of this exchange are the requests and the deductions of the HCM; what is
in between are the *messages* of the outbox, of which only the content counts
here, and whether they are done: a message may be claimed, fail, and be sent
again any number of times meanwhile.

A request goes through the stages of `Stage`. Each says which messages there
are for the request, what it has got back, and what the HCM holds for it. A
step of the exchange (`Exchange`) takes one request to its next stage, and the
others stay where they are (`Corresponds.exchange`).
-/

namespace TimeOff

open HcmState

/-- An event of the outbox, as far as the exchange is concerned. -/
structure Message where
  eventType : OutboxEventType
  requestId : ℕ
  payload : Option DeductPayload
  done : Bool

/-- The message that an event is. -/
def OutboxEvent.message (e : OutboxEvent) : Message :=
  ⟨e.eventType, e.requestId, e.payload, e.status = .done⟩

namespace Message

/-- The message of an approval. -/
def deduct (id : ℕ) (r : TimeOffRequest) : Message := ⟨.hcmDeduct, id, some r.deductPayload, false⟩

/-- The message of a cancellation. -/
def reverse (id : ℕ) : Message := ⟨.hcmReverse, id, none, false⟩

/-- The message when it is done. -/
def finish (m : Message) : Message := { m with done := true }

end Message

/-- The requests, the messages by their ids, and the HCM. -/
structure Ends where
  requests : Table TimeOffRequest
  outbox : ℕ → Option Message
  hcm : HcmState

namespace Ends

/-- The messages of a type for a request. -/
def messages (X : Ends) (type : OutboxEventType) (id : ℕ) : Set (ℕ × Message) :=
  {q | X.outbox q.1 = some q.2 ∧ q.2.eventType = type ∧ q.2.requestId = id}

/-- What the HCM holds for the message `k`. -/
def deduction (X : Ends) (k : ℕ) : Option DeductionRecord := X.hcm.deductions (idempotencyKey k)

/-- The ends, with the message `k` in the outbox. -/
def post (X : Ends) (k : ℕ) (m : Message) : Ends :=
  { X with outbox := Function.update X.outbox k (some m) }

/-- The ends, with the message `k` done. -/
def finish (X : Ends) (k : ℕ) (m : Message) : Ends := X.post k m.finish

/-- The ends, after the HCM has deducted what the message `k` asks for. -/
def deduct (X : Ends) (k : ℕ) (p : DeductPayload) (balance : BalanceRecord) (now : Instant) :
    Ends :=
  { X with hcm := X.hcm.deduct p.toBalanceKey p.days balance (some (idempotencyKey k)) now }

/-- The ends, with the request `id` changed by `f`. -/
def updateRequest (X : Ends) (id : ℕ) (f : TimeOffRequest → TimeOffRequest) : Ends :=
  { X with requests := X.requests.update id f }

end Ends

/-- The deduction is that of the days of the request. -/
structure DeductionRecord.Pays (d : DeductionRecord) (r : TimeOffRequest) : Prop where
  key : d.toBalanceKey = r.toBalanceKey
  days : d.days = r.daysRequested

/-- How far the exchange for a request has got. -/
inductive Stage (X : Ends) (id : ℕ) (r : TimeOffRequest) : Prop
  /-- It has not been approved. -/
  | unsent : X.messages .hcmDeduct id = ∅ → X.messages .hcmReverse id = ∅ →
      r.hcmRequestId = none →
      (r.status = .pending ∨ r.status = .rejected ∨ r.status = .cancelled) → Stage X id r
  /-- It is approved. Its deduction may have been made, but has not been
      confirmed. -/
  | sent {k : ℕ} {m : Message} : X.messages .hcmDeduct id = {(k, m)} →
      X.messages .hcmReverse id = ∅ → m.done = false → m.payload = some r.deductPayload →
      r.hcmRequestId = none → (r.status = .approvedPendingHcm ∨ r.status = .failed) →
      (∀ d, X.deduction k = some d → d.Pays r) → Stage X id r
  | confirmed {k : ℕ} {m : Message} {d : DeductionRecord} :
      X.messages .hcmDeduct id = {(k, m)} → X.messages .hcmReverse id = ∅ → m.done = true →
      r.status = .approved → X.deduction k = some d → d.Pays r →
      r.hcmRequestId = some d.hcmRequestId → Stage X id r
  /-- It has been cancelled before its deduction was confirmed. -/
  | cancelled {k k' : ℕ} {m m' : Message} : X.messages .hcmDeduct id = {(k, m)} →
      X.messages .hcmReverse id = {(k', m')} → m.done = false → m'.done = false →
      m.payload = some r.deductPayload → r.hcmRequestId = none → r.status = .cancelled →
      (∀ d, X.deduction k = some d → d.Pays r) → Stage X id r
  /-- It has been cancelled, and its deduction has been made. -/
  | reversing {k k' : ℕ} {m m' : Message} {d : DeductionRecord} :
      X.messages .hcmDeduct id = {(k, m)} → X.messages .hcmReverse id = {(k', m')} →
      m.done = true → m'.done = false → r.status = .cancelled → X.deduction k = some d →
      d.Pays r → r.hcmRequestId = some d.hcmRequestId → Stage X id r
  /-- Its deduction has been reversed. -/
  | reversed {k k' : ℕ} {m m' : Message} {h : String} : X.messages .hcmDeduct id = {(k, m)} →
      X.messages .hcmReverse id = {(k', m')} → m.done = true → r.status = .cancelled →
      X.deduction k = none → r.hcmRequestId = some h → X.hcm.requestIndex h = none →
      Stage X id r

/-- What there is in the outbox, at the HCM, and in the requests comes from
    somewhere. -/
structure Grounded (X : Ends) : Prop where
  /-- A message is for a request. -/
  owned : ∀ k m, X.outbox k = some m → ∃ r, X.requests.get m.requestId = some r
  /-- What is live at the HCM has been asked for by a message. -/
  asked : ∀ q d, X.hcm.deductions q = some d →
    ∃ k m, X.outbox k = some m ∧ m.eventType = .hcmDeduct ∧ q = idempotencyKey k
  issued : ∀ id r h, X.requests.get id = some r → r.hcmRequestId = some h →
    Issued X.hcm.requestCounter h
  hcm : X.hcm.WellFormed

/-- The two ends correspond: every request is at some stage. -/
structure Corresponds (X : Ends) : Prop extends Grounded X where
  stage : ∀ id r, X.requests.get id = some r → Stage X id r

/-- A step of the exchange. -/
inductive Exchange (X X' : Ends) : Prop
  /-- Nothing that counts happens. -/
  | stay : X' = X → Exchange X X'
  | submit {dto : SubmitRequestDto} {days : ℤ} :
      X' = { X with requests := X.requests.insert (dto.request days) } → Exchange X X'
  /-- A request is rejected, or cancelled before it is approved. -/
  | settle {id : ℕ} {r : TimeOffRequest} {target : RequestStatus} {x : ExtraFields} :
      X.requests.get id = some r → r.status = .pending →
      (target = .rejected ∨ target = .cancelled) → x.hcmRequestId = none →
      X' = X.updateRequest id (·.move target x) → Exchange X X'
  | fail {id : ℕ} {r : TimeOffRequest} : X.requests.get id = some r →
      r.status = .approvedPendingHcm → X' = X.updateRequest id (·.move .failed {}) → Exchange X X'
  | approve {id k : ℕ} {r : TimeOffRequest} {x : ExtraFields} : X.requests.get id = some r →
      r.status = .pending → x.hcmRequestId = none → X.outbox k = none →
      X' = (X.updateRequest id (·.move .approvedPendingHcm x)).post k (.deduct id r) →
      Exchange X X'
  | cancel {id k : ℕ} {r : TimeOffRequest} : X.requests.get id = some r →
      r.status = .approvedPendingHcm → X.outbox k = none →
      X' = (X.updateRequest id (·.move .cancelled {})).post k (.reverse id) → Exchange X X'
  /-- The HCM makes a deduction. -/
  | deduct {id k : ℕ} {m : Message} {p : DeductPayload} {balance : BalanceRecord} {now : Instant} :
      (k, m) ∈ X.messages .hcmDeduct id → m.done = false → m.payload = some p →
      X.deduction k = none → X.hcm.balances p.hcmKey = some balance →
      X' = X.deduct k p balance now → Exchange X X'
  /-- A deduction is confirmed: the request is approved for good. -/
  | confirm {id k : ℕ} {m : Message} {r : TimeOffRequest} {d : DeductionRecord} :
      (k, m) ∈ X.messages .hcmDeduct id → m.done = false → X.deduction k = some d →
      X.requests.get id = some r → r.status ≠ .cancelled →
      X' = (X.updateRequest id
        (·.move .approved { hcmRequestId := some d.hcmRequestId })).finish k m → Exchange X X'
  /-- A deduction is confirmed after the request has been cancelled. -/
  | stamp {id k : ℕ} {m : Message} {r : TimeOffRequest} {d : DeductionRecord} :
      (k, m) ∈ X.messages .hcmDeduct id → m.done = false → X.deduction k = some d →
      X.requests.get id = some r → r.status = .cancelled →
      X' = (X.updateRequest id (·.stamp d.hcmRequestId)).finish k m → Exchange X X'
  /-- The HCM makes a reversal. -/
  | reverse {id k' : ℕ} {m' : Message} {r : TimeOffRequest} {h : String} {hcm : HcmState} :
      (k', m') ∈ X.messages .hcmReverse id → X.requests.get id = some r →
      r.hcmRequestId = some h → X.hcm.reverseDeduction h = .ok hcm → X' = { X with hcm := hcm } →
      Exchange X X'
  /-- A reversal is confirmed. -/
  | finish {id k' : ℕ} {m' : Message} {r : TimeOffRequest} {h : String} :
      (k', m') ∈ X.messages .hcmReverse id → X.requests.get id = some r →
      r.hcmRequestId = some h → X.hcm.requestIndex h = none → X' = X.finish k' m' → Exchange X X'

variable {X X' : Ends} {id id' k k' j : ℕ} {m m' n : Message} {r r' : TimeOffRequest}
  {d : DeductionRecord} {h : String} {type type' : OutboxEventType}
  {f : TimeOffRequest → TimeOffRequest}

/-! ## Messages -/

namespace Ends

@[simp] theorem requests_post : (X.post k m).requests = X.requests := rfl
@[simp] theorem outbox_updateRequest : (X.updateRequest id f).outbox = X.outbox := rfl
@[simp] theorem requests_updateRequest :
    (X.updateRequest id f).requests = X.requests.update id f := rfl

theorem outbox_post : (X.post k m).outbox = Function.update X.outbox k (some m) := rfl

theorem mem_messages : (k, m) ∈ X.messages type id ↔
    X.outbox k = some m ∧ m.eventType = type ∧ m.requestId = id := Iff.rfl

/-- A message is of one type, and for one request. -/
theorem messages_inj (hm : (k, m) ∈ X.messages type id) (hm' : (k, m') ∈ X.messages type' id') :
    m = m' ∧ type = type' ∧ id = id' := by
  obtain ⟨hk, rfl, rfl⟩ := hm
  obtain ⟨hk', rfl, rfl⟩ := hm'
  obtain rfl := Option.some.inj (hk.symm.trans hk')
  exact ⟨rfl, rfl, rfl⟩

/-- The messages for a request, when one has been posted. -/
theorem mem_messages_post : (j, n) ∈ (X.post k m).messages type id ↔
    (j = k ∧ n = m ∧ m.eventType = type ∧ m.requestId = id) ∨
      (j ≠ k ∧ (j, n) ∈ X.messages type id) := by
  rw [mem_messages, outbox_post, Function.update_apply]
  by_cases hj : j = k
  · rw [if_pos hj, Option.some.injEq]
    constructor
    · rintro ⟨rfl, htype, hid⟩
      exact .inl ⟨hj, rfl, htype, hid⟩
    · rintro (⟨_, rfl, htype, hid⟩ | ⟨hne, _⟩)
      · exact ⟨rfl, htype, hid⟩
      · exact absurd hj hne
  · rw [if_neg hj, mem_messages]
    simp [hj]

/-- The messages of another type, or for another request, stay the same. -/
theorem messages_post_of_ne
    (hk : ∀ m₀, X.outbox k = some m₀ → ¬(m₀.eventType = type ∧ m₀.requestId = id))
    (hm : ¬(m.eventType = type ∧ m.requestId = id)) :
    (X.post k m).messages type id = X.messages type id := by
  ext ⟨j, n⟩
  rw [mem_messages_post]
  constructor
  · rintro (⟨_, _, hhead⟩ | ⟨_, hmem⟩)
    · exact absurd hhead hm
    · exact hmem
  · intro hmem
    refine .inr ⟨?_, hmem⟩
    rintro rfl
    exact hk n hmem.1 hmem.2

/-- The message that is posted, when there is no other. -/
theorem messages_post_self (hempty : X.messages m.eventType m.requestId ⊆ {(k, n)}) :
    (X.post k m).messages m.eventType m.requestId = {(k, m)} := by
  ext ⟨j, n'⟩
  rw [mem_messages_post, Set.mem_singleton_iff, Prod.mk.injEq]
  constructor
  · rintro (⟨hj, hn, _⟩ | ⟨hj, hmem⟩)
    · exact ⟨hj, hn⟩
    · exact absurd (Prod.mk.inj (hempty hmem)).1 hj
  · rintro ⟨hj, hn⟩
    exact .inl ⟨hj, hn, rfl, rfl⟩

/-- The messages besides the one that is done now. -/
theorem messages_finish_of_ne (hm : (k, m) ∈ X.messages type id)
    (hne : ¬(type = type' ∧ id = id')) :
    (X.finish k m).messages type' id' = X.messages type' id' := by
  obtain ⟨hk, rfl, rfl⟩ := hm
  refine messages_post_of_ne (fun m₀ hm₀ => ?_) hne
  obtain rfl := Option.some.inj (hk.symm.trans hm₀)
  exact hne

theorem messages_finish_self (hm : X.messages type id = {(k, m)}) :
    (X.finish k m).messages type id = {(k, m.finish)} := by
  obtain ⟨_, rfl, rfl⟩ : (k, m) ∈ X.messages type id := by rw [hm, Set.mem_singleton_iff]
  exact messages_post_self (m := m.finish) hm.subset

end Ends

/-! ## Stages -/

/-- A request that has been approved has a message for its deduction. -/
theorem Stage.mem_messages (hm : X.messages type id = {(k, m)}) :
    (k, m) ∈ X.messages type id := by
  rw [hm, Set.mem_singleton_iff]

/-- What a stage depends on: the messages for the request, and what the HCM
    holds for it. -/
theorem Stage.frame (hstage : Stage X id r)
    (hmessages : ∀ type, X'.messages type id = X.messages type id)
    (hdeduction : ∀ k m, (k, m) ∈ X.messages .hcmDeduct id → X'.deduction k = X.deduction k)
    (hindex : ∀ h, r.hcmRequestId = some h → X.hcm.requestIndex h = none →
      X'.hcm.requestIndex h = none) : Stage X' id r := by
  cases hstage with
  | unsent hdeduct hreverse hnone hstatus =>
    exact .unsent (by rw [hmessages, hdeduct]) (by rw [hmessages, hreverse]) hnone hstatus
  | sent hdeduct hreverse hopen hpayload hnone hstatus hpays =>
    exact .sent (by rw [hmessages, hdeduct]) (by rw [hmessages, hreverse]) hopen hpayload hnone
      hstatus (by rw [hdeduction _ _ (mem_messages hdeduct)]; exact hpays)
  | confirmed hdeduct hreverse hdone hstatus hlive hpays hid =>
    exact .confirmed (by rw [hmessages, hdeduct]) (by rw [hmessages, hreverse]) hdone hstatus
      (by rw [hdeduction _ _ (mem_messages hdeduct), hlive]) hpays hid
  | cancelled hdeduct hreverse hopen hopen' hpayload hnone hstatus hpays =>
    exact .cancelled (by rw [hmessages, hdeduct]) (by rw [hmessages, hreverse]) hopen hopen'
      hpayload hnone hstatus (by rw [hdeduction _ _ (mem_messages hdeduct)]; exact hpays)
  | reversing hdeduct hreverse hdone hopen' hstatus hlive hpays hid =>
    exact .reversing (by rw [hmessages, hdeduct]) (by rw [hmessages, hreverse]) hdone hopen'
      hstatus (by rw [hdeduction _ _ (mem_messages hdeduct), hlive]) hpays hid
  | reversed hdeduct hreverse hdone hstatus hnone hid hgone =>
    exact .reversed (by rw [hmessages, hdeduct]) (by rw [hmessages, hreverse]) hdone hstatus
      (by rw [hdeduction _ _ (mem_messages hdeduct), hnone]) hid (hindex _ hid hgone)

/-- A request whose deduction is not confirmed awaits it, or has been cancelled. -/
theorem Stage.of_open (hstage : Stage X id r) (hm : (k, m) ∈ X.messages .hcmDeduct id)
    (hopen : m.done = false) :
    X.messages .hcmDeduct id = {(k, m)} ∧ m.payload = some r.deductPayload ∧
      r.hcmRequestId = none ∧ (∀ d, X.deduction k = some d → d.Pays r) ∧
      ((X.messages .hcmReverse id = ∅ ∧ (r.status = .approvedPendingHcm ∨ r.status = .failed)) ∨
      (r.status = .cancelled ∧
        ∃ k' m', X.messages .hcmReverse id = {(k', m')} ∧ m'.done = false)) := by
  have hself : ∀ {k₀ m₀}, X.messages .hcmDeduct id = {(k₀, m₀)} → k = k₀ ∧ m = m₀ := by
    intro k₀ m₀ hdeduct
    rwa [hdeduct, Set.mem_singleton_iff, Prod.mk.injEq] at hm
  -- The three stages in which the deduction is not done, and the three in which it is.
  cases hstage with
  | unsent hdeduct _ _ _ =>
    rw [hdeduct] at hm
    cases hm
  | sent hdeduct hreverse _ hpayload hnone hstatus hpays =>
    obtain ⟨rfl, rfl⟩ := hself hdeduct
    exact ⟨hdeduct, hpayload, hnone, hpays, .inl ⟨hreverse, hstatus⟩⟩
  | cancelled hdeduct hreverse _ hopen' hpayload hnone hstatus hpays =>
    obtain ⟨rfl, rfl⟩ := hself hdeduct
    exact ⟨hdeduct, hpayload, hnone, hpays, .inr ⟨hstatus, _, _, hreverse, hopen'⟩⟩
  | confirmed hdeduct _ hdone _ _ _ _ | reversing hdeduct _ hdone _ _ _ _ _
  | reversed hdeduct _ hdone _ _ _ _ =>
    obtain ⟨rfl, rfl⟩ := hself hdeduct
    rw [hopen] at hdone
    cases hdone

/-- A request with a reversal that knows its deduction has it, or has got it
    reversed. -/
theorem Stage.of_reversal (hstage : Stage X id r) (hm : (k', m') ∈ X.messages .hcmReverse id)
    (hid : r.hcmRequestId = some h) : ∃ k m, X.messages .hcmDeduct id = {(k, m)} ∧
      X.messages .hcmReverse id = {(k', m')} ∧ m.done = true ∧ r.status = .cancelled ∧
      ((m'.done = false ∧ ∃ d, X.deduction k = some d ∧ d.Pays r ∧ d.hcmRequestId = h) ∨
      (X.deduction k = none ∧ X.hcm.requestIndex h = none)) := by
  have hself : ∀ {k₀ m₀}, X.messages .hcmReverse id = {(k₀, m₀)} → k' = k₀ ∧ m' = m₀ := by
    intro k₀ m₀ hreverse
    rwa [hreverse, Set.mem_singleton_iff, Prod.mk.injEq] at hm
  cases hstage with
  | unsent _ hreverse _ _ | sent _ hreverse _ _ _ _ _ | confirmed _ hreverse _ _ _ _ _ =>
    rw [hreverse] at hm
    cases hm
  | cancelled _ _ _ _ _ hnone _ _ =>
    rw [hnone] at hid
    cases hid
  | reversing hdeduct hreverse hdone hopen' hstatus hlive hpays hid' =>
    obtain ⟨rfl, rfl⟩ := hself hreverse
    rw [hid', Option.some.injEq] at hid
    exact ⟨_, _, hdeduct, hreverse, hdone, hstatus, .inl ⟨hopen', _, hlive, hpays, hid⟩⟩
  | reversed hdeduct hreverse hdone hstatus hnone hid' hgone =>
    obtain ⟨rfl, rfl⟩ := hself hreverse
    rw [hid', Option.some.injEq] at hid
    subst hid
    exact ⟨_, _, hdeduct, hreverse, hdone, hstatus, .inr ⟨hnone, hgone⟩⟩

/-- A step that only concerns the request `id`. -/
theorem Corresponds.of_frame (hX : Corresponds X) (hground : Grounded X') (id : ℕ)
    (hrequests : ∀ j, j ≠ id → X'.requests.get j = X.requests.get j)
    (hmessages : ∀ j, j ≠ id → ∀ type, X'.messages type j = X.messages type j)
    (hdeduction : ∀ j, j ≠ id → ∀ k m, (k, m) ∈ X.messages .hcmDeduct j →
      X'.deduction k = X.deduction k)
    (hindex : ∀ h, Issued X.hcm.requestCounter h → X.hcm.requestIndex h = none →
      X'.hcm.requestIndex h = none)
    (hstage : ∀ r, X'.requests.get id = some r → Stage X' id r) : Corresponds X' where
  toGrounded := hground
  stage j r hr := by
    by_cases hj : j = id
    · subst hj
      exact hstage r hr
    · rw [hrequests j hj] at hr
      exact (hX.stage j r hr).frame (hmessages j hj) (hdeduction j hj)
        fun h hid => hindex h (hX.issued j r h hr hid)

/-! ## What stays grounded -/

namespace Grounded

/-- A new request has no id of the HCM. -/
theorem insertRequest (hX : Grounded X) (hnone : r.hcmRequestId = none) :
    Grounded { X with requests := X.requests.insert r } where
  owned k m hm := by
    obtain ⟨q, hq⟩ := hX.owned k m hm
    exact ⟨q, Table.get_insert_of_some hq⟩
  asked := hX.asked
  issued j q h hq hid := by
    rcases Table.get_insert_eq_some.1 hq with ⟨_, rfl⟩ | hq
    · rw [hnone] at hid
      cases hid
    · exact hX.issued j q h hq hid
  hcm := hX.hcm

/-- A request may get an id that has been given out, and keep the one that it has.
    -/
theorem updateRequest (hX : Grounded X)
    (hf : ∀ r h, X.requests.get id = some r → (f r).hcmRequestId = some h →
      r.hcmRequestId = some h ∨ Issued X.hcm.requestCounter h) :
    Grounded (X.updateRequest id f) where
  owned k m hm := by
    obtain ⟨q, hq⟩ := hX.owned k m hm
    rw [Ends.requests_updateRequest, Table.get_update, hq]
    split
    · exact ⟨f q, rfl⟩
    · exact ⟨q, rfl⟩
  asked := hX.asked
  issued j q h hq hid := by
    rw [Ends.requests_updateRequest, Table.get_update] at hq
    split at hq
    · next hj =>
      rw [hj, Option.map_eq_some_iff] at hq
      obtain ⟨q, hq, rfl⟩ := hq
      rcases hf q h hq hid with hid | hissued
      · exact hX.issued _ q h hq hid
      · exact hissued
    · exact hX.issued j q h hq hid
  hcm := hX.hcm

/-- A message may be posted for a request that is there; if its place is taken, by
    a message of the same type. -/
theorem post (hX : Grounded X) (hr : X.requests.get m.requestId = some r)
    (hk : ∀ m₀, X.outbox k = some m₀ → m₀.eventType = m.eventType) : Grounded (X.post k m) where
  owned j n hn := by
    rw [Ends.outbox_post, PartialMap.set_eq_some] at hn
    rcases hn with ⟨_, rfl⟩ | ⟨_, hn⟩
    · exact ⟨r, hr⟩
    · exact hX.owned j n hn
  asked q d hd := by
    obtain ⟨j, n, hn, htype, hq⟩ := hX.asked q d hd
    rw [Ends.outbox_post]
    by_cases hj : j = k
    · subst hj
      exact ⟨j, m, Function.update_self .., by rw [← hk n hn, htype], hq⟩
    · exact ⟨j, n, by rw [Function.update_of_ne hj, hn], htype, hq⟩
  issued := hX.issued
  hcm := hX.hcm

theorem finish (hX : Grounded X) (hm : X.outbox k = some m) : Grounded (X.finish k m) := by
  obtain ⟨r, hr⟩ := hX.owned k m hm
  refine hX.post (m := m.finish) hr fun m₀ hm₀ => ?_
  rw [Option.some.inj (hm₀.symm.trans hm)]
  rfl

/-- The id of a new deduction is given out from now on. -/
theorem deduct (hX : Grounded X) (hm : (k, m) ∈ X.messages .hcmDeduct id)
    (hnone : X.deduction k = none) (p : DeductPayload) (balance : BalanceRecord) (now : Instant) :
    Grounded (X.deduct k p balance now) where
  owned := hX.owned
  asked q d hd := by
    rw [Ends.deduct, deductions_deduct _ (idempotencyKey_ne_empty k),
      PartialMap.set_eq_some] at hd
    rcases hd with ⟨hq, _⟩ | ⟨_, hd⟩
    · exact ⟨k, m, hm.1, hm.2.1, hq⟩
    · exact hX.asked q d hd
  issued j q h hq hid := (hX.issued j q h hq hid).mono (Nat.le_succ _)
  hcm := hX.hcm.deduct (idempotencyKey_ne_empty k) hnone balance

/-- What has been given out stays given out when it is reversed. -/
theorem reversed (hX : Grounded X) {q : String} (hd : X.hcm.deductions q = some d)
    (balance : BalanceRecord) :
    Grounded { X with hcm := (X.hcm.restore d balance).forget q d.hcmRequestId } where
  owned := hX.owned
  asked q' d' hd' := by
    rw [deductions_reversed, PartialMap.unset_eq_some] at hd'
    exact hX.asked q' d' hd'.2
  issued := hX.issued
  hcm := hX.hcm.reversed hd balance

end Grounded

/-! ## Steps -/

namespace Corresponds

/-- A request that is not there has no messages. -/
theorem messages_eq_empty (hX : Corresponds X) (hnone : X.requests.get id = none)
    (type : OutboxEventType) : X.messages type id = ∅ := by
  rw [Set.eq_empty_iff_forall_notMem]
  rintro ⟨k, m⟩ ⟨hk, _, rfl⟩
  obtain ⟨r, hr⟩ := hX.owned k m hk
  rw [hnone] at hr
  cases hr

/-- A new request is not sent. -/
theorem submit (hX : Corresponds X) (dto : SubmitRequestDto) (days : ℤ) :
    Corresponds { X with requests := X.requests.insert (dto.request days) } := by
  refine hX.of_frame (hX.insertRequest rfl) X.requests.nextId (fun j hj => ?_)
    (fun _ _ _ => rfl) (fun _ _ _ _ _ => rfl) (fun _ _ hnone => hnone) fun r hr => ?_
  · rw [Table.get_insert, if_neg hj]
  · rw [Table.get_insert, if_pos rfl] at hr
    obtain rfl := Option.some.inj hr
    exact .unsent (hX.messages_eq_empty Table.get_nextId _)
      (hX.messages_eq_empty Table.get_nextId _) rfl (.inl rfl)

/-- A change of one request, without a message. -/
theorem updateRequest (hX : Corresponds X) (hr : X.requests.get id = some r)
    (hid : (f r).hcmRequestId = r.hcmRequestId) (hstage : Stage X id (f r)) :
    Corresponds (X.updateRequest id f) := by
  refine hX.of_frame (hX.toGrounded.updateRequest fun q h hq hh => .inl ?_) id (fun j hj => ?_)
    (fun _ _ _ => rfl) (fun _ _ _ _ _ => rfl) (fun _ _ hnone => hnone) fun q hq => ?_
  · obtain rfl := Option.some.inj (hr.symm.trans hq)
    rw [← hid, hh]
  · exact Table.get_update_of_ne hj
  · obtain rfl := Option.some.inj ((Table.get_update_self hr).symm.trans hq)
    exact hstage.frame (fun _ => rfl) (fun _ _ _ => rfl) (fun _ _ hnone => hnone)

/-- A change of one request, with a message that is posted or done. -/
theorem updateRequest_post (hX : Corresponds X) (hr : X.requests.get m.requestId = some r)
    (hk : ∀ m₀, X.outbox k = some m₀ →
      m₀.eventType = m.eventType ∧ m₀.requestId = m.requestId)
    (hid : ∀ h, (f r).hcmRequestId = some h →
      r.hcmRequestId = some h ∨ Issued X.hcm.requestCounter h)
    (hstage : Stage ((X.updateRequest m.requestId f).post k m) m.requestId (f r)) :
    Corresponds ((X.updateRequest m.requestId f).post k m) := by
  have hmoved : (X.updateRequest m.requestId f).requests.get m.requestId = some (f r) :=
    Table.get_update_self hr
  have hground : Grounded (X.updateRequest m.requestId f) := by
    refine hX.toGrounded.updateRequest fun q h hq hh => ?_
    obtain rfl := Option.some.inj (hr.symm.trans hq)
    exact hid h hh
  refine hX.of_frame (hground.post hmoved fun m₀ hm₀ => (hk m₀ hm₀).1) m.requestId
    (fun j hj => Table.get_update_of_ne hj) (fun j hj type => ?_) (fun _ _ _ _ _ => rfl)
    (fun _ _ hnone => hnone) fun q hq => ?_
  · refine Ends.messages_post_of_ne (fun m₀ hm₀ hhead => hj ?_) fun hhead => hj hhead.2.symm
    rw [← hhead.2, (hk m₀ hm₀).2]
  · rw [Ends.requests_post, hmoved] at hq
    obtain rfl := Option.some.inj hq
    exact hstage

/-- A pending request has not been sent. -/
theorem unsent (hX : Corresponds X) (hr : X.requests.get id = some r)
    (hstatus : r.status = .pending) : X.messages .hcmDeduct id = ∅ ∧
      X.messages .hcmReverse id = ∅ ∧ r.hcmRequestId = none := by
  cases hX.stage id r hr with
  | unsent hdeduct hreverse hnone _ => exact ⟨hdeduct, hreverse, hnone⟩
  | sent _ _ _ _ _ hstatus' _ => rcases hstatus' with h | h <;> rw [h] at hstatus <;> cases hstatus
  | confirmed _ _ _ hstatus' _ _ _ | cancelled _ _ _ _ _ _ hstatus' _
  | reversing _ _ _ _ hstatus' _ _ _ | reversed _ _ _ hstatus' _ _ _ =>
    rw [hstatus'] at hstatus
    cases hstatus

/-- A request that is approved has been sent, and nothing has come back. -/
theorem sent (hX : Corresponds X) (hr : X.requests.get id = some r)
    (hstatus : r.status = .approvedPendingHcm) : ∃ k m, X.messages .hcmDeduct id = {(k, m)} ∧
      X.messages .hcmReverse id = ∅ ∧ m.done = false ∧ m.payload = some r.deductPayload ∧
      r.hcmRequestId = none ∧ ∀ d, X.deduction k = some d → d.Pays r := by
  cases hX.stage id r hr with
  | @sent k m hdeduct hreverse hopen hpayload hnone _ hpays =>
    exact ⟨k, m, hdeduct, hreverse, hopen, hpayload, hnone, hpays⟩
  | unsent _ _ _ hstatus' => simp [hstatus] at hstatus'
  | confirmed _ _ _ hstatus' _ _ _ | cancelled _ _ _ _ _ _ hstatus' _
  | reversing _ _ _ _ hstatus' _ _ _ | reversed _ _ _ hstatus' _ _ _ =>
    rw [hstatus'] at hstatus
    cases hstatus

/-- Nor is one that is rejected, or cancelled before its approval. -/
theorem settle (hX : Corresponds X) (hr : X.requests.get id = some r)
    (hstatus : r.status = .pending) {target : RequestStatus} {x : ExtraFields}
    (htarget : target = .rejected ∨ target = .cancelled) (hx : x.hcmRequestId = none) :
    Corresponds (X.updateRequest id (·.move target x)) := by
  obtain ⟨hdeduct, hreverse, hnone⟩ := hX.unsent hr hstatus
  have hid : (r.move target x).hcmRequestId = none := (hcmRequestId_move hx).trans hnone
  exact hX.updateRequest hr (hid.trans hnone.symm) (.unsent hdeduct hreverse hid (.inr htarget))

/-- An approved request is sent. -/
theorem approve (hX : Corresponds X) (hr : X.requests.get id = some r)
    (hstatus : r.status = .pending) {x : ExtraFields} (hx : x.hcmRequestId = none)
    (hk : X.outbox k = none) :
    Corresponds ((X.updateRequest id (·.move .approvedPendingHcm x)).post k (.deduct id r)) := by
  obtain ⟨hdeduct, hreverse, hnone⟩ := hX.unsent hr hstatus
  have hid : (r.move .approvedPendingHcm x).hcmRequestId = none :=
    (hcmRequestId_move hx).trans hnone
  have hfresh : ∀ m₀, X.outbox k ≠ some m₀ := fun m₀ hm₀ => by rw [hk] at hm₀; cases hm₀
  refine hX.updateRequest_post (m := .deduct id r) hr (fun m₀ hm₀ => absurd hm₀ (hfresh m₀))
    (fun h hh => ?_) (.sent (k := k) (m := .deduct id r) ?_ ?_ rfl rfl hid (.inl rfl)
      fun d hd => ?_)
  · rw [hid] at hh
    cases hh
  · exact Ends.messages_post_self (m := .deduct id r) (n := .deduct id r)
      (hdeduct.subset.trans (Set.empty_subset _))
  · exact (Ends.messages_post_of_ne (fun m₀ hm₀ => absurd hm₀ (hfresh m₀)) (by nofun)).trans
      hreverse
  · -- What is live has been asked for, and the key of a new message has not.
    obtain ⟨j, n, hn, _, hkey⟩ := hX.asked _ d hd
    rw [← idempotencyKey_injective hkey, hk] at hn
    cases hn

/-- A failed request stays sent: its deduction may be made, or may yet be made,
    all the same. -/
theorem fail (hX : Corresponds X) (hr : X.requests.get id = some r)
    (hstatus : r.status = .approvedPendingHcm) :
    Corresponds (X.updateRequest id (·.move .failed {})) := by
  obtain ⟨_, _, hdeduct, hreverse, hopen, hpayload, hnone, hpays⟩ := hX.sent hr hstatus
  exact hX.updateRequest hr rfl (.sent hdeduct hreverse hopen hpayload hnone (.inr rfl)
    fun d hd => ⟨(hpays d hd).key, (hpays d hd).days⟩)

/-- A request that is cancelled after its approval has a reversal that has to wait
    for the id. -/
theorem cancel (hX : Corresponds X) (hr : X.requests.get id = some r)
    (hstatus : r.status = .approvedPendingHcm) (hk : X.outbox k = none) :
    Corresponds ((X.updateRequest id (·.move .cancelled {})).post k (.reverse id)) := by
  have hfresh : ∀ m₀, X.outbox k ≠ some m₀ := fun m₀ hm₀ => by rw [hk] at hm₀; cases hm₀
  refine hX.updateRequest_post (m := .reverse id) hr (fun m₀ hm₀ => absurd hm₀ (hfresh m₀))
    (fun h hh => .inl hh) ?_
  obtain ⟨_, _, hdeduct, hreverse, hopen, hpayload, hnone, hpays⟩ := hX.sent hr hstatus
  have hdeduct' := (Ends.messages_post_of_ne (m := .reverse id)
    (fun m₀ hm₀ => absurd hm₀ (hfresh m₀)) (by nofun)).trans hdeduct
  have hreverse' := Ends.messages_post_self (k := k) (m := .reverse id) (n := .reverse id)
    (hreverse.subset.trans (Set.empty_subset _))
  exact .cancelled hdeduct' hreverse' hopen rfl hpayload hnone rfl
    fun d hd => ⟨(hpays d hd).key, (hpays d hd).days⟩

/-- The HCM deducts what the message asks for. -/
theorem deduct (hX : Corresponds X) (hm : (k, m) ∈ X.messages .hcmDeduct id)
    (hopen : m.done = false) {p : DeductPayload} (hp : m.payload = some p)
    (hnone : X.deduction k = none) (balance : BalanceRecord) (now : Instant) :
    Corresponds (X.deduct k p balance now) := by
  -- The key names the message: a deduction is made for this one and for no other.
  have hdeduction : ∀ j, (X.deduct k p balance now).deduction j = if j = k then
      some { p with hcmRequestId := X.hcm.nextRequestId now } else X.deduction j := by
    intro j
    rw [Ends.deduction, Ends.deduct, deductions_deduct _ (idempotencyKey_ne_empty k),
      Function.update_apply]
    exact if_congr idempotencyKey_injective.eq_iff rfl rfl
  refine hX.of_frame (hX.toGrounded.deduct hm hnone p balance now) id (fun _ _ => rfl)
    (fun _ _ _ => rfl) (fun j hj k' m' hm' => ?_) (fun h hissued hgone => ?_) fun r hr => ?_
  · have hne : k' ≠ k := by
      rintro rfl
      exact hj (Ends.messages_inj hm' hm).2.2
    rw [hdeduction, if_neg hne]
  · -- The new id has not been given out before.
    rw [Ends.deduct, requestIndex_deduct, Function.update_of_ne, hgone]
    rintro rfl
    exact X.hcm.nextRequestId_not_issued now hissued
  · obtain ⟨hdeduct, hpayload, hnone', _, hrest⟩ := (hX.stage id r hr).of_open hm hopen
    obtain rfl := Option.some.inj (hp.symm.trans hpayload)
    have hpays : ∀ d, (X.deduct k r.deductPayload balance now).deduction k = some d →
        d.Pays r := by
      intro d hd
      rw [hdeduction, if_pos rfl, Option.some.injEq] at hd
      rw [← hd]
      exact ⟨rfl, rfl⟩
    rcases hrest with ⟨hreverse, hstatus⟩ | ⟨hstatus, k', m', hreverse, hopen'⟩
    · exact .sent hdeduct hreverse hopen hpayload hnone' hstatus hpays
    · exact .cancelled hdeduct hreverse hopen hopen' hpayload hnone' hstatus hpays

/-- What confirming a deduction does to the messages for its request. -/
theorem messages_confirmed (hdeduct : X.messages .hcmDeduct id = {(k, m)}) :
    ((X.updateRequest id f).finish k m).messages .hcmDeduct id = {(k, m.finish)} ∧
      ((X.updateRequest id f).finish k m).messages .hcmReverse id =
        X.messages .hcmReverse id :=
  ⟨Ends.messages_finish_self hdeduct,
    Ends.messages_finish_of_ne (Stage.mem_messages hdeduct) (by nofun)⟩

/-- A deduction is confirmed, and the request told its id. -/
theorem confirmed (hX : Corresponds X) (hdeduct : X.messages .hcmDeduct id = {(k, m)})
    (hd : X.deduction k = some d) (hr : X.requests.get id = some r)
    (hid : (f r).hcmRequestId = some d.hcmRequestId)
    (hstage : Stage ((X.updateRequest id f).finish k m) id (f r)) :
    Corresponds ((X.updateRequest id f).finish k m) := by
  obtain ⟨hk, _, rfl⟩ := Stage.mem_messages hdeduct
  refine hX.updateRequest_post (m := m.finish) hr (fun m₀ hm₀ => ?_) (fun h hh => .inr ?_) hstage
  · obtain rfl := Option.some.inj (hk.symm.trans hm₀)
    exact ⟨rfl, rfl⟩
  · rw [hid, Option.some.injEq] at hh
    exact hh ▸ hX.hcm.issued _ d hd

/-- A deduction that is confirmed is the one of its request, by its key. -/
theorem confirm (hX : Corresponds X) (hm : (k, m) ∈ X.messages .hcmDeduct id)
    (hopen : m.done = false) (hd : X.deduction k = some d) (hr : X.requests.get id = some r)
    (hstatus : r.status ≠ .cancelled) :
    Corresponds ((X.updateRequest id
      (·.move .approved { hcmRequestId := some d.hcmRequestId })).finish k m) := by
  obtain ⟨hdeduct, _, _, hpays, hrest⟩ := (hX.stage id r hr).of_open hm hopen
  obtain ⟨hdeduct', hreverse'⟩ := messages_confirmed
    (f := (·.move .approved { hcmRequestId := some d.hcmRequestId })) hdeduct
  rcases hrest with ⟨hreverse, _⟩ | ⟨hcancelled, _⟩
  · exact hX.confirmed hdeduct hd hr rfl (.confirmed hdeduct' (hreverse'.trans hreverse) rfl rfl hd
      ⟨(hpays d hd).key, (hpays d hd).days⟩ rfl)
  · exact absurd hcancelled hstatus

/-- A cancelled request that is told the id of its deduction can be reversed. -/
theorem stamp (hX : Corresponds X) (hm : (k, m) ∈ X.messages .hcmDeduct id)
    (hopen : m.done = false) (hd : X.deduction k = some d) (hr : X.requests.get id = some r)
    (hstatus : r.status = .cancelled) :
    Corresponds ((X.updateRequest id (·.stamp d.hcmRequestId)).finish k m) := by
  obtain ⟨hdeduct, _, _, hpays, hrest⟩ := (hX.stage id r hr).of_open hm hopen
  obtain ⟨hdeduct', hreverse'⟩ := messages_confirmed (f := (·.stamp d.hcmRequestId)) hdeduct
  rcases hrest with ⟨_, hother⟩ | ⟨_, k', m', hreverse, hopen'⟩
  · rw [hstatus] at hother
    rcases hother with hother | hother <;> cases hother
  · exact hX.confirmed hdeduct hd hr rfl (.reversing hdeduct' (hreverse'.trans hreverse) rfl hopen'
      hstatus hd ⟨(hpays d hd).key, (hpays d hd).days⟩ rfl)

/-- A reversal finds the deduction of its own request, and no other. -/
theorem reverse (hX : Corresponds X) (hm : (k', m') ∈ X.messages .hcmReverse id)
    (hr : X.requests.get id = some r) (hid : r.hcmRequestId = some h) {hcm : HcmState}
    (hreversed : X.hcm.reverseDeduction h = .ok hcm) : Corresponds { X with hcm := hcm } := by
  obtain ⟨q, d, balance, hd, hdid, hb, rfl⟩ := hX.hcm.reverseDeduction_ok hreversed
  have hindex := hX.hcm.indexed q d hd
  obtain ⟨k, m, hdeduct, hreverse, hdone, hstatus, ⟨hopen', d', hd', hpays, hdid'⟩ | ⟨_, hgone⟩⟩ :=
    (hX.stage id r hr).of_reversal hm hid
  · obtain rfl : q = idempotencyKey k := hX.hcm.key_unique hd hd' (hdid.trans hdid'.symm)
    subst hdid
    refine hX.of_frame (hX.toGrounded.reversed hd balance) id (fun _ _ => rfl) (fun _ _ _ => rfl)
      (fun j hj i n hn => ?_) (fun h' hissued hgone => ?_) fun r' hr' => ?_
    · have hne : i ≠ k := by
        rintro rfl
        exact hj (Ends.messages_inj hn (Stage.mem_messages hdeduct)).2.2
      rw [Ends.deduction, deductions_reversed, Function.update_of_ne fun hk =>
        hne (idempotencyKey_injective hk)]
      rfl
    · rw [requestIndex_reversed, Function.update_apply, hgone, ite_self]
    · obtain rfl := Option.some.inj (hr.symm.trans hr')
      exact .reversed hdeduct hreverse hdone hstatus (Function.update_self ..) hid
        (Function.update_self ..)
  · rw [hdid, hgone] at hindex
    cases hindex

/-- A reversal is confirmed when the HCM does not know the deduction. -/
theorem finish (hX : Corresponds X) (hm : (k', m') ∈ X.messages .hcmReverse id)
    (hr : X.requests.get id = some r) (hid : r.hcmRequestId = some h)
    (hgone : X.hcm.requestIndex h = none) : Corresponds (X.finish k' m') := by
  have hne : ∀ {type j}, ¬(.hcmReverse = type ∧ id = j) →
      (X.finish k' m').messages type j = X.messages type j := Ends.messages_finish_of_ne hm
  refine hX.of_frame (hX.toGrounded.finish hm.1) id (fun _ _ => rfl)
    (fun j hj type => hne fun hhead => hj hhead.2.symm) (fun _ _ _ _ _ => rfl)
    (fun _ _ hgone => hgone) fun r' hr' => ?_
  obtain rfl := Option.some.inj (hr.symm.trans hr')
  obtain ⟨k, m, hdeduct, hreverse, hdone, hstatus, ⟨_, d, hd, _, hdid⟩ | ⟨hnone, _⟩⟩ :=
    (hX.stage id r hr).of_reversal hm hid
  · -- A deduction that is live is in the index.
    rw [← hdid, hX.hcm.indexed _ d hd] at hgone
    cases hgone
  · exact .reversed ((hne (by nofun)).trans hdeduct) (Ends.messages_finish_self hreverse) hdone
      hstatus hnone hid hgone

/-- Every step of the exchange keeps the two ends in correspondence. -/
theorem exchange (hX : Corresponds X) (hstep : Exchange X X') : Corresponds X' := by
  cases hstep with
  | stay hX' => exact hX' ▸ hX
  | submit hX' => exact hX' ▸ hX.submit _ _
  | settle hr hstatus htarget hx hX' => exact hX' ▸ hX.settle hr hstatus htarget hx
  | fail hr hstatus hX' => exact hX' ▸ hX.fail hr hstatus
  | approve hr hstatus hx hk hX' => exact hX' ▸ hX.approve hr hstatus hx hk
  | cancel hr hstatus hk hX' => exact hX' ▸ hX.cancel hr hstatus hk
  | deduct hm hopen hp hnone _ hX' => exact hX' ▸ hX.deduct hm hopen hp hnone _ _
  | confirm hm hopen hd hr hstatus hX' => exact hX' ▸ hX.confirm hm hopen hd hr hstatus
  | stamp hm hopen hd hr hstatus hX' => exact hX' ▸ hX.stamp hm hopen hd hr hstatus
  | reverse hm hr hid hreversed hX' => exact hX' ▸ hX.reverse hm hr hid hreversed
  | finish hm hr hid hgone hX' => exact hX' ▸ hX.finish hm hr hid hgone

end Corresponds

/-! ## What the stages say about the HCM -/

namespace Corresponds

/-- There is one message at most for the deduction of a request. -/
theorem subsingleton_messages (hX : Corresponds X) (id : ℕ) :
    (X.messages .hcmDeduct id).Subsingleton := by
  cases hr : X.requests.get id with
  | none => rw [hX.messages_eq_empty hr]; exact Set.subsingleton_empty
  | some r =>
    cases hX.stage id r hr with
    | unsent hdeduct _ _ _ => rw [hdeduct]; exact Set.subsingleton_empty
    | sent hdeduct _ _ _ _ _ _ | confirmed hdeduct _ _ _ _ _ _
    | cancelled hdeduct _ _ _ _ _ _ _ | reversing hdeduct _ _ _ _ _ _ _
    | reversed hdeduct _ _ _ _ _ _ => rw [hdeduct]; exact Set.subsingleton_singleton

/-- An approved request has its days deducted, and knows by which deduction. -/
theorem deduction_of_approved (hX : Corresponds X) (hr : X.requests.get id = some r)
    (hstatus : r.status = .approved) : ∃ k m d, (k, m) ∈ X.messages .hcmDeduct id ∧
      X.deduction k = some d ∧ d.Pays r ∧ r.hcmRequestId = some d.hcmRequestId := by
  cases hX.stage id r hr with
  | confirmed hdeduct _ _ _ hlive hpays hid =>
    exact ⟨_, _, _, Stage.mem_messages hdeduct, hlive, hpays, hid⟩
  | unsent _ _ _ hstatus' => simp [hstatus] at hstatus'
  | sent _ _ _ _ _ hstatus' _ => simp [hstatus] at hstatus'
  | cancelled _ _ _ _ _ _ hstatus' _ | reversing _ _ _ _ hstatus' _ _ _
  | reversed _ _ _ hstatus' _ _ _ =>
    rw [hstatus'] at hstatus
    cases hstatus

/-- As long as the HCM holds a deduction for a cancelled request, the reversal
    is open. -/
theorem reversal_open (hX : Corresponds X) (hr : X.requests.get id = some r)
    (hstatus : r.status = .cancelled) (hm : (k, m) ∈ X.messages .hcmDeduct id)
    (hd : X.deduction k = some d) :
    ∃ k' m', (k', m') ∈ X.messages .hcmReverse id ∧ m'.done = false := by
  cases hX.stage id r hr with
  | cancelled _ hreverse _ hopen' _ _ _ _ => exact ⟨_, _, Stage.mem_messages hreverse, hopen'⟩
  | reversing _ hreverse _ hopen' _ _ _ _ => exact ⟨_, _, Stage.mem_messages hreverse, hopen'⟩
  | unsent hdeduct _ _ _ =>
    rw [hdeduct] at hm
    cases hm
  | sent _ _ _ _ _ hstatus' _ => simp [hstatus] at hstatus'
  | confirmed _ _ _ hstatus' _ _ _ =>
    rw [hstatus'] at hstatus
    cases hstatus
  | reversed hdeduct _ _ _ hnone _ _ =>
    rw [hdeduct, Set.mem_singleton_iff, Prod.mk.injEq] at hm
    rw [hm.1, hnone] at hd
    cases hd

/-- When all messages are done, what is live is for approved requests. -/
theorem approved_of_live (hX : Corresponds X) (hdone : ∀ k m, X.outbox k = some m → m.done = true)
    (hm : (k, m) ∈ X.messages .hcmDeduct id) (hd : X.deduction k = some d) :
    ∃ r, X.requests.get id = some r ∧ r.status = .approved := by
  obtain ⟨r, hr⟩ := hX.owned k m hm.1
  rw [hm.2.2] at hr
  refine ⟨r, hr, ?_⟩
  have hnever : ∀ {type k m}, X.messages type id = {(k, m)} → m.done ≠ false := by
    intro type k m hmessages hopen
    rw [hdone k m (Stage.mem_messages hmessages).1] at hopen
    cases hopen
  cases hX.stage id r hr with
  | confirmed _ _ _ hstatus _ _ _ => exact hstatus
  | unsent hdeduct _ _ _ =>
    rw [hdeduct] at hm
    cases hm
  | sent hdeduct _ hopen _ _ _ _ => exact absurd hopen (hnever hdeduct)
  | cancelled hdeduct _ hopen _ _ _ _ _ => exact absurd hopen (hnever hdeduct)
  | reversing _ hreverse _ hopen' _ _ _ _ => exact absurd hopen' (hnever hreverse)
  | reversed hdeduct _ _ _ hnone _ _ =>
    rw [hdeduct, Set.mem_singleton_iff, Prod.mk.injEq] at hm
    rw [hm.1, hnone] at hd
    cases hd

end Corresponds

/-! ## What is never undone -/

/-- What whoever is in the middle of the exchange may rely on. -/
structure Persists (X X' : Ends) : Prop where
  message : ∀ k m, X.outbox k = some m → ∃ m', X'.outbox k = some m' ∧
    m'.eventType = m.eventType ∧ m'.requestId = m.requestId ∧ m'.payload = m.payload
  told : ∀ id r h, X.requests.get id = some r → r.hcmRequestId = some h →
    ∃ r', X'.requests.get id = some r' ∧ r'.hcmRequestId = some h
  gone : ∀ id r h, X.requests.get id = some r → r.hcmRequestId = some h →
    X.hcm.requestIndex h = none → X'.hcm.requestIndex h = none
  /-- Nothing is reversed before it is confirmed. -/
  live : ∀ id k m d, (k, m) ∈ X.messages .hcmDeduct id → m.done = false →
    X.deduction k = some d → X'.deduction k = some d

theorem Persists.refl (X : Ends) : Persists X X where
  message _ m hm := ⟨m, hm, rfl, rfl, rfl⟩
  told _ r _ hr hid := ⟨r, hr, hid⟩
  gone _ _ _ _ _ hgone := hgone
  live _ _ _ _ _ _ hd := hd

/-- A change of one request. -/
theorem Persists.updateRequest (hf : ∀ r h, X.requests.get id = some r →
      r.hcmRequestId = some h → (f r).hcmRequestId = some h) :
    Persists X (X.updateRequest id f) where
  message _ m hm := ⟨m, hm, rfl, rfl, rfl⟩
  told j r h hr hid := by
    rw [Ends.requests_updateRequest, Table.get_update, hr]
    split
    · next hj => exact ⟨f r, rfl, hf r h (hj ▸ hr) hid⟩
    · exact ⟨r, rfl, hid⟩
  gone _ _ _ _ _ hgone := hgone
  live _ _ _ _ _ _ hd := hd

/-- A message that is posted in the place of one says the same. -/
theorem Persists.post (hX : Persists X X') (hk : ∀ m₀, X.outbox k = some m₀ →
      m.eventType = m₀.eventType ∧ m.requestId = m₀.requestId ∧ m.payload = m₀.payload) :
    Persists X (X'.post k m) where
  message j m₀ hm₀ := by
    rw [Ends.outbox_post, Function.update_apply]
    split
    · next hj => exact ⟨m, rfl, hk m₀ (hj ▸ hm₀)⟩
    · exact hX.message j m₀ hm₀
  told := hX.told
  gone := hX.gone
  live := hX.live

theorem Persists.finish (hX : Persists X X') (hm : X.outbox k = some m) :
    Persists X (X'.finish k m) :=
  hX.post fun m₀ hm₀ => by
    obtain rfl := Option.some.inj (hm.symm.trans hm₀)
    exact ⟨rfl, rfl, rfl⟩

/-- The HCM forgets no deduction that is not confirmed, and gives out no id
    twice. -/
theorem Corresponds.persists_deduct (hX : Corresponds X) (hnone : X.deduction k = none)
    (p : DeductPayload) (balance : BalanceRecord) (now : Instant) :
    Persists X (X.deduct k p balance now) where
  message _ m hm := ⟨m, hm, rfl, rfl, rfl⟩
  told _ r _ hr hid := ⟨r, hr, hid⟩
  gone j r h hr hid hgone := by
    rw [Ends.deduct, requestIndex_deduct, Function.update_of_ne, hgone]
    rintro rfl
    exact X.hcm.nextRequestId_not_issued now (hX.issued j r _ hr hid)
  live _ j _ d _ _ hd := by
    rw [Ends.deduction, Ends.deduct, deductions_deduct _ (idempotencyKey_ne_empty k),
      Function.update_of_ne]
    · exact hd
    · intro hj
      rw [idempotencyKey_injective hj, hnone] at hd
      cases hd

/-- A reversal takes a deduction away, but not one that is still waited for. -/
theorem Corresponds.persists_reverse (hX : Corresponds X)
    (hm : (k', m') ∈ X.messages .hcmReverse id) (hr : X.requests.get id = some r)
    (hid : r.hcmRequestId = some h) {hcm : HcmState}
    (hreversed : X.hcm.reverseDeduction h = .ok hcm) : Persists X { X with hcm := hcm } := by
  obtain ⟨q, d, balance, hd, hdid, _, rfl⟩ := hX.hcm.reverseDeduction_ok hreversed
  have hindex := hX.hcm.indexed q d hd
  refine ⟨fun _ m hm => ⟨m, hm, rfl, rfl, rfl⟩, fun _ r _ hr hid => ⟨r, hr, hid⟩,
    fun _ _ h' _ _ hgone => ?_, fun j i n c hn hopen hc => ?_⟩
  · rw [requestIndex_reversed, Function.update_apply, hgone, ite_self]
  · obtain ⟨k, m, hdeduct, _, hdone, _, ⟨_, d', hd', _, hdid'⟩ | ⟨_, hgone⟩⟩ :=
      (hX.stage id r hr).of_reversal hm hid
    · obtain rfl : q = idempotencyKey k := hX.hcm.key_unique hd hd' (hdid.trans hdid'.symm)
      rw [Ends.deduction, deductions_reversed, Function.update_of_ne]
      · exact hc
      · intro hi
        -- The deduction that is reversed is confirmed, and this one is not.
        obtain rfl := idempotencyKey_injective hi
        rw [(Ends.messages_inj hn (Stage.mem_messages hdeduct)).1, hdone] at hopen
        cases hopen
    · rw [hdid, hgone] at hindex
      cases hindex

/-- What a handler relies on outlasts every step of the exchange. -/
theorem Corresponds.persists (hX : Corresponds X) (hstep : Exchange X X') : Persists X X' := by
  -- A new message has a new id.
  have hfresh : ∀ {k : ℕ} {m : Message}, X.outbox k = none → ∀ m₀, X.outbox k = some m₀ →
      m.eventType = m₀.eventType ∧ m.requestId = m₀.requestId ∧ m.payload = m₀.payload := by
    intro k m hk m₀ hm₀
    rw [hk] at hm₀
    cases hm₀
  have hconfirm : ∀ {id k : ℕ} {m : Message} {r : TimeOffRequest}
      {f : TimeOffRequest → TimeOffRequest}, (k, m) ∈ X.messages .hcmDeduct id →
      m.done = false → X.requests.get id = some r →
      Persists X ((X.updateRequest id f).finish k m) := by
    intro id k m r f hm hopen hr
    refine (Persists.updateRequest fun q h hq hid => ?_).finish hm.1
    obtain rfl := Option.some.inj (hr.symm.trans hq)
    rw [((hX.stage id r hr).of_open hm hopen).2.2.1] at hid
    cases hid
  cases hstep with
  | stay hX' => exact hX' ▸ .refl X
  | submit hX' =>
    subst hX'
    exact ⟨fun _ m hm => ⟨m, hm, rfl, rfl, rfl⟩,
      fun _ r _ hr hid => ⟨r, Table.get_insert_of_some hr, hid⟩, fun _ _ _ _ _ hgone => hgone,
      fun _ _ _ _ _ _ hd => hd⟩
  | settle _ _ _ hx hX' =>
    exact hX' ▸ .updateRequest fun _ _ _ hid => (hcmRequestId_move hx).trans hid
  | fail _ _ hX' => exact hX' ▸ .updateRequest fun _ _ _ hid => hid
  | approve _ _ hx hk hX' =>
    exact hX' ▸ (Persists.updateRequest fun _ _ _ hid =>
      (hcmRequestId_move hx).trans hid).post (hfresh hk)
  | cancel _ _ hk hX' =>
    exact hX' ▸ (Persists.updateRequest fun _ _ _ hid =>
      (hcmRequestId_move rfl).trans hid).post (hfresh hk)
  | deduct _ _ _ hnone _ hX' => exact hX' ▸ hX.persists_deduct hnone _ _ _
  | confirm hm hopen _ hr _ hX' => exact hX' ▸ hconfirm hm hopen hr
  | stamp hm hopen _ hr _ hX' => exact hX' ▸ hconfirm hm hopen hr
  | reverse hm hr hid hreversed hX' => exact hX' ▸ hX.persists_reverse hm hr hid hreversed
  | finish hm _ _ _ hX' => exact hX' ▸ (Persists.refl X).finish hm.1

end TimeOff
