import TimeOff.ExactlyOnce
import TimeOff.HcmServer

/-!
# Ids of deductions

The id of a deduction is made by the HCM, goes to the handler that has asked for
the deduction, from there into the row of the request, and from the row to the
handler that reverses the deduction. So wherever there is one, the HCM has given
it out (`Genuine`), whatever the runs are, as long as `completeDeductionFromOutbox`
is called with such an id.
-/

namespace TimeOff

open Transition HcmState

/-- The id of a deduction that a handler has in this phase. -/
def Phase.hcmRequestId : Phase → Option String
  | .completeDeduction hcmRequestId | .reverseDeduction hcmRequestId => some hcmRequestId
  | _ => none

/-- The HCM has given out all ids of deductions that there are. -/
structure Genuine (s : State) : Prop where
  hcm : s.hcm.Sound
  row : ∀ id r h, s.db.requests.get id = some r → r.hcmRequestId = some h →
    Issued s.hcm.requestCounter h
  phase : ∀ i h x, s.handler i = some h → h.phase.hcmRequestId = some x →
    Issued s.hcm.requestCounter x

/-- The callback of a deduction is called with an id of the HCM. -/
def Answered (s : State) : Action → Prop
  | .completeDeductionFromOutbox _ hcmRequestId => Issued s.hcm.requestCounter hcmRequestId
  | _ => True

variable {cfg : Config} {s s' s₀ : State} {a : Action} {h : Handler} {now : Instant}
  {db db' : Database} {hcm hcm' : HcmState} {p : Progress} {x : String} {r r' : TimeOffRequest}
  {id i : ℕ}

/-- The HCM stays sound, whatever a handler asks of it, and takes no id back. -/
theorem Handled.sound (hh : Handled cfg now db hcm h db' hcm' p) (hsound : hcm.Sound) :
    hcm'.Sound ∧ hcm.requestCounter ≤ hcm'.requestCounter := by
  cases hh with
  | deducted o _ _ hd =>
    obtain ⟨hsound', hle, _⟩ := hsound.deductBalance (idempotencyKey_ne_empty _) hd
    exact ⟨hsound', hle⟩
  | reversed o _ hr =>
    obtain ⟨hsound', heq⟩ := hsound.reverseDeduction hr
    exact ⟨hsound', heq.le⟩
  | _ => exact ⟨hsound, le_rfl⟩

/-- A handler has an id from the HCM, or from the row of its request. -/
theorem Handled.genuine {phase : Phase} (hh : Handled cfg now db hcm h db' hcm' p)
    (hp : p = .running phase) (hx : phase.hcmRequestId = some x) (hsound : hcm.Sound) :
    Issued hcm'.requestCounter x ∨
      ∃ r, db.requests.get h.event.requestId = some r ∧ r.hcmRequestId = some x := by
  cases hh with
  | @deducted q hcmRequestId hcm' o _ _ hd =>
    rcases respond_eq_running hp with rfl | rfl
    · obtain rfl := Option.some.inj hx
      exact .inl (hsound.deductBalance (idempotencyKey_ne_empty _) hd).2.2
    · cases hx
  | selected _ hr hid =>
    obtain rfl := Progress.running.inj hp
    obtain rfl := Option.some.inj hx
    exact .inr ⟨_, hr, hid⟩
  | reversed o _ _ | absent o _ _ =>
    rcases respond_eq_running hp with rfl | rfl <;> cases hx
  | threw _ =>
    obtain rfl := Progress.running.inj hp
    cases hx
  | completed _ _ | marked _ | recorded _ _ | aborted _ => cases hp

/-- The id in a row has been there before, or comes with the callback. -/
theorem row_of_complete {k : ℕ} {q : TimeOffRequest} {t t' : Session}
    (hrun : (completeDeductionFromOutbox k x).run t = .ok q t') {y : String}
    (hr' : t'.db.requests.get id = some r') (hy : r'.hcmRequestId = some y) :
    y = x ∨ ∃ r, t.db.requests.get id = some r ∧ r.hcmRequestId = some y := by
  obtain ⟨r, hr, ⟨_, rfl⟩ | ⟨_, hdb, _⟩ | ⟨_, hdb, _⟩⟩ := completeDeductionFromOutbox_ok hrun
  · exact .inr ⟨r', hr', hy⟩
  · rw [hdb, Database.requests_updateRequest] at hr'
    rcases Table.get_update_eq_some.1 hr' with ⟨_, q, _, rfl⟩ | ⟨_, hr'⟩
    · exact .inl (Option.some.inj hy).symm
    · exact .inr ⟨r', hr', hy⟩
  · rw [hdb, Database.requests_confirm, Database.requests_updateRequest] at hr'
    rcases Table.get_update_eq_some.1 hr' with ⟨_, q, _, rfl⟩ | ⟨_, hr'⟩
    · exact .inl (Option.some.inj hy).symm
    · exact .inr ⟨r', hr', hy⟩

/-- A move without an id leaves that of the row. -/
theorem row_of_move {requests : Table TimeOffRequest} {k : ℕ} {target : RequestStatus}
    {fields : ExtraFields} (hfields : fields.hcmRequestId = none) {y : String}
    (hr' : (requests.update k (·.move target fields)).get id = some r')
    (hy : r'.hcmRequestId = some y) :
    ∃ r, requests.get id = some r ∧ r.hcmRequestId = some y := by
  rcases Table.get_update_eq_some.1 hr' with ⟨rfl, q, hq, rfl⟩ | ⟨_, hr'⟩
  · exact ⟨q, hq, (hcmRequestId_move hfields).symm.trans hy⟩
  · exact ⟨r', hr', hy⟩

/-- A request that is failed keeps its id. -/
theorem row_of_fail {k : ℕ} {q : TimeOffRequest} {t t' : Session}
    (hrun : (failRequestFromOutbox k).run t = .ok q t') {y : String}
    (hr' : t'.db.requests.get id = some r') (hy : r'.hcmRequestId = some y) :
    ∃ r, t.db.requests.get id = some r ∧ r.hcmRequestId = some y := by
  obtain ⟨r, _, ⟨_, rfl⟩ | ⟨_, hdb, _⟩⟩ := failRequestFromOutbox_ok hrun
  · exact ⟨r', hr', hy⟩
  · rw [hdb, Database.requests_updateRequest] at hr'
    exact row_of_move rfl hr' hy

/-- An id that a handler has written to a row is the one that it was told. -/
theorem row_of_handled (hh : Handled cfg now db hcm h db' hcm' p) {y : String}
    (hr' : db'.requests.get id = some r') (hy : r'.hcmRequestId = some y) :
    h.phase.hcmRequestId = some y ∨ ∃ r, db.requests.get id = some r ∧ r.hcmRequestId = some y := by
  cases hh with
  | completed hphase hrun =>
    obtain ⟨q, t, hcomplete, hdb, _⟩ := deductTransaction_ok hrun
    rw [hdb] at hr'
    rcases row_of_complete hcomplete hr' hy with rfl | hr
    · rw [hphase]
      exact .inl rfl
    · exact .inr hr
  | recorded _ hrun =>
    rcases handleEventFailure_ok hrun with ⟨_, hdb⟩ | ⟨_, _, hdb⟩ | ⟨_, _, q, t, hfail, hdb⟩
    · rw [hdb] at hr'
      exact .inr ⟨r', hr', hy⟩
    · rw [hdb] at hr'
      exact .inr ⟨r', hr', hy⟩
    · obtain ⟨r, hr, hid⟩ := row_of_fail hfail hr' hy
      rw [hdb] at hr
      exact .inr ⟨r, hr, hid⟩
  | _ => exact .inr ⟨r', hr', hy⟩

/-- Where the id in a row is from. -/
theorem Stepped.row (hstep : Stepped cfg s a s') {y : String}
    (hr' : s'.db.requests.get id = some r') (hy : r'.hcmRequestId = some y) :
    (∃ r, s.db.requests.get id = some r ∧ r.hcmRequestId = some y) ∨
    (∃ k, a = .completeDeductionFromOutbox k y) ∨
    ∃ i h, s.handler i = some h ∧ h.phase.hcmRequestId = some y := by
  cases hstep with
  | submit _ _ _ _ =>
    rcases Table.get_insert_eq_some.1 hr' with ⟨_, rfl⟩ | hr'
    · cases hy
    · exact .inl ⟨r', hr', hy⟩
  | approve _ _ _ _ _ hfields | reject _ _ _ _ _ hfields =>
    exact .inl (row_of_move hfields hr' hy)
  | cancel _ _ _ _ _ =>
    change ((((cancelEvent _ _ s.db).release _ _).requests).update _ _).get id = some r' at hr'
    rw [Database.requests_release, requests_cancelEvent] at hr'
    exact .inl (row_of_move rfl hr' hy)
  | complete hrun =>
    rcases row_of_complete hrun hr' hy with rfl | hr
    · exact .inr (.inl ⟨_, rfl⟩)
    · exact .inl hr
  | fail hrun => exact .inl (row_of_fail hrun hr' hy)
  | sync _ hsync => exact .inl ⟨r', hsync.requests ▸ hr', hy⟩
  | handle ht hh hgo =>
    rcases row_of_handled (Handler.step_handled hgo) hr' hy with hphase | hr
    · exact .inr (.inr ⟨_, _, handler_eq_some.2 ⟨_, ht, hh⟩, hphase⟩)
    · exact .inl hr
  | _ => exact .inl ⟨r', hr', hy⟩

/-- The HCM gives out more ids, and takes none back. -/
theorem Stepped.hcm_kept (hstep : Stepped cfg s a s') (hsound : s.hcm.Sound) :
    s'.hcm.Sound ∧ s.hcm.requestCounter ≤ s'.hcm.requestCounter := by
  cases hstep with
  | handle _ _ hgo => exact (Handler.step_handled hgo).sound hsound
  | _ => exact ⟨hsound, le_rfl⟩

/-- Every answered step leaves the ids genuine: the rows and handlers have them
    from the HCM. -/
theorem Genuine.step (hs : Genuine s) (hok : Answered s a) (hstep : Stepped cfg s a s') :
    Genuine s' := by
  obtain ⟨hsound, hle⟩ := hstep.hcm_kept hs.hcm
  refine ⟨hsound, fun id r' y hr' hy => ?_, fun i h y hh hy => ?_⟩
  · rcases hstep.row hr' hy with ⟨r, hr, hid⟩ | ⟨k, rfl⟩ | ⟨i, h, hh, hphase⟩
    · exact (hs.row id r y hr hid).mono hle
    · exact Issued.mono hok hle
    · exact (hs.phase i h y hh hphase).mono hle
  · rcases hstep.handler hh with hh | ⟨h₀, o, db, hcm, phase, _, hgo, rfl, _, rfl⟩ | ⟨q, _, rfl⟩
    · exact (hs.phase i h y hh hy).mono hle
    · rcases (Handler.step_handled hgo).genuine rfl hy hs.hcm with hnew | ⟨r, hr, hid⟩
      · exact hnew
      · exact (hs.row _ r y hr hid).mono hle
    · rw [Handler.start] at hy
      cases htype : q.2.eventType <;> rw [htype] at hy <;> cases hy

/-- At first there are none. -/
theorem genuine_sample (totalDays : ℚ) : Genuine (sampleStart totalDays) := by
  refine ⟨⟨.of_empty (fun _ => rfl) fun _ => rfl, fun key b hb => ?_⟩, fun id r h hr => ?_,
    fun i h x hh => ?_⟩
  · change Function.update (fun _ => none) sampleKey.hcmKey (some _) key = some b at hb
    rcases PartialMap.set_eq_some.1 hb with ⟨_, rfl⟩ | ⟨_, hb⟩
    · exact Nat.one_ne_zero
    · cases hb
  · cases hr
  · cases hh

end TimeOff
