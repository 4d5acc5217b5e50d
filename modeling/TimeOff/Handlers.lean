import TimeOff.Delivery

/-!
# Handlers

An event that is being handled is `PROCESSING`, and has one handler (`Held`).
The claim of a tick sees to this, but a retry may undo it: between its check
and its update another retry may have put the event back, so that it is
`PROCESSING` again, or `DONE`. The invariant holds in the runs in which every
retry finds its event as it has checked it, `FAILED` (`RetriesFailed`). There
an event that is `DONE` stays so, and is never sent again.

* `Held.step`, `held_of_run`: the invariant;
* `one_handler_and_done_final`: what it says about the handlers of an event, and
  about one that is `DONE`;
* `retries_race`: two retries of one event, both checked before either has
  written.
-/

namespace TimeOff

open Transaction Transition

/-- What has a handler is being processed, and has no other handler. -/
structure Held (s : State) : Prop where
  processing : ∀ i h, s.handler i = some h →
    ∃ e, s.db.outbox.get h.id = some e ∧ e.status = .processing
  single : ∀ i j h h', s.handler i = some h → s.handler j = some h' → h.id = h'.id → i = j

/-- If the step is the update of a retry, its event is still `FAILED`. -/
def RetriesFailed (s : State) (a : Action) : Prop :=
  ∀ n id, a = .writeRetry n → s.retries.get n = some id →
    ∃ e, s.db.outbox.get id = some e ∧ e.status = .failed

variable {cfg : Config} {s s' s₀ : State} {a : Action} {id i j : ℕ} {e : OutboxEvent}
  {h h' : Handler} {hist : List (State × Action)}

/-- An event that is not being processed has no handler. -/
theorem Held.id_ne (hheld : Held s) (he : s.db.outbox.get id = some e)
    (hne : e.status ≠ .processing) (hh : s.handler i = some h) : h.id ≠ id := by
  rintro rfl
  obtain ⟨e', he', hprocessing⟩ := hheld.processing i h hh
  obtain rfl := Option.some.inj (he.symm.trans he')
  exact hne hprocessing

/-- The event of a retry is `FAILED`. -/
theorem RetriesFailed.failed (hok : RetriesFailed s a)
    (ha : (∃ n, a = .writeRetry n ∧ s.retries.get n = some id) ∨
      a = .retry id ∧ ∃ e, s.db.outbox.get id = some e ∧ e.status = .failed) :
    ∃ e, s.db.outbox.get id = some e ∧ e.status = .failed := by
  rcases ha with ⟨n, rfl, hn⟩ | ⟨_, hfailed⟩
  · exact hok n id rfl hn
  · exact hfailed

/-- A handler that goes away leaves the others alone. -/
theorem Held.release (hheld : Held s) (hh : s.handler i = some h)
    (hout : ∀ k, k ≠ h.id → s'.db.outbox.get k = s.db.outbox.get k)
    (hhandler : s'.handler = Function.update s.handler i none) : Held s' where
  processing j h' hh' := by
    rw [hhandler, PartialMap.unset_eq_some] at hh'
    obtain ⟨hj, hh'⟩ := hh'
    have hne : h'.id ≠ h.id := fun heq => hj (hheld.single j i h' h hh' hh heq)
    rw [hout _ hne]
    exact hheld.processing j h' hh'
  single j k h₁ h₂ h₁' h₂' heq := by
    rw [hhandler, PartialMap.unset_eq_some] at h₁' h₂'
    exact hheld.single j k h₁ h₂ h₁'.2 h₂'.2 heq

/-- Every step leaves the events with their handlers, if retries are of events
    that are `FAILED`: no other step takes an event out of `PROCESSING` but its
    handler. -/
theorem Held.step (hheld : Held s) (hok : RetriesFailed s a) (hd : Delivered cfg s a s') :
    Held s' := by
  cases hd with
  | stay _ hout hhandler =>
    refine ⟨fun i h hh => ?_, fun i j h h' hh hh' => ?_⟩
    · rw [hout]
      exact hheld.processing i h (hhandler ▸ hh)
    · exact hheld.single i j h h' (hhandler ▸ hh) (hhandler ▸ hh')
  | post _ _ hout hhandler =>
    refine ⟨fun i h hh => ?_, fun i j h h' hh hh' => ?_⟩
    · obtain ⟨e, he, hprocessing⟩ := hheld.processing i h (hhandler ▸ hh)
      exact ⟨e, hout ▸ Table.get_insert_of_some he, hprocessing⟩
    · exact hheld.single i j h h' (hhandler ▸ hh) (hhandler ▸ hh')
  | @claim i id event e _ _ _ he hpending _ _ hout hhandler =>
    -- The event was pending: the new handler is its first.
    have hne : ∀ j h, s.handler j = some h → h.id ≠ id := fun j h hh =>
      hheld.id_ne he (by rw [hpending]; nofun) hh
    refine ⟨fun j h hh => ?_, fun j k h h' hh hh' heq => ?_⟩
    · rw [hhandler, PartialMap.set_eq_some] at hh
      rw [hout, Table.get_update]
      rcases hh with ⟨_, rfl⟩ | ⟨_, hh⟩
      · exact ⟨_, by rw [Handler.start, if_pos rfl, he]; rfl, rfl⟩
      · rw [if_neg (hne j h hh)]
        exact hheld.processing j h hh
    · rw [hhandler, PartialMap.set_eq_some] at hh hh'
      rcases hh with ⟨hj, rfl⟩ | ⟨_, hh⟩ <;> rcases hh' with ⟨hk, rfl⟩ | ⟨_, hh'⟩
      · rw [hj, hk]
      · exact absurd heq.symm (hne k h' hh')
      · exact absurd heq (hne j h hh)
      · exact hheld.single j k h h' hh hh' heq
  | @proceed i h phase hh _ hout hhandler =>
    -- The handler is in another phase, of the same event.
    have hkept : ∀ j h', s'.handler j = some h' → ∃ h₀, s.handler j = some h₀ ∧ h₀.id = h'.id := by
      intro j h' hh'
      rw [hhandler, PartialMap.set_eq_some] at hh'
      rcases hh' with ⟨hj, rfl⟩ | ⟨_, hh'⟩
      · exact ⟨h, hj ▸ hh, rfl⟩
      · exact ⟨h', hh', rfl⟩
    refine ⟨fun j h' hh' => ?_, fun j k h₁ h₂ hh₁ hh₂ heq => ?_⟩
    · obtain ⟨h₀, hh₀, hid⟩ := hkept j h' hh'
      rw [hout, ← hid]
      exact hheld.processing j h₀ hh₀
    · obtain ⟨g₁, hg₁, hid₁⟩ := hkept j h₁ hh₁
      obtain ⟨g₂, hg₂, hid₂⟩ := hkept k h₂ hh₂
      exact hheld.single j k g₁ g₂ hg₁ hg₂ (by rw [hid₁, hid₂, heq])
  | finish hh _ hout hhandler =>
    exact hheld.release hh (fun k hk => by rw [hout, Table.get_update_of_ne hk]) hhandler
  | record hh _ _ hout hhandler =>
    exact hheld.release hh (fun k hk => by rw [hout, Table.get_update_of_ne hk]) hhandler
  | abort _ hh _ _ hout hhandler =>
    exact hheld.release hh (fun k _ => by rw [hout]) hhandler
  | requeue ha _ hout hhandler =>
    -- What is `FAILED` has no handler, so that no handler loses its event.
    obtain ⟨e, he, hfailed⟩ := hok.failed ha
    refine ⟨fun i h hh => ?_, fun i j h h' hh hh' => ?_⟩
    · have hne := hheld.id_ne he (by rw [hfailed]; nofun) (hhandler ▸ hh)
      rw [hout, Table.get_update_of_ne hne]
      exact hheld.processing i h (hhandler ▸ hh)
    · exact hheld.single i j h h' (hhandler ▸ hh) (hhandler ▸ hh')
  | crash _ _ _ hhandler =>
    refine ⟨fun i h hh => ?_, fun i j h h' hh => ?_⟩ <;> rw [hhandler] at hh <;> cases hh

/-- So it is in every run in which retries are of such events. -/
theorem held_of_run (hticks : s₀.ticks = .empty)
    (hrun : Run (step cfg) RetriesFailed s₀ hist s) : Held s := by
  refine hrun.invariant (I := Held) ⟨fun i h hh => ?_, fun i j h h' hh => ?_⟩
    fun _ _ _ hheld hok hnext => hheld.step hok (step_stepped hnext).delivered
  · rw [State.handler, hticks] at hh
    cases hh
  · rw [State.handler, hticks] at hh
    cases hh

/-! ## `DONE` is final -/

/-- The event stays `DONE`: no claim, handler or retry gets at it. -/
theorem Held.done (hheld : Held s) (hok : RetriesFailed s a) (hd : Delivered cfg s a s')
    (he : s.db.outbox.get id = some e) (hdone : e.status = .done) :
    ∃ e', s'.db.outbox.get id = some e' ∧ e'.status = .done := by
  have hfree : ∀ i h, s.handler i = some h → id ≠ h.id := fun i h hh =>
    (hheld.id_ne he (by rw [hdone]; nofun) hh).symm
  -- Of the steps that write to an event, a claim needs it `PENDING`, a retry `FAILED`, and
  -- the others a handler that holds it, `PROCESSING`.
  cases hd with
  | stay _ hout _ => exact ⟨e, by rw [hout, he], hdone⟩
  | post _ _ hout _ => exact ⟨e, by rw [hout, Table.get_insert_of_some he], hdone⟩
  | @claim i id' event e' _ _ _ he' hpending _ _ hout _ =>
    have hne : id ≠ id' := by
      rintro rfl
      obtain rfl := Option.some.inj (he.symm.trans he')
      rw [hdone] at hpending
      cases hpending
    exact ⟨e, by rw [hout, Table.get_update_of_ne hne, he], hdone⟩
  | proceed _ _ _ hout _ => exact ⟨e, by rw [hout, he], hdone⟩
  | finish hh _ hout _ =>
    exact ⟨e, by rw [hout, Table.get_update_of_ne (hfree _ _ hh), he], hdone⟩
  | record hh _ _ hout _ =>
    exact ⟨e, by rw [hout, Table.get_update_of_ne (hfree _ _ hh), he], hdone⟩
  | abort _ _ _ _ hout _ => exact ⟨e, by rw [hout, he], hdone⟩
  | @requeue id' ha _ hout _ =>
    obtain ⟨e', he', hfailed⟩ := hok.failed ha
    have hne : id ≠ id' := by
      rintro rfl
      obtain rfl := Option.some.inj (he.symm.trans he')
      rw [hdone] at hfailed
      cases hfailed
    exact ⟨e, by rw [hout, Table.get_update_of_ne hne, he], hdone⟩
  | crash _ _ hout _ => exact ⟨e, by rw [hout, he], hdone⟩

/-- What is sent has a handler. -/
theorem handler_of_sends (hsends : sends id (s, a)) : ∃ i h, s.handler i = some h ∧ h.id = id := by
  cases a with
  | handle i o =>
    obtain ⟨h, hh, hid⟩ := (Option.any_eq_true _ _).1 hsends
    exact ⟨i, h, hh, of_decide_eq_true (Bool.and_eq_true_iff.1 hid).1⟩
  | _ => cases hsends

/-- **One handler at a time, and `DONE` is final.** In every run in which a
    retry finds its event still `FAILED`, an event has at most one handler, is
    `PROCESSING` while it has one, and once it is `DONE` it stays so and is
    never sent to the HCM again. -/
theorem one_handler_and_done_final (hticks : s₀.ticks = .empty)
    (hrun : Run (step cfg) RetriesFailed s₀ hist s) :
    (∀ i j h h', s.handler i = some h → s.handler j = some h' → h.id = h'.id → i = j) ∧
    (∀ i h, s.handler i = some h →
      ∃ e, s.db.outbox.get h.id = some e ∧ e.status = .processing) ∧
    ∀ id e, s.db.outbox.get id = some e → e.status = .done →
      ∀ hist' s', Run (step cfg) RetriesFailed s hist' s' →
        (∃ e', s'.db.outbox.get id = some e' ∧ e'.status = .done) ∧
        ∀ x ∈ hist', ¬sends id x := by
  have hheld := held_of_run hticks hrun
  refine ⟨hheld.single, hheld.processing, fun id e he hdone hist' s' hrun' => ?_⟩
  refine hrun'.history (I := fun hist' s' => (∃ e', s'.db.outbox.get id = some e' ∧
    e'.status = .done) ∧ ∀ x ∈ hist', ¬sends id x) ⟨⟨e, he, hdone⟩, by simp⟩ ?_
  intro hist' t a t' hrun' ⟨⟨e', he', hdone'⟩, hsent⟩ hok hnext
  have hheld' := held_of_run hticks (hrun.append hrun')
  refine ⟨hheld'.done hok (step_stepped hnext).delivered he' hdone', fun x hx => ?_⟩
  rcases List.mem_append.1 hx with hx | hx
  · exact hsent x hx
  · obtain rfl := List.mem_singleton.1 hx
    intro hsends
    obtain ⟨i, h, hh, hid⟩ := handler_of_sends hsends
    exact hheld'.id_ne he' (by rw [hdone']; nofun) hh hid

/-- The event is delivered by its only handler. -/
theorem one_handler_and_done_final_sample : ∃ hist s,
    Run (step sampleConfig) RetriesFailed (sampleStart 10) hist s ∧
    (s.db.outbox.get 0).any (·.status = .done) ∧
    ∀ id e, s.db.outbox.get id = some e → e.status = .done →
      ∀ hist' s', Run (step sampleConfig) RetriesFailed s hist' s' →
        (∃ e', s'.db.outbox.get id = some e' ∧ e'.status = .done) ∧
        ∀ x ∈ hist', ¬sends id x := by
  have hexec : ∃ s ∈ exec (step sampleConfig) (sampleStart 10)
      (sampleFailed ++ [.retry 0] ++ sampleDeduction 4),
      (s.db.outbox.get 0).any (·.status = .done) := by decide +kernel
  have hno : ∀ a ∈ sampleFailed ++ [.retry 0] ++ sampleDeduction 4,
      (fun a => ∀ n, a ≠ Action.writeRetry n) a := by
    simp [sampleFailed, sampleApproval, sampleFailure, sampleDeduction, sampleSubmit]
  obtain ⟨s, hrun, hs⟩ := exists_run_of_exec hno hexec
  have hrun' : Run (step sampleConfig) RetriesFailed (sampleStart 10) _ s :=
    hrun.mono fun _ a ha n _ hn => absurd hn (ha n)
  exact ⟨_, s, hrun', hs, (one_handler_and_done_final rfl hrun').2.2⟩

/-- Two retries that have both checked the event put it back twice: it gets
    two handlers, or it is `DONE` and sent again. -/
theorem retries_race :
    (∃ hist s i j h h', Run (step sampleConfig) (fun _ _ => True) (sampleStart 10) hist s ∧
      i ≠ j ∧ s.handler i = some h ∧ s.handler j = some h' ∧ h.id = h'.id) ∧
    ∃ hist s hist' s' a, Run (step sampleConfig) (fun _ _ => True) (sampleStart 10) hist s ∧
      (s.db.outbox.get 0).any (·.status = .done) ∧
      Run (step sampleConfig) (fun _ _ => True) s hist' s' ∧
      sends 0 (s', a) ∧ (step sampleConfig s' a).isSome := by
  constructor
  · -- Two retries have read the event as `FAILED`. The second one writes when a tick has
    -- claimed it again, and so does another tick.
    have hexec : ∃ s ∈ exec (step sampleConfig) (sampleStart 10) (sampleFailed ++
        [.checkRetry 0, .checkRetry 0, .writeRetry 0, .tick, .claim 4 .ok,
          .writeRetry 1, .tick, .claim 5 .ok]),
        (s.handler 4).any fun h => (s.handler 5).any fun h' => h.id = h'.id := by decide +kernel
    obtain ⟨s, hrun, hs⟩ := exists_run_of_exec (p := fun _ => True) (fun _ _ => trivial) hexec
    obtain ⟨h, hh, hs⟩ := (Option.any_eq_true _ _).1 hs
    obtain ⟨h', hh', hs⟩ := (Option.any_eq_true _ _).1 hs
    exact ⟨_, s, 4, 5, h, h', hrun, by decide, hh, hh', of_decide_eq_true hs⟩
  · -- Or when it has been delivered: it is sent once more.
    have hexec : ∃ s ∈ exec (step sampleConfig) (sampleStart 10) (sampleFailed ++
        [.checkRetry 0, .checkRetry 0, .writeRetry 0] ++ sampleDeduction 4),
        (s.db.outbox.get 0).any (·.status = .done) ∧
        ∃ s' ∈ exec (step sampleConfig) s [.writeRetry 1, .tick, .claim 5 .ok],
          sends 0 (s', .handle 5 .ok) ∧ (step sampleConfig s' (.handle 5 .ok)).isSome := by
      decide +kernel
    obtain ⟨s, hrun, hdone, hexec'⟩ :=
      exists_run_of_exec (p := fun _ => True) (fun _ _ => trivial) hexec
    obtain ⟨s', hrun', hsends, hsome⟩ :=
      exists_run_of_exec (p := fun _ => True) (fun _ _ => trivial) hexec'
    exact ⟨_, s, _, s', .handle 5 .ok, hrun, hdone, hrun', hsends, hsome⟩

end TimeOff
