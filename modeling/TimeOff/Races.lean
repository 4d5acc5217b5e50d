import TimeOff.Lifecycle

/-!
# Races

Calls race for their request, with each other and with the callbacks of the
outbox processor. A request changes its status along `ALLOWED_TRANSITIONS`
only, and its version counts these changes. So of the calls that have read the
same version, the first to commit is the last: the others find a later version
and throw. In particular the status that a cancellation acts on is that of the
row.

* `versionOf_of_run`: the version counts the changes of status of the history;
* `request_races`: who wins, and that the others leave everything as it is.
-/

namespace TimeOff

open Transaction Transition

variable {cfg : Config} {B B' : Books} {s s' s₀ : State} {a : Action} {id n v : ℕ}
  {r : TimeOffRequest} {c : Call} {ok : State → Action → Prop} {h : List (State × Action)}
  {synced : Prop}

/-! ## Versions -/

/-- The version of a request, `0` while it is not there. -/
def versionOf (t : Table TimeOffRequest) (id : ℕ) : ℕ := (t.get id).elim 0 (·.version)

/-- A request that a move adds has not changed its status yet. -/
theorem Move.new (hmove : Move synced B B') (hnone : B.requests.get id = none)
    (hr : B'.requests.get id = some r) : r.version = 0 := by
  cases hmove with
  | stay hB => rw [hB, hnone] at hr; cases hr
  | submit _ _ _ _ hB =>
    rw [hB] at hr
    rcases Table.get_insert_eq_some.1 hr with ⟨_, rfl⟩ | hr
    · rfl
    · rw [hnone] at hr; cases hr
  | transition _ _ _ hB =>
    rw [hB, Books.transition, Table.get_update, hnone] at hr
    split at hr <;> cases hr
  | stamp _ _ hB =>
    rw [hB, Books.stamp, Table.get_update, hnone] at hr
    split at hr <;> cases hr
  | sync _ hreq _ => rw [hreq, hnone] at hr; cases hr

/-- The step gives the request another status. -/
def changesStatus (cfg : Config) (id : ℕ) (e : State × Action) : Bool :=
  match e.1.db.requests.get id, (step cfg e.1 e.2).bind (·.db.requests.get id) with
  | some r, some r' => r.status ≠ r'.status
  | _, _ => false

/-- The version counts the changes of the status. -/
theorem versionOf_step (hmove : Move synced s.db.books s'.db.books)
    (hnext : step cfg s a = some s') :
    versionOf s'.db.requests id =
      versionOf s.db.requests id + if changesStatus cfg id (s, a) then 1 else 0 := by
  cases hr : s.db.requests.get id with
  | none =>
    rw [versionOf, versionOf, changesStatus, hr]
    cases hr' : s'.db.requests.get id with
    | none => rfl
    | some r' => exact hmove.new hr hr'
  | some r =>
    obtain ⟨r', hr', hstatus⟩ := hmove.status hr
    replace hr' : s'.db.requests.get id = some r' := hr'
    simp only [versionOf, changesStatus, hr, hr', hnext, Option.bind_some, Option.elim_some,
      decide_eq_true_eq]
    rcases hstatus with ⟨hst, hv⟩ | ⟨hcan, hv⟩
    · rw [if_neg (not_not.2 hst.symm), hv, add_zero]
    · rw [if_pos (ne_of_canTransition hcan), hv]

/-- No move lowers the version of a request. -/
theorem versionOf_mono (hmove : Move synced s.db.books s'.db.books) :
    versionOf s.db.requests id ≤ versionOf s'.db.requests id := by
  cases hr : s.db.requests.get id with
  | none =>
    rw [versionOf, hr]
    exact Nat.zero_le _
  | some r =>
    obtain ⟨r', hr', hbefore⟩ := hmove.before hr
    replace hr' : s'.db.requests.get id = some r' := hr'
    rw [versionOf, versionOf, hr, hr']
    exact hbefore.version

/-- The version of a request counts its changes of status. -/
theorem versionOf_of_run (hcalls : s₀.calls = .empty) (hrun : Run (step cfg) ok s₀ h s) (id : ℕ) :
    versionOf s.db.requests id =
      versionOf s₀.db.requests id + h.countP (changesStatus cfg id) := by
  refine hrun.history (I := fun h s => versionOf s.db.requests id =
    versionOf s₀.db.requests id + h.countP (changesStatus cfg id)) rfl ?_
  intro h s a s' hrun ih _ hnext
  rw [countP_snoc, versionOf_step (move_of_run hcalls hrun hnext) hnext, ih, add_assoc]

/-! ## Commits -/

/-- The transaction of the call commits. -/
def Call.commits (s : State) (c : Call) : Bool :=
  match (c.transaction s.now).run (.start s.db) with
  | .ok _ _ => true
  | .error _ _ => false

/-- The step commits a call that has read the version `v` of the request. -/
def commitsCall (id v : ℕ) (e : State × Action) : Bool :=
  match e.2 with
  | .transact n =>
    (e.1.calls.get n).any fun c => c.id = id && c.request.version = v && c.commits e.1
  | _ => false

/-- A call commits if its transaction returns. -/
theorem Call.commits_eq_true :
    c.commits s ↔ ∃ t, (c.transaction s.now).run (.start s.db) = .ok () t := by
  rw [commits]
  cases (c.transaction s.now).run (.start s.db) with
  | ok u t => exact iff_of_true rfl ⟨t, rfl⟩
  | error e t => exact iff_of_false Bool.false_ne_true fun ⟨t, ht⟩ => by cases ht

theorem transaction_eq {α : Type} {x : Tx α} {db : Database} {u : α} {t : Session}
    (hrun : x.run (.start db) = .ok u t) : transaction x db = t.db := by
  rcases transaction_cases x db with ⟨_, t', hrun', ht⟩ | ⟨e, t', hrun', _⟩ <;>
    rw [hrun] at hrun' <;> cases hrun'
  exact ht

/-- A call commits on the version it has read. -/
theorem versionOf_of_commitsCall (hcommit : commitsCall id v (s, a))
    (hnext : step cfg s a = some s') :
    versionOf s.db.requests id = v ∧ versionOf s'.db.requests id = v + 1 := by
  cases a with
  | transact n =>
    obtain ⟨c, hc, hcommits⟩ := (Option.any_eq_true _ _).1 hcommit
    simp only [Bool.and_eq_true, decide_eq_true_eq] at hcommits
    obtain ⟨⟨rfl, rfl⟩, hcommits⟩ := hcommits
    obtain ⟨t, hrun⟩ := Call.commits_eq_true.1 hcommits
    obtain ⟨r, target, x, hr, _, hv, hreq⟩ := Call.transaction_ok hrun
    replace hr : s.db.requests.get c.id = some r := hr
    rw [step, show s.calls.get n = some c from hc] at hnext
    obtain rfl := Option.some.inj hnext
    refine ⟨by rw [versionOf, hr]; exact hv, ?_⟩
    have hdb : (s.commit (c.transaction s.now)).db = t.db := transaction_eq hrun
    change versionOf (s.commit (c.transaction s.now)).db.requests c.id = _
    rw [hdb, hreq, versionOf, Table.get_update, if_pos rfl]
    change ((s.db.requests.get c.id).map (·.move target x)).elim 0 _ = _
    rw [hr]
    exact congrArg (· + 1) hv
  | _ => cases hcommit

/-- At most one call commits on a version, and then the request has left it. -/
theorem commits_of_run (hcalls : s₀.calls = .empty) (hrun : Run (step cfg) ok s₀ h s) (id v : ℕ) :
    h.countP (commitsCall id v) = 0 ∨
      h.countP (commitsCall id v) = 1 ∧ v < versionOf s.db.requests id := by
  refine hrun.history (I := fun h s => h.countP (commitsCall id v) = 0 ∨
    h.countP (commitsCall id v) = 1 ∧ v < versionOf s.db.requests id) (.inl rfl) ?_
  intro h s a s' hrun ih _ hnext
  rw [countP_snoc]
  by_cases hcommits : commitsCall id v (s, a)
  · obtain ⟨hv, hv'⟩ := versionOf_of_commitsCall hcommits hnext
    rw [if_pos hcommits]
    -- If there had been a commit on `v`, the version would be past it.
    rcases ih with hzero | ⟨_, hlt⟩
    · exact .inr ⟨by rw [hzero], by omega⟩
    · omega
  · have hmono : versionOf s.db.requests id ≤ versionOf s'.db.requests id :=
      versionOf_mono (move_of_run hcalls hrun hnext)
    rw [if_neg hcommits, add_zero]
    exact ih.imp_right fun ⟨hone, hlt⟩ => ⟨hone, by omega⟩

/-! ## The outcome of races -/

/-- A cancellation that commits has acted on the status of the row. -/
theorem cancel_status (hcalls : CallsOk s) (hc : s.calls.get n = some c) (hkind : c.kind = .cancel)
    {t : Session} (hrun : (c.transaction s.now).run (.start s.db) = .ok () t) :
    ∃ r, s.db.requests.get c.id = some r ∧ c.request.status = r.status ∧
      t.db.outbox = if r.status = .approvedPendingHcm then
        s.db.outbox.insert (reverseEvent s.now c.id) else s.db.outbox := by
  rw [Call.transaction, hkind] at hrun
  obtain ⟨r, hr, _, hv, hdb, _⟩ := cancelTransaction_ok hrun
  have hstatus := ((hcalls n c hc).before hr).status hv.symm
  refine ⟨r, hr, hstatus, ?_⟩
  rw [hdb, Database.outbox_updateRequest, Database.outbox_release, cancelEvent, hstatus]
  split <;> rfl

/-- A call that does not commit throws, and changes nothing. -/
theorem db_of_not_commits (hc : s.calls.get n = some c) (hcommits : ¬c.commits s)
    (hnext : step cfg s (.transact n) = some s') :
    (∃ e t, (c.transaction s.now).run (.start s.db) = .error e t) ∧ s'.db = s.db := by
  rw [step, hc] at hnext
  obtain rfl := Option.some.inj hnext
  rcases transaction_cases (c.transaction s.now) s.db with ⟨u, t, hrun, _⟩ | ⟨e, t, hrun, ht⟩
  · exact absurd (Call.commits_eq_true.2 ⟨t, hrun⟩) hcommits
  · exact ⟨⟨e, t, hrun⟩, ht⟩

/-- **Races are resolved to one winner.** In every run that starts without
    calls in flight, and at every step that may follow it:

    * a request changes its status along an allowed transition;
    * its version is the one at the start, and one more for each change;
    * a cancellation that commits writes `HCM_REVERSE` by the status that the
      request has then;
    * at most one of the calls that have read the same version has committed,
      and after it no other can: they throw, and change nothing. -/
theorem request_races (hcalls : s₀.calls = .empty)
    (hrun : Run (step cfg) (fun _ _ => True) s₀ h s) :
    (∀ a s', step cfg s a = some s' → ∀ id r, s.db.requests.get id = some r →
      ∃ r', s'.db.requests.get id = some r' ∧
        (r'.status ≠ r.status → canTransition r.status r'.status)) ∧
    (∀ id r, s.db.requests.get id = some r →
      r.version = versionOf s₀.db.requests id + h.countP (changesStatus cfg id)) ∧
    (∀ n c t, s.calls.get n = some c → c.kind = .cancel →
      (c.transaction s.now).run (.start s.db) = .ok () t →
      ∃ r, s.db.requests.get c.id = some r ∧ c.request.status = r.status ∧
        t.db.outbox = if r.status = .approvedPendingHcm then
          s.db.outbox.insert (reverseEvent s.now c.id) else s.db.outbox) ∧
    (∀ id v, h.countP (commitsCall id v) ≤ 1) ∧
    (∀ n c s', s.calls.get n = some c → step cfg s (.transact n) = some s' →
      c.commits s ∧ h.countP (commitsCall c.id c.request.version) = 0 ∨
      (∃ e t, (c.transaction s.now).run (.start s.db) = .error e t) ∧ s'.db = s.db) := by
  refine ⟨?_, ?_, ?_, ?_, ?_⟩
  · intro a s' hnext id r hr
    obtain ⟨r', hr', hstatus⟩ := (move_of_run hcalls hrun hnext).status hr
    refine ⟨r', hr', fun hne => ?_⟩
    rcases hstatus with ⟨heq, _⟩ | ⟨hcan, _⟩
    · exact absurd heq hne
    · exact hcan
  · intro id r hr
    rw [← versionOf_of_run hcalls hrun id, versionOf, hr, Option.elim_some]
  · intro n c t hc hkind htx
    exact cancel_status (callsOk_of_run hcalls hrun) hc hkind htx
  · intro id v
    rcases commits_of_run hcalls hrun id v with hzero | ⟨hone, _⟩ <;> omega
  · intro n c s' hc hnext
    by_cases hcommits : c.commits s
    · refine .inl ⟨hcommits, ?_⟩
      -- Had another call committed on this version, the row would have left it.
      rcases commits_of_run hcalls hrun c.id c.request.version with hzero | ⟨_, hlt⟩
      · exact hzero
      · obtain ⟨t, htx⟩ := Call.commits_eq_true.1 hcommits
        obtain ⟨r, _, _, hr, _, hv, _⟩ := Call.transaction_ok htx
        replace hr : s.db.requests.get c.id = some r := hr
        rw [versionOf, hr, Option.elim_some] at hlt
        omega
    · exact .inr (db_of_not_commits hc hcommits hnext)

/-- An approval and a cancellation have read the same version, and the
    approval has committed. -/
theorem request_races_sample : ∃ h s c, Run (step sampleConfig) (fun _ _ => True)
    (sampleStart 10) h s ∧ s.calls.get 1 = some c ∧
    h.countP (commitsCall 0 0) ≤ 1 ∧
    ∀ s', step sampleConfig s (.transact 1) = some s' →
      (∃ e t, (c.transaction s.now).run (.start s.db) = .error e t) ∧ s'.db = s.db := by
  have hexec : ∃ s ∈ exec (step sampleConfig) (sampleStart 10) [sampleSubmit 2,
      .preRead .approve 0 sampleManager, .preRead .cancel 0 sampleEmployee, .transact 0],
      (s.calls.get 1).any fun c => !c.commits s := by decide +kernel
  obtain ⟨s, hrun, hs⟩ := exists_run_of_exec (p := fun _ => True) (fun _ _ => trivial) hexec
  obtain ⟨c, hc, hcommits⟩ := (Option.any_eq_true _ _).1 hs
  obtain ⟨_, _, _, hone, hwinner⟩ := request_races rfl hrun
  refine ⟨_, s, c, hrun, hc, hone 0 0, fun s' hnext => ?_⟩
  rcases hwinner 1 c s' hc hnext with ⟨hwon, _⟩ | hlost
  · rw [hwon] at hcommits
    cases hcommits
  · exact hlost

end TimeOff
