import TimeOff.Drain
import TimeOff.Monitoring
import TimeOff.SyncNeutral

/-!
# Both books

The service keeps its books, with the days used and reserved, and the HCM keeps
its own. Without syncs, they differ by what is under way: at any time, what the
HCM has left is what is not used locally, less the days that it has deducted for
requests that are not approved, or not any more (`Accounts.left`). These are
reserved locally, unless their request has been cancelled (`Accounts.covered`).
So once nothing is under way, which is what is reported as no event that is
`PENDING`, `PROCESSING` or `FAILED`, the books agree, and only the days of pending
requests are reserved (`books_agree`).
-/

namespace TimeOff

open Transaction Transition

variable {cfg : Config} {s s₀ : State} {hist : List (State × Action)} {X : Ends} {id i : ℕ}
  {r : TimeOffRequest} {b : LeaveBalance} {K : String} {key : BalanceKey} {u₀ : BalanceKey → ℚ}
  {p : RequestStatus → Bool} {t : Table TimeOffRequest}

/-! ## Days that are live -/

/-- The live days are those of the requests whose status meets `p`, and those of
    the others. -/
theorem Ends.liveDays_partition (p : RequestStatus → Bool) : X.liveDays anyStatus K =
    X.liveDays p K + X.liveDays (fun status => !p status) K := by
  rw [liveDays, liveDays, liveDays, ← Table.sum_add]
  refine Table.sum_congr fun id r _ => ?_
  by_cases hc : X.Live id ∧ r.hcmKey = K
  · cases p r.status <;> simp [hc, anyStatus]
  · rw [if_neg fun h => hc ⟨h.1, h.2.1⟩, if_neg fun h => hc ⟨h.1, h.2.1⟩,
      if_neg fun h => hc ⟨h.1, h.2.1⟩, add_zero]

/-- They are not negative, since no request is for fewer than no days. -/
theorem Ends.liveDays_nonneg (hpos : ∀ id r, X.requests.get id = some r → 0 < r.daysRequested) :
    0 ≤ X.liveDays p K :=
  Table.sum_nonneg fun id r hr => by
    split
    · exact (hpos id r hr).le
    · exact le_rfl

/-- The days of all approved requests are live. -/
theorem Corresponds.liveDays_approved (hX : Corresponds X) :
    X.liveDays (· = .approved) K = daysOn X.requests (· = .approved) K := by
  refine Table.sum_congr fun id r hr => if_congr (and_iff_right_of_imp fun h => ?_) rfl rfl
  obtain ⟨k, m, d, hm, hd, _⟩ := hX.deduction_of_approved hr (of_decide_eq_true h.2)
  exact ⟨k, m, d, hm, hd⟩

/-- What is live, but for cancelled requests, is asked for by requests that have
    been sent. -/
theorem Corresponds.liveDays_le (hX : Corresponds X)
    (hpos : ∀ id r, X.requests.get id = some r → 0 < r.daysRequested) :
    X.liveDays (fun status => !decide (status = .cancelled)) K ≤
      daysOn X.requests RequestStatus.isSent K := by
  refine Table.sum_le_sum fun id r hr => ?_
  split
  · next h =>
    have hne : r.status ≠ .cancelled := by simpa using h.2.2
    rw [if_pos ⟨h.2.1, hX.isSent_of_live hr h.1 hne⟩]
  · split
    · exact (hpos id r hr).le
    · exact le_rfl

/-- The requests on a balance of the HCM are those for one key. -/
theorem daysOn_eq (hK : key.hcmKey = K)
    (hkey : ∀ id r, t.get id = some r → r.hcmKey = K → r.toBalanceKey = key) :
    daysOn t p K = daysIn t p key := by
  refine Table.sum_congr fun id r hr => if_congr (and_congr_left' ⟨hkey id r hr, ?_⟩) rfl rfl
  rintro h
  rw [← hK, ← h]

/-- An open request is pending when all messages are done. -/
theorem Corresponds.pending_of_done (hX : Corresponds X)
    (hdone : ∀ k m, X.outbox k = some m → m.done = true) (hr : X.requests.get id = some r)
    (hopen : r.status.isOpen) : r.status = .pending := by
  cases hX.stage id r hr with
  | unsent _ _ _ hstatus =>
    rcases hstatus with hstatus | hstatus | hstatus
    · exact hstatus
    all_goals
      rw [hstatus] at hopen
      cases hopen
  | sent hdeduct _ hnot _ _ _ _ =>
    rw [hdone _ _ (Stage.mem_messages hdeduct).1] at hnot
    cases hnot
  | confirmed _ _ _ hstatus _ _ _ | cancelled _ _ _ _ _ _ hstatus _
  | reversing _ _ _ _ hstatus _ _ _ | reversed _ _ _ hstatus _ _ _ =>
    rw [hstatus] at hopen
    cases hopen

/-! ## Balances -/

/-- How the row and the days `n` that the HCM has left on it belong together. -/
structure Accounts (s : State) (b : LeaveBalance) (n : ℚ) : Prop where
  left : n + s.ends.liveDays (fun status => !decide (status = .approved)) b.hcmKey =
    b.totalDays - b.usedDays
  left_le : n ≤ b.totalDays - b.usedDays
  /-- What is available locally is there, up to what is live for cancelled
      requests. -/
  covered : b.totalDays - b.usedDays - b.reservedDays ≤ n + s.cancelledDays b.hcmKey
  settled : s.db.depth .pending = 0 → s.db.depth .processing = 0 → s.db.depth .failed = 0 →
    n = b.totalDays - b.usedDays ∧
      b.reservedDays = daysIn s.db.requests (· = .pending) b.toBalanceKey

/-- No message is under way when no event is reported. -/
theorem messages_done (hpending : s.db.depth .pending = 0)
    (hprocessing : s.db.depth .processing = 0)
    (hfailed : s.db.depth .failed = 0) {k : ℕ} {m : Message} (hm : s.ends.outbox k = some m) :
    m.done = true := by
  obtain ⟨e, he, rfl⟩ := Option.map_eq_some_iff.1 hm
  rw [OutboxEvent.message]
  cases hstatus : e.status with
  | done => rfl
  | pending => exact absurd hstatus (Database.depth_eq_zero.1 hpending k e he)
  | processing => exact absurd hstatus (Database.depth_eq_zero.1 hprocessing k e he)
  | failed => exact absurd hstatus (Database.depth_eq_zero.1 hfailed k e he)

/-- What the HCM has left and what is used and reserved locally are accounted for
    by the live deductions, in every run without syncs. -/
theorem accounts_of_run (hs₀ : Opening s₀) (hagreed : Agreed s₀)
    (hdistinct : ∀ i j b b', s₀.db.balances.get i = some b → s₀.db.balances.get j = some b' →
      b.hcmKey = b'.hcmKey → i = j)
    (hrun : Run (step cfg) Unsynced s₀ hist s) (hb : s.db.balances.get i = some b) :
    ∃ record, s.hcm.balances b.hcmKey = some record ∧ Accounts s b record.totalDays := by
  have hregular := Unsynced.regular hrun
  have hX := (exchanging_of_run hs₀ hregular).corresponds
  have hledger := Ledger.of_run hs₀.calls (hagreed.ledger hs₀) hrun
  have hkept := (funded_of_run hs₀ hagreed hrun).1
  have hpos : ∀ id r, s.ends.requests.get id = some r → 0 < r.daysRequested := hledger.positive
  have hkey : ∀ id q, s.db.requests.get id = some q → q.hcmKey = b.hcmKey →
      q.toBalanceKey = b.toBalanceKey :=
    fun id q hq hqK => key_of_hcmKey hledger hkept hdistinct hb hq hqK
  have hin : daysIn s.ends.requests (· = .approved) b.toBalanceKey = b.usedDays := by
    rw [hledger.used i b hb, zero_add]
    rfl
  have hreserved : daysIn s.ends.requests RequestStatus.isOpen b.toBalanceKey = b.reservedDays :=
    (hledger.reserved i b hb).symm
  have hused : daysOn s.ends.requests (· = .approved) b.hcmKey = b.usedDays := by
    rw [← hin]
    exact daysOn_eq rfl hkey
  -- The HCM has what the row started with, less what is live.
  obtain ⟨record, hrecord, htotal⟩ := record_of_run hs₀ hagreed hrun hb
  have happroved := s.ends.liveDays_partition (K := b.hcmKey) (decide <| · = .approved)
  rw [hX.liveDays_approved, hused] at happroved
  have hnonneg : 0 ≤ s.ends.liveDays (fun status => !decide (status = .approved)) b.hcmKey :=
    Ends.liveDays_nonneg hpos
  refine ⟨record, hrecord, by linarith, by linarith, ?_, fun hpending hprocessing hfailed => ?_⟩
  · have hcancelled := s.ends.liveDays_partition (K := b.hcmKey) (decide <| · = .cancelled)
    have hsent := (hX.liveDays_le (K := b.hcmKey) hpos).trans (daysOn_le hpos hkey)
    rw [hreserved, hin] at hsent
    rw [State.cancelledDays]
    linarith
  · have hdone : ∀ k m, s.ends.outbox k = some m → m.done = true :=
      fun k m hm => messages_done hpending hprocessing hfailed hm
    refine ⟨?_, ?_⟩
    · rw [htotal, liveDays_of_done hX hdone, hused]
    · rw [← hreserved]
      refine Table.sum_congr fun id r hr => if_congr (and_congr_right' ?_) rfl rfl
      refine ⟨fun hopen => decide_eq_true (hX.pending_of_done hdone hr hopen), fun h => ?_⟩
      rw [of_decide_eq_true h]
      rfl

/-! ## When nothing is under way -/

/-- Time passes, and a tick is run. -/
structure LateTick where
  ms : ℕ
  course : Course

/-- It comes late enough for every backoff, and can record what fails. -/
structure LateTick.Late (x : LateTick) : Prop where
  ms : maxBackoff ≤ x.ms
  course : x.course.Reliable

/-- The round of the tick, with the HCM as it is. -/
def LateTick.round (x : LateTick) (s : State) : Round := ⟨x.ms, s.hcm, x.course⟩

/-- The system after a tick that nothing else interferes with. -/
def State.afterTick (cfg : Config) (s : State) (x : LateTick) : State := s.round cfg (x.round s)

variable {ticks : List LateTick}

/-- A tick after some time is a run of the system, without a sync. -/
theorem afterTick_run (cfg : Config) (s : State) (x : LateTick) :
    ∃ hist, Run (step cfg) Unsynced s hist (s.afterTick cfg x) := by
  obtain ⟨hist, hrun⟩ := tick_run cfg x.course (s.before (x.round s))
  have hadvance : Run (step cfg) Unsynced s _ (s.before (x.round s)) :=
    .step .init (a := .advance x.ms) ⟨rfl, rfl⟩ rfl
  refine ⟨_, hadvance.append (hrun.mono fun s a ha => ⟨ha.isRegular, ?_⟩)⟩
  cases ha <;> rfl

/-- So are ticks one after the other. -/
theorem afterTicks_run (cfg : Config) (s : State) (ticks : List LateTick) :
    ∃ hist, Run (step cfg) Unsynced s hist (ticks.foldl (State.afterTick cfg) s) := by
  induction ticks generalizing s with
  | nil => exact ⟨[], .init⟩
  | cons x ticks ih =>
    obtain ⟨hist, hrun⟩ := afterTick_run cfg s x
    obtain ⟨hist', hrun'⟩ := ih (s.afterTick cfg x)
    exact ⟨_, hrun.append hrun'⟩

/-- The ticks are late rounds. -/
theorem exists_rounds (cfg : Config) (s : State) (hlate : ∀ x ∈ ticks, x.Late) :
    ∃ rounds : List Round, rounds.length = ticks.length ∧ (∀ x ∈ rounds, x.Late) ∧
      rounds.foldl (State.round cfg) s = ticks.foldl (State.afterTick cfg) s := by
  induction ticks generalizing s with
  | nil => exact ⟨[], rfl, fun x hx => (by cases hx), rfl⟩
  | cons x ticks ih =>
    obtain ⟨rounds, hlength, hrounds, heq⟩ :=
      ih (s.afterTick cfg x) fun y hy => hlate y (List.mem_cons_of_mem _ hy)
    have hx := hlate x List.mem_cons_self
    refine ⟨x.round s :: rounds, congrArg (· + 1) hlength, fun y hy => ?_, heq⟩
    rcases List.mem_cons.1 hy with rfl | hy
    · exact ⟨hx.ms, hx.course⟩
    · exact hrounds y hy

/-- The HCM has left on every balance what is not used locally, and only the days
    of pending requests are reserved. -/
def State.Agrees (s : State) : Prop :=
  ∀ i b, s.db.balances.get i = some b → ∃ record, s.hcm.balances b.hcmKey = some record ∧
    record.totalDays = b.totalDays - b.usedDays ∧
    b.reservedDays = daysIn s.db.requests (· = .pending) b.toBalanceKey

/-- The books agree when every event is settled, and none has failed for good. -/
theorem agrees_of_settled (hs₀ : Opening s₀) (hagreed : Agreed s₀)
    (hdistinct : ∀ i j b b', s₀.db.balances.get i = some b → s₀.db.balances.get j = some b' →
      b.hcmKey = b'.hcmKey → i = j)
    (hrun : Run (step cfg) Unsynced s₀ hist s)
    (hsettled : ∀ id e, s.db.outbox.get id = some e → e.status = .done ∨ e.status = .failed)
    (hfailed : s.db.depth .failed = 0) : s.Agrees := by
  intro i b hb
  obtain ⟨record, hrecord, haccounts⟩ := accounts_of_run hs₀ hagreed hdistinct hrun hb
  have hnone : ∀ status, status ≠ .done → status ≠ .failed → s.db.depth status = 0 := by
    intro status hdone hfailed
    refine Database.depth_eq_zero.2 fun k e he hstatus => ?_
    rcases hsettled k e he with h | h
    · exact hdone (hstatus.symm.trans h)
    · exact hfailed (hstatus.symm.trans h)
  exact ⟨record, hrecord, haccounts.settled (hnone .pending (by decide) (by decide))
    (hnone .processing (by decide) (by decide)) hfailed⟩

/-- **Both books.** Take a run without syncs, in which a retry is one step, from
    balances that agree with the HCM and have keys of their own there. Where it
    has got to, the HCM has left on every balance what is not used locally, but
    for the days that it has deducted for requests that are not approved. And if
    no handler has been lost and no tick is at work, enough late ticks settle
    every event, whichever calls fail; the books agree then, unless an event has
    failed for good. -/
theorem books_agree (hs₀ : Opening s₀) (hagreed : Agreed s₀)
    (hdistinct : ∀ i j b b', s₀.db.balances.get i = some b → s₀.db.balances.get j = some b' →
      b.hcmKey = b'.hcmKey → i = j)
    (hrun : Run (step cfg) Unsynced s₀ hist s) :
    (∀ i b, s.db.balances.get i = some b →
      ∃ record, s.hcm.balances b.hcmKey = some record ∧ Accounts s b record.totalDays) ∧
    ∀ ticks : List LateTick, (∀ x ∈ hist, Unbroken x.1 x.2) → (∀ i, s.handler i = none) →
      (∀ x ∈ ticks, x.Late) →
      pendingEvents s.db.outbox * cfg.attempts / 10 + cfg.attempts ≤ ticks.length →
      (∀ id e, (ticks.foldl (State.afterTick cfg) s).db.outbox.get id = some e →
        e.status = .done ∨ e.status = .failed) ∧
      ((ticks.foldl (State.afterTick cfg) s).db.depth .failed = 0 →
        (ticks.foldl (State.afterTick cfg) s).Agrees) := by
  refine ⟨fun i b hb => accounts_of_run hs₀ hagreed hdistinct hrun hb,
    fun ticks hunbroken hidle hlate hlen => ?_⟩
  -- No handler has been lost, so that every event is settled or has its turn to come: the
  -- late ticks are late rounds, and these settle all.
  have hstart : Open.Start s₀ := ⟨hs₀.requests, hs₀.outbox, hs₀.calls, hs₀.ticks⟩
  have hserving : Serving s := (hrun.and hunbroken).invariant hstart.serving
    fun s a s' hs hok hnext => hs.step hok.1.1 hok.2 (step_stepped hnext)
  obtain ⟨rounds, hlength, hrounds, heq⟩ := exists_rounds cfg s hlate
  have hsettled := (hserving.quiet hidle).drained hrounds (hlength ▸ hlen)
  rw [heq] at hsettled
  obtain ⟨hist', hrun'⟩ := afterTicks_run cfg s ticks
  exact ⟨hsettled, agrees_of_settled hs₀ hagreed hdistinct (hrun.append hrun') hsettled⟩

/-! ## A sample -/

/-- The step does not lose a handler. -/
def keepsHandlers (x : State × Action) : Bool :=
  match x.2 with
  | .crash => false
  | .handle i o => o = .ok || (x.1.handler i).all (·.phase ≠ .handleEventFailure)
  | _ => true

/-- What passes the test loses no handler. -/
theorem unbroken_of_keepsHandlers {x : State × Action} (hx : keepsHandlers x) :
    Unbroken x.1 x.2 := by
  obtain ⟨s, a⟩ := x
  refine ⟨fun ha => ?_, fun i o h ha hh hphase => ?_⟩
  · subst ha
    cases hx
  · subst ha
    have hok : (o = .ok || (s.handler i).all (·.phase ≠ .handleEventFailure)) = true := hx
    rw [hh, Option.all_some, hphase] at hok
    simpa using hok

/-- Half an hour later, a tick to which the HCM answers. -/
def sampleLateTick : LateTick := ⟨maxBackoff, sampleCourse⟩

/-- Half an hour later, a tick whose call of the HCM fails. -/
def sampleLateFailure : LateTick where
  ms := maxBackoff
  course :=
    { sampleCourse with
      handle := fun _ phase => ⟨0, if phase = .deductBalance then .throws else .ok⟩ }

theorem late_sample : ∀ x ∈ [sampleLateFailure, sampleLateTick, sampleLateTick, sampleLateTick],
    x.Late := by
  have hfailure : sampleLateFailure.Late := ⟨le_rfl, fun _ => rfl, fun _ => rfl⟩
  have htick : sampleLateTick.Late := ⟨le_rfl, sampleCourse_reliable⟩
  simp [hfailure, htick]

/-- The answer of the HCM is lost, and the failure is recorded: its deduction is
    under way, until late ticks, of which the first one fails, have got the
    answer. -/
theorem books_agree_sample : ∃ hist s b record,
    Run (step sampleConfig) Unsynced (sampleStart 10) hist s ∧
    s.db.balances.get 0 = some b ∧ s.hcm.balances b.hcmKey = some record ∧
    b.totalDays - b.usedDays = 10 ∧ b.reservedDays = 2 ∧ record.totalDays = 8 ∧
    Accounts s b record.totalDays ∧
    ([sampleLateFailure, sampleLateTick, sampleLateTick, sampleLateTick].foldl
      (State.afterTick sampleConfig) s).Agrees := by
  let actions := sampleApproval 2 ++ [.tick, .claim 0 .ok, .handle 0 .lost, .handle 0 .ok]
  let ticks := [sampleLateFailure, sampleLateTick, sampleLateTick, sampleLateTick]
  have hexec : ∃ s ∈ exec (step sampleConfig) (sampleStart 10) actions,
      (∃ b ∈ s.db.balances.get 0, b.totalDays - b.usedDays = 10 ∧ b.reservedDays = 2 ∧
        (s.hcm.balances b.hcmKey).map (·.totalDays) = some 8) ∧
      (∀ i < s.ticks.nextId, s.handler i = none) ∧ pendingEvents s.db.outbox = 1 ∧
      (ticks.foldl (State.afterTick sampleConfig) s).db.depth .failed = 0 := by
    decide +kernel
  have hunsynced : ∀ a ∈ actions, a.isRegular ∧ a.isSync = false := by decide +kernel
  have hkeeps : ∀ x ∈ trace (step sampleConfig) (sampleStart 10) actions, keepsHandlers x := by
    decide +kernel
  obtain ⟨s, hrun, ⟨b, hb, hleft, hreserved, height⟩, hidle, hpending, hfailed⟩ :=
    exists_run_of_exec hunsynced hexec
  have hdistinct : ∀ i j b b', (sampleStart 10).db.balances.get i = some b →
      (sampleStart 10).db.balances.get j = some b' → b.hcmKey = b'.hcmKey → i = j :=
    fun i j b b' hb hb' _ => (get_sampleDb hb).1.trans (get_sampleDb hb').1.symm
  -- The HCM has deducted the two days, which are only reserved locally.
  obtain ⟨haccounts, hticks⟩ := books_agree (opening_sample 10) (agreed_sample 10) hdistinct hrun
  obtain ⟨record, hrecord, haccounts⟩ := haccounts 0 b hb
  rw [hrecord] at height
  have hhandler : ∀ i, s.handler i = none := fun i =>
    (lt_or_ge i s.ticks.nextId).elim (hidle i) handler_of_le
  have hsettled := hticks ticks (fun x hx => unbroken_of_keepsHandlers (hkeeps x hx)) hhandler
    late_sample (by rw [hpending]; decide)
  exact ⟨_, s, b, record, hrun, hb, hrecord, hleft, hreserved, Option.some.inj height, haccounts,
    hsettled.2 hfailed⟩

end TimeOff
