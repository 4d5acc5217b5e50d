import TimeOff.Covered
import TimeOff.Races

/-!
# Who reads the balances

Balances are read by submissions and by syncs. Nothing else that the service
does looks at them: it settles the balance of a request at most, whatever is
there (`Balances.settle`). So with other balances the system takes the same
step, and settles them as well (`step_withBalances`).
-/

namespace TimeOff

open Transaction

/-! ## Transactions -/

/-- The session with other balances. -/
def Session.withBalances (p : Balances × Bool) (s : Session) : Session :=
  ⟨{ s.db with balances := p.1 }, p.2⟩

/-- The balance of a request is settled, or none. -/
def SettlesOne (u : Balances × Bool → Balances × Bool) : Prop :=
  ∃ target key days, ∀ p, (u p).1 = p.1.settle target key days

/-- The transaction has nothing to do with balances. -/
def Unread {α : Type} (x : Tx α) : Prop := Blind Session.withBalances (· = id) x

/-- The transaction does not read balances, and settles one at most. -/
def Settling {α : Type} (x : Tx α) : Prop := Blind Session.withBalances SettlesOne x

variable {α β : Type} {x : Tx α} {f : α → Tx β}

theorem settlesOne_id : SettlesOne id := ⟨.pending, ⟨0, "", ""⟩, 0, fun _ => rfl⟩

namespace Unread

theorem bind (hx : Unread x) (hf : ∀ a, Unread (f a)) : Unread (x >>= f) :=
  Blind.bind hx hf fun u v hu hv => by rw [hu, hv]; rfl

theorem settling (hx : Unread x) : Settling x := by
  intro s
  rcases hx s with ⟨a, s', u, rfl, hrun⟩ | herror
  · exact .inl ⟨a, s', _, settlesOne_id, hrun⟩
  · exact .inr herror

/-- What comes after it settles a balance. -/
theorem bind_settling (hx : Unread x) (hf : ∀ a, Settling (f a)) : Settling (x >>= f) :=
  Blind.bind hx hf fun u v hu hv => by rwa [hu]

end Unread

/-- What comes after it has nothing to do with balances. -/
theorem Settling.bind_unread (hx : Settling x) (hf : ∀ a, Unread (f a)) : Settling (x >>= f) :=
  Blind.bind hx hf fun u v hu hv => by rwa [hv]

variable {id : ℕ} {now : Instant} {c : Call}

theorem unread_pure (a : α) : Unread (pure a : Tx α) := Blind.pure (U := (· = _)) rfl a

theorem unread_throw (e : ServiceError) : Unread (throw e : Tx α) := Blind.throw e

/-- What would come after an error does not matter. -/
theorem unread_throw_bind (e : ServiceError) : Unread ((throw e : Tx α) >>= f) :=
  Blind.of_run fun _ => ⟨throw e, unread_throw e, fun _ => rfl⟩

theorem unread_check {p : Prop} [Decidable p] (e : ServiceError) :
    Unread (if p then pure () else throw e : Tx Unit) := Blind.check (U := (· = _)) rfl e

/-- A statement on another table. -/
theorem unread_execute {g : Database → Database}
    (hg : ∀ db t, g { db with balances := t } = { g db with balances := t }) :
    Unread (execute g) := by
  refine fun s => .inl ⟨(), ⟨g s.db, s.clamped⟩, _, rfl, fun p => ?_⟩
  exact congrArg (fun db => EStateM.Result.ok () (Session.mk db p.2)) (hg s.db p.1)

/-- A statement that settles a balance. -/
theorem settling_modify (target : RequestStatus) {key : BalanceKey} {days : ℚ}
    {g : Session → Session}
    (hg : ∀ p s, ∃ clamped, g (Session.withBalances p s) =
      Session.withBalances (p.1.settle target key days, clamped) s) : Settling (modify g) := by
  intro s
  choose clamped hclamped using fun p => hg p s
  exact .inl ⟨(), s, fun p => (p.1.settle target key days, clamped p),
    ⟨target, key, days, fun _ => rfl⟩, fun p => congrArg (EStateM.Result.ok ()) (hclamped p)⟩

theorem settling_releaseReserved {key : BalanceKey} {days : ℚ} :
    Settling (releaseReserved key days) :=
  settling_modify .cancelled fun _ _ => ⟨_, rfl⟩

theorem settling_confirmDeduction {key : BalanceKey} {days : ℚ} :
    Settling (confirmDeduction key days) :=
  settling_modify .approved fun _ _ => ⟨_, rfl⟩

/-- Finding a request reads no balance. -/
theorem unread_findOrFail : Unread (findOrFail id) := by
  refine Blind.of_run fun s => ?_
  cases hr : s.db.requests.get id with
  | some r => exact ⟨pure r, unread_pure r, fun p => findOrFail_run hr⟩
  | none =>
    refine ⟨throw (.notFound s!"Request {id} not found"), unread_throw _, fun p => ?_⟩
    have hnone : (Session.withBalances p s).db.requests.get id = none := hr
    rw [findOrFail, run_get_bind, hnone]

/-- Nor does a transition. -/
theorem unread_transitionRequest {target : RequestStatus} {v : ℕ} {fields : ExtraFields} :
    Unread (transitionRequest id target v fields) := by
  refine unread_findOrFail.bind fun current => Unread.bind (unread_check _) fun _ =>
    Blind.of_run fun s => ?_
  cases hu : s.db.requests.updateIf id (·.version = v) (·.move target fields) with
  | some requests =>
    have hrest : Unread (do
        execute fun db => { db with requests := requests }
        findOrFail id) := (unread_execute fun _ _ => rfl).bind fun _ => unread_findOrFail
    refine ⟨_, hrest, fun p => ?_⟩
    have hsome : (Session.withBalances p s).db.requests.updateIf id (·.version = v)
        (·.move target fields) = some requests := hu
    rw [run_get_bind, hsome]
  | none =>
    refine ⟨_, unread_throw (.conflict s!"Request {id} was modified concurrently"), fun p => ?_⟩
    have hnone : (Session.withBalances p s).db.requests.updateIf id (·.version = v)
        (·.move target fields) = none := hu
    rw [run_get_bind, hnone]

/-! ## Calls and handlers -/

/-- Nor does the check of the scope. -/
theorem unread_ensureRequestScope {r : TimeOffRequest} {caller : RequestUser} :
    Unread (ensureRequestScope r caller) := by
  rw [ensureRequestScope]
  cases caller.role with
  | admin => exact unread_pure _
  | manager | employee => exact unread_check _

/-- Nor does what is read before a transaction. -/
theorem unread_preRead {kind : CallKind} {caller : RequestUser} :
    Unread (preRead kind id caller) := by
  have hscope : ∀ f : TimeOffRequest → Tx Call, (∀ r, Unread (f r)) → Unread (do
      let request ← findOrFail id
      ensureRequestScope request caller
      f request) :=
    fun f hf => unread_findOrFail.bind fun r => unread_ensureRequestScope.bind fun _ => hf r
  cases kind with
  | approve => exact Unread.bind (unread_check _) fun _ => hscope _ fun r => unread_pure _
  | reject reason =>
    rw [preRead]
    split
    · exact unread_throw_bind _
    · exact Unread.bind (unread_check _) fun _ => hscope _ fun r => unread_pure _
  | cancel =>
    refine hscope _ fun r => ?_
    split
    · exact unread_throw_bind _
    · exact unread_pure _

/-- The transactions of the calls settle days of one row at most. -/
theorem settling_transaction : Settling (c.transaction now) := by
  rw [Call.transaction]
  split
  · refine (unread_transitionRequest.bind fun r => ?_).settling
    exact unread_execute fun _ _ => rfl
  · exact unread_transitionRequest.bind_settling fun _ => settling_releaseReserved
  · have hrest : Settling (do
        releaseReserved c.request.toBalanceKey c.request.daysRequested
        let _ ← transitionRequest c.id .cancelled c.request.version {}) :=
      settling_releaseReserved.bind_unread fun _ =>
        unread_transitionRequest.bind fun _ => unread_pure _
    rw [cancelTransaction]
    split
    · exact (unread_execute fun _ _ => rfl).bind_settling fun _ => hrest
    · exact hrest

/-- So does the completion of a deduction. -/
theorem settling_completeDeductionFromOutbox {hcmRequestId : String} :
    Settling (completeDeductionFromOutbox id hcmRequestId) := by
  refine unread_findOrFail.bind_settling fun r => ?_
  split
  · exact (unread_pure _).settling
  · split
    · refine (Unread.bind (unread_execute fun _ _ => rfl) fun _ => ?_).settling
      exact unread_findOrFail
    · refine unread_transitionRequest.bind_settling fun _ => ?_
      exact settling_confirmDeduction.bind_unread fun _ => unread_pure _

theorem unread_failRequestFromOutbox : Unread (failRequestFromOutbox id) := by
  refine unread_findOrFail.bind fun r => ?_
  split
  · exact unread_pure _
  · exact unread_transitionRequest

theorem settling_deductTransaction {event : OutboxEvent} {hcmRequestId : String} :
    Settling (deductTransaction id event hcmRequestId) :=
  settling_completeDeductionFromOutbox.bind_unread fun _ => unread_execute fun _ _ => rfl

/-- A failure is handled without a look at the balances. -/
theorem unread_handleEventFailure {cfg : Config} {event : OutboxEvent} :
    Unread (handleEventFailure cfg now id event) := by
  rw [handleEventFailure]
  split
  · split
    · refine (unread_execute fun _ _ => rfl).bind fun _ => ?_
      exact unread_failRequestFromOutbox.bind fun _ => unread_pure _
    · exact unread_execute fun _ _ => rfl
  · exact unread_execute fun _ _ => rfl

/-! ## The system -/

/-- What `f` does to the database with some balances, and what comes of it: it
    settles a balance, or none, and the rest does not depend on the balances. -/
def SettlesAlike (f : Balances → Database × β) : Prop :=
  ∃ target key days, ∃ db : Database, ∃ b, ∀ t : Balances,
    f t = ({ db with balances := t.settle target key days }, b)

theorem settlesAlike_same (db : Database) (b : β) :
    SettlesAlike fun t => ({ db with balances := t }, b) :=
  ⟨.pending, ⟨0, "", ""⟩, 0, db, b, fun _ => rfl⟩

/-- A transaction commits, or throws, whatever the balances are. -/
theorem Settling.run_start (hx : Settling x) (db : Database) :
    (∃ target key days a, ∃ db' : Database, ∃ clamped : Balances → Bool, ∀ t : Balances,
      x.run (.start { db with balances := t }) =
        .ok a ⟨{ db' with balances := t.settle target key days }, clamped t⟩) ∨
      ∃ e, ∃ s' : Balances → Session, ∀ t : Balances,
        x.run (.start { db with balances := t }) = .error e (s' t) := by
  rcases hx (.start db) with ⟨a, s', u, ⟨target, key, days, hu⟩, hrun⟩ | ⟨e, hrun⟩
  · refine .inl ⟨target, key, days, a, s'.db, fun t => (u (t, false)).2, fun t => ?_⟩
    rw [← hu (t, false)]
    exact hrun (t, false)
  · choose s' hs' using fun t => hrun (t, false)
    exact .inr ⟨e, s', hs'⟩

/-- That it settles days, seen from outside of the transaction. -/
theorem Settling.transaction (hx : Settling x) (db : Database) :
    SettlesAlike fun t => (TimeOff.transaction x { db with balances := t }, ()) := by
  rcases hx.run_start db with ⟨target, key, days, a, db', clamped, hrun⟩ | ⟨e, s', hrun⟩
  · exact ⟨target, key, days, db', (), fun t => congrArg (·, ()) (transaction_eq (hrun t))⟩
  · have hsame : ∀ t : Balances, TimeOff.transaction x { db with balances := t } =
        { db with balances := t } := by
      intro t
      rcases transaction_cases x { db with balances := t } with ⟨_, _, hok, _⟩ | ⟨_, _, _, heq⟩
      · cases (hrun t).symm.trans hok
      · exact heq
    simp only [hsame]
    exact settlesAlike_same db ()

variable {cfg : Config} {s s' : State} {a : Action} {db : Database} {hcm : HcmState} {h : Handler}
  {o : Outcome}

/-- Handlers do not look at balances. -/
theorem settlesAlike_step :
    SettlesAlike fun t => h.step cfg now { db with balances := t } hcm o := by
  -- Of all phases only the completion settles days, and it does not look at the balances to
  -- decide; in the others they play no part.
  cases hphase : h.phase with
  | deductBalance =>
    simp only [Handler.step, hphase]
    split <;> exact settlesAlike_same db _
  | completeDeduction hcmRequestId =>
    simp only [Handler.step, hphase]
    split
    · exact settlesAlike_same db _
    · have hsettling : Settling (deductTransaction h.id h.event hcmRequestId) :=
        settling_deductTransaction
      rcases hsettling.run_start db with
        ⟨target, key, days, a, db', clamped, hrun⟩ | ⟨e, s', hrun⟩
      · simp only [hrun]
        exact ⟨target, key, days, db', _, fun _ => rfl⟩
      · simp only [hrun]
        exact settlesAlike_same db _
  | readHcmRequestId =>
    simp only [Handler.step, hphase]
    split
    · exact settlesAlike_same db _
    · have hselect : ∀ t : Balances, h.selectHcmRequestId { db with balances := t } =
          h.selectHcmRequestId db := fun _ => rfl
      simp only [hselect]
      split <;> exact settlesAlike_same db _
  | reverseDeduction hcmRequestId =>
    simp only [Handler.step, hphase]
    split <;> exact settlesAlike_same db _
  | markDone =>
    simp only [Handler.step, hphase]
    split
    · exact settlesAlike_same db _
    · exact settlesAlike_same (db.updateEvent h.id (·.setStatus .done)) _
  | handleEventFailure =>
    simp only [Handler.step, hphase]
    split
    · exact settlesAlike_same db _
    · have hunread : Unread (handleEventFailure cfg now h.id h.event) := unread_handleEventFailure
      rcases hunread.settling.run_start db with
        ⟨target, key, days, a, db', clamped, hrun⟩ | ⟨e, s', hrun⟩
      · simp only [hrun]
        exact ⟨target, key, days, db', _, fun _ => rfl⟩
      · simp only [hrun]
        exact settlesAlike_same db _

/-- The system with other balances. -/
def State.withBalances (s : State) (t : Balances) : State :=
  { s with db := { s.db with balances := t } }

/-- With other balances the step is the same, and it settles these. -/
def StepsAlike (cfg : Config) (s : State) (a : Action) : Prop :=
  ∃ target key days, ∃ s₁ : State, ∀ t : Balances,
    step cfg (s.withBalances t) a = some (s₁.withBalances (t.settle target key days))

/-- The step leaves the balances alone. -/
theorem stepsAlike_same (s₁ : State)
    (h : ∀ t : Balances, step cfg (s.withBalances t) a = some (s₁.withBalances t)) :
    StepsAlike cfg s a :=
  ⟨.pending, ⟨0, "", ""⟩, 0, s₁, h⟩

/-- A transaction of the service is run. -/
theorem Settling.commit (hx : Settling x) (s : State) :
    ∃ target key days, ∃ s₁ : State, ∀ t : Balances,
      (s.withBalances t).commit x = s₁.withBalances (t.settle target key days) := by
  obtain ⟨target, key, days, db', _, htransaction⟩ := hx.transaction s.db
  refine ⟨target, key, days, { s with db := db' }, fun t => ?_⟩
  exact congrArg (fun r => { s with db := r.1 }) (htransaction t)

theorem Settling.stepsAlike (hx : Settling x)
    (h : ∀ t : Balances, step cfg (s.withBalances t) a = some ((s.withBalances t).commit x)) :
    StepsAlike cfg s a := by
  obtain ⟨target, key, days, s₁, hs₁⟩ := hx.commit s
  exact ⟨target, key, days, s₁, fun t => (h t).trans (congrArg some (hs₁ t))⟩

/-- The step that reads before a transaction. -/
theorem stepsAlike_preRead {kind : CallKind} {caller : RequestUser} :
    StepsAlike cfg s (.preRead kind id caller) := by
  have hunread : Unread (preRead kind id caller) := unread_preRead
  rcases hunread.settling.run_start s.db with ⟨_, _, _, c, _, _, hrun⟩ | ⟨_, _, hrun⟩
  · refine stepsAlike_same { s with calls := s.calls.insert c } fun t => ?_
    have ht : (preRead kind id caller).run (.start (s.withBalances t).db) = _ := hrun t
    rw [step, ht]
    rfl
  · refine stepsAlike_same s fun t => ?_
    have ht : (preRead kind id caller).run (.start (s.withBalances t).db) = _ := hrun t
    rw [step, ht]

/-- The step that is the transaction. -/
theorem stepsAlike_transact {n : ℕ} (hc : s.calls.get n = some c) :
    StepsAlike cfg s (.transact n) := by
  have hsettling : Settling (c.transaction s.now) := settling_transaction
  obtain ⟨target, key, days, s₁, hs₁⟩ := hsettling.commit s
  refine ⟨target, key, days, { s₁ with calls := s.calls.erase n }, fun t => ?_⟩
  have ht : (s.withBalances t).calls.get n = some c := hc
  rw [step, ht]
  exact congrArg (fun s₁ : State => some { s₁ with calls := s.calls.erase n }) (hs₁ t)

/-- The claim of a tick. -/
theorem stepsAlike_claim {i : ℕ} {event : OutboxEvent} {queue : List (ℕ × OutboxEvent)}
    (hget : s.ticks.get i = some ⟨(id, event) :: queue, none⟩) :
    StepsAlike cfg s (.claim i o) := by
  have hticks : ∀ t, (s.withBalances t).ticks.get i = some ⟨(id, event) :: queue, none⟩ :=
    fun _ => hget
  by_cases ho : o = .ok
  · cases hu : s.db.outbox.updateIf id (·.status = .pending) (·.setStatus .processing) with
    | some outbox =>
      refine stepsAlike_same { s with
        db := { s.db with outbox := outbox }
        ticks := s.ticks.update i fun _ => ⟨queue, some (.start id event)⟩ } fun t => ?_
      have hclaim : claimEvent (s.withBalances t).db id =
          some { (s.withBalances t).db with outbox := outbox } := congrArg (Option.map _) hu
      simp only [step, hticks, ho, ne_eq, not_true, if_false, hclaim]
      rfl
    | none =>
      refine stepsAlike_same { s with
        ticks := s.ticks.update i fun _ => ⟨queue, none⟩ } fun t => ?_
      have hclaim : claimEvent (s.withBalances t).db id = none := congrArg (Option.map _) hu
      simp only [step, hticks, ho, ne_eq, not_true, if_false, hclaim]
      rfl
  · refine stepsAlike_same { s with ticks := s.ticks.update i fun _ => ⟨[], none⟩ } fun t => ?_
    rw [step, hticks]
    exact if_pos ho

/-- A step of a handler. -/
theorem stepsAlike_handle {i : ℕ} {queue : List (ℕ × OutboxEvent)}
    (hget : s.ticks.get i = some ⟨queue, some h⟩) : StepsAlike cfg s (.handle i o) := by
  have halike : SettlesAlike fun t => h.step cfg s.now { s.db with balances := t } s.hcm o :=
    settlesAlike_step
  obtain ⟨target, key, days, db', b, hb⟩ := halike
  refine ⟨target, key, days, { s with
    db := db'
    hcm := b.1
    ticks := s.ticks.update i (·.goOn b.2) }, fun t => ?_⟩
  have hticks : (s.withBalances t).ticks.get i = some ⟨queue, some h⟩ := hget
  have hh : h.step cfg (s.withBalances t).now (s.withBalances t).db (s.withBalances t).hcm o = _ :=
    hb t
  simp only [step, hticks, hh]
  rfl

/-- With other balances, a step that is neither a submission nor a sync is the
    same, and settles these. -/
theorem step_withBalances (hsync : ¬a.isSync)
    (hsubmit : ∀ dto caller, a ≠ .submitRequest dto caller) (hstep : step cfg s a = some s') :
    ∃ target key days, s'.db.balances = s.db.balances.settle target key days ∧
      ∀ t : Balances, step cfg (s.withBalances t) a =
        some (s'.withBalances (t.settle target key days)) := by
  -- It is enough to show what the step does on all balances alike.
  suffices halike : StepsAlike cfg s a by
    obtain ⟨target, key, days, s₁, hs₁⟩ := halike
    obtain rfl := Option.some.inj (hstep.symm.trans (hs₁ s.db.balances))
    exact ⟨target, key, days, rfl, hs₁⟩
  cases a with
  | advance ms => exact stepsAlike_same { s with now := s.now + ms } fun _ => rfl
  | submitRequest dto caller => exact absurd rfl (hsubmit dto caller)
  | preRead kind id caller => exact stepsAlike_preRead
  | transact n =>
    obtain ⟨c, hc, _⟩ := Option.map_eq_some_iff.1 hstep
    exact stepsAlike_transact hc
  | completeDeductionFromOutbox id hcmRequestId =>
    exact settling_completeDeductionFromOutbox.stepsAlike fun _ => rfl
  | failRequestFromOutbox id =>
    exact unread_failRequestFromOutbox.settling.stepsAlike fun _ => rfl
  | processBatchPayload _ | processWebhookPayload _ | reconcileRow _ _ => exact absurd rfl hsync
  | tick =>
    exact stepsAlike_same { s with ticks := s.ticks.insert ⟨fetchDue s.db s.now, none⟩ }
      fun _ => rfl
  | claim i o =>
    rw [step] at hstep
    split at hstep
    · next hget => exact stepsAlike_claim hget
    · cases hstep
  | handle i o =>
    rw [step] at hstep
    split at hstep
    · next hget => exact stepsAlike_handle hget
    · cases hstep
  | checkRetry id =>
    by_cases hretry : isRetryable s.db id
    · exact stepsAlike_same { s with retries := s.retries.insert id } fun t =>
        congrArg some (if_pos hretry)
    · exact stepsAlike_same s fun t => congrArg some (if_neg hretry)
  | writeRetry n =>
    obtain ⟨id, hid, _⟩ := Option.map_eq_some_iff.1 hstep
    refine stepsAlike_same { s with
      db := requeueEvent s.now s.db id
      retries := s.retries.erase n } fun t => ?_
    have ht : (s.withBalances t).retries.get n = some id := hid
    rw [step, ht]
    rfl
  | retry id =>
    by_cases hretry : isRetryable s.db id
    · exact stepsAlike_same { s with db := requeueEvent s.now s.db id } fun t =>
        congrArg some (if_pos hretry)
    · exact stepsAlike_same s fun t => congrArg some (if_neg hretry)
  | crash => exact stepsAlike_same (.start s.db s.hcm s.now) fun _ => rfl

end TimeOff
