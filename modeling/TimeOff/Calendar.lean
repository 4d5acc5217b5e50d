import Mathlib.Data.Int.Interval
import Mathlib.Data.Set.Card
import Mathlib.Tactic.Ring
import TimeOff.System

/-!
# Days and dates

`submitRequest` computes with instants where it is about dates.

* The days of a request are the distance of its ends, rounded. If the ends have
  times of day, these count: the days are the dates from the first to the last
  if and only if the times of day differ by less than half a day
  (`days_charged_iff`).
* A start date is a midnight of UTC, and is compared with a local midnight. On
  a server behind UTC the date of today counts as past (`past_refused_iff`).
-/

namespace TimeOff

open Transaction

variable {startDate endDate : DateString} {s s' : Session} {dto : SubmitRequestDto}
  {caller : RequestUser} {r : TimeOffRequest} {today now utcOffset : ℤ}

/-! ## Days -/

/-- The number of dates from that of `startDate` to that of `endDate`. -/
noncomputable def calendarDays (startDate endDate : DateString) : ℕ :=
  Set.ncard {day : ℤ | startDate.day ≤ day ∧ day ≤ endDate.day}

/-- The days from one to another, both counted. -/
theorem calendarDays_eq (h : startDate.day ≤ endDate.day) :
    (calendarDays startDate endDate : ℤ) = endDate.day - startDate.day + 1 := by
  have hdays : {day : ℤ | startDate.day ≤ day ∧ day ≤ endDate.day} =
      ↑(Finset.Icc startDate.day endDate.day) := by
    ext day
    rw [Set.mem_ofPred_eq, Finset.coe_Icc, Set.mem_Icc]
  rw [calendarDays, hdays, Set.ncard_coe_finset, Int.card_Icc]
  omega

/-- Whole units are not rounded. -/
theorem mathRound_add (k n : ℤ) {d : ℤ} (hd : 0 < d) :
    mathRound (k * d + n) d = k + mathRound n d := by
  have hsplit : 2 * (k * d + n) + d = 2 * n + d + k * (2 * d) := by ring
  rw [mathRound, mathRound, hsplit, Int.add_mul_ediv_right _ _ (by omega), add_comm]

/-- What is rounded to `0`. A half is rounded up. -/
theorem mathRound_eq_zero {n d : ℤ} (hd : 0 < d) :
    mathRound n d = 0 ↔ -d ≤ 2 * n ∧ 2 * n < d := by
  rw [mathRound, Int.ediv_eq_iff_of_pos (by omega)]
  omega

/-- The days of a request are its dates, up to the rounded difference of the
    times of day. -/
theorem calculateDaysRequested_eq : calculateDaysRequested startDate endDate =
    endDate.day - startDate.day + 1 + mathRound (endDate.time - startDate.time) msPerDay := by
  have hsplit : endDate.getTime - startDate.getTime =
      (endDate.day - startDate.day) * msPerDay + (endDate.time - startDate.time) := by
    rw [DateString.getTime, DateString.getTime]
    ring
  rw [calculateDaysRequested, hsplit, mathRound_add _ _ (by decide)]
  ring

/-- Later instants are not on earlier days. -/
theorem day_le_of_getTime_le (h : startDate.getTime ≤ endDate.getTime) :
    startDate.day ≤ endDate.day := by
  have hstart := startDate.time_nonneg
  have hend := endDate.time_lt
  have h : startDate.day * msPerDay + startDate.time ≤ endDate.day * msPerDay + endDate.time := h
  simp only [msPerDay] at hend h
  omega

/-- The request that is returned is the one of the body. -/
theorem submitTransaction_request {days : ℤ}
    (h : (submitTransaction dto days caller).run s = .ok r s') : r = dto.request days := by
  rw [submitTransaction, bind_eq_ok] at h
  obtain ⟨_, _, _, h⟩ := h
  rw [bind_eq_ok] at h
  obtain ⟨_, _, _, h⟩ := h
  rw [bind_eq_ok] at h
  obtain ⟨_, _, _, h⟩ := h
  exact (pure_eq_ok.1 h).1.symm

/-- A submission that succeeds stores and reserves the same number of days. It
    is that of the dates if and only if the end is less than half a day later in
    the day than the start, and no more than half a day earlier. -/
theorem days_charged_iff (h : (submitRequest today dto caller).run s = .ok r s') :
    ∃ days : ℤ, r = dto.request days ∧
      s'.db = (s.db.reserve dto.toBalanceKey days).insertRequest (dto.request days) ∧
      (days = calendarDays dto.startDate dto.endDate ↔
        -msPerDay ≤ 2 * (dto.endDate.time - dto.startDate.time) ∧
          2 * (dto.endDate.time - dto.startDate.time) < msPerDay) := by
  obtain ⟨hrole, _, _, horder, _, hrun⟩ := submitRequest_checked h
  obtain ⟨_, _, _, _, _, hdb, _⟩ := submitTransaction_ok hrole hrun
  refine ⟨_, submitTransaction_request hrun, hdb, ?_⟩
  rw [calculateDaysRequested_eq, calendarDays_eq (day_le_of_getTime_le horder), add_eq_left]
  exact mathRound_eq_zero (by decide)

/-- From midnight to six in the evening of the same day. -/
def sampleAfternoon : SubmitRequestDto :=
  ⟨sampleKey, .ofDay 0, ⟨0, 18 * 60 * 60 * 1000, by decide, by decide⟩⟩

/-- This is one day, and two are charged. -/
theorem days_charged_afternoon :
    calendarDays sampleAfternoon.startDate sampleAfternoon.endDate = 1 ∧
      ∃ r s', (submitRequest 0 sampleAfternoon sampleEmployee).run (.start (sampleDb 10)) =
        .ok r s' ∧ r.daysRequested = 2 := by
  have hreturns : returns (submitRequest 0 sampleAfternoon sampleEmployee)
      (.start (sampleDb 10)) (·.daysRequested = 2) := by decide +kernel
  obtain ⟨r, s', hrun, hdays⟩ := returns_iff.1 hreturns
  have hcalendar := calendarDays_eq (show sampleAfternoon.startDate.day ≤
    sampleAfternoon.endDate.day by decide)
  exact ⟨Int.ofNat_inj.1 hcalendar, r, s', hrun, of_decide_eq_true hdays⟩

/-- The dates themselves are charged for. -/
theorem days_charged_sample : ∃ r s', (submitRequest 0 ⟨sampleKey, .ofDay 0, .ofDay 1⟩
    sampleEmployee).run (.start (sampleDb 10)) = .ok r s' ∧
      ∃ days : ℤ, r.daysRequested = days ∧ days = calendarDays (.ofDay 0) (.ofDay 1) := by
  have hreturns : returns (submitRequest 0 ⟨sampleKey, .ofDay 0, .ofDay 1⟩ sampleEmployee)
      (.start (sampleDb 10)) fun _ => true := by decide +kernel
  obtain ⟨r, s', hrun, _⟩ := returns_iff.1 hreturns
  obtain ⟨days, hr, _, hiff⟩ := days_charged_iff hrun
  exact ⟨r, s', hrun, days, by rw [hr]; rfl, hiff.2 (by decide)⟩

/-! ## Today -/

/-- The date on the server's wall, as a number of days. -/
def localDay (utcOffset : ℤ) (now : Instant) : ℤ := (now + utcOffset) / msPerDay

/-- The error for a start in the past. -/
def pastError : ServiceError := .badRequest "startDate cannot be in the past"

/-- The caller may submit. -/
def RequestUser.MaySubmit (caller : RequestUser) (dto : SubmitRequestDto) : Prop :=
  caller.role = .employee ∧ caller.employeeId = dto.employeeId

/-- A midnight of UTC, compared with the local one. -/
theorem getTime_ofDay_lt_iff {d : ℤ} (hmin : -msPerDay ≤ utcOffset) (hmax : utcOffset < msPerDay) :
    (DateString.ofDay d).getTime < localMidnight utcOffset now ↔
      d < localDay utcOffset now ∨ (d = localDay utcOffset now ∧ utcOffset < 0) := by
  have hsides : (DateString.ofDay d).getTime < localMidnight utcOffset now ↔
      d * msPerDay + 0 < localDay utcOffset now * msPerDay - utcOffset := Iff.rfl
  rw [hsides]
  simp only [msPerDay] at *
  omega

/-- The check of the scope does not throw the error for dates in the past. -/
theorem ensureEmployeeScope_throws {id : ℕ} :
    ThrowsOnly (· ≠ pastError) (ensureEmployeeScope id caller) := by
  have hfind : ThrowsOnly (· ≠ pastError) (findEmployeeOrFail id) := by
    refine .bind .get fun s => ?_
    cases s.db.employees.get id with
    | none => exact .throw (by simp [pastError])
    | some e => exact .pure e
  rw [ensureEmployeeScope]
  cases caller.role with
  | admin => exact .pure ()
  | manager =>
    refine .bind hfind fun e => ?_
    split
    · exact .pure ()
    · exact .throw (by simp [pastError])
  | employee =>
    refine .bind hfind fun _ => ?_
    split
    · exact .pure ()
    · exact .throw (by simp [pastError])

/-- Nor do the attempts at a reservation. -/
theorem reserveAttempts_throws {key : BalanceKey} {days : ℚ} {n : ℕ} :
    ThrowsOnly (· ≠ pastError) (reserveAttempts key days n) := by
  have hfind : ThrowsOnly (· ≠ pastError) (findBalance key) := .bind .get fun _ => .pure _
  induction n with
  | zero => exact .bind hfind fun _ => .throw (by simp [pastError])
  | succ n ih =>
    refine .bind hfind fun found => ?_
    cases found with
    | none => exact .throw (by simp [pastError])
    | some balance =>
      change ThrowsOnly _ (if _ then _ else _)
      split
      · exact .throw (by simp [pastError])
      · refine .bind (.bind .get fun _ => .bind (.modify _) fun _ => .pure _) fun updated => ?_
        cases updated
        · exact ih
        · exact .pure ()

/-- The transaction of a submission does not look at the dates. -/
theorem submitTransaction_throws {days : ℤ} :
    ThrowsOnly (· ≠ pastError) (submitTransaction dto days caller) :=
  .bind ensureEmployeeScope_throws fun _ =>
    .bind reserveAttempts_throws fun _ => .bind (.modify _) fun _ => .pure _

/-- When a submission is refused for a start in the past. -/
theorem submitRequest_past_iff :
    (∃ t, (submitRequest today dto caller).run s = .error pastError t) ↔
      caller.MaySubmit dto ∧ dto.startDate.getTime < today := by
  rw [submitRequest, RequestUser.MaySubmit]
  -- The checks come in the order of the source: the caller, the past, the order of the
  -- dates, the days; whatever throws after the second one throws something else.
  split
  · next hcaller =>
    have hmay : ¬(caller.role = .employee ∧ caller.employeeId = dto.employeeId) := by tauto
    refine iff_of_false ?_ fun h => hmay h.1
    rintro ⟨_, h⟩
    cases h
  next hcaller =>
  have hmay : caller.role = .employee ∧ caller.employeeId = dto.employeeId := by tauto
  split
  · next hpast => exact iff_of_true ⟨s, rfl⟩ ⟨hmay, hpast⟩
  next hpast =>
  refine iff_of_false ?_ fun h => hpast h.2
  split
  · rintro ⟨_, h⟩
    exact absurd (EStateM.Result.error.inj h).1 (by simp [pastError])
  split
  · rintro ⟨_, h⟩
    exact absurd (EStateM.Result.error.inj h).1 (by simp [pastError])
  · rintro ⟨_, h⟩
    exact submitTransaction_throws _ _ _ h rfl

/-- A date-only start is refused as past exactly if it is before the local date,
    if and only if the server is not behind UTC or the start is not today; for a
    caller who may not submit at all, if and only if it is not past. -/
theorem past_refused_iff {d : ℤ} (hmin : -(12 * 60 * 60 * 1000) ≤ utcOffset)
    (hmax : utcOffset ≤ 14 * 60 * 60 * 1000) (hstart : dto.startDate = .ofDay d) :
    ((∃ t, (submitRequest (localMidnight utcOffset now) dto caller).run s = .error pastError t) ↔
      d < localDay utcOffset now) ↔
    (caller.MaySubmit dto ∧ (0 ≤ utcOffset ∨ d ≠ localDay utcOffset now)) ∨
      (¬caller.MaySubmit dto ∧ localDay utcOffset now ≤ d) := by
  have hmidnight : (DateString.ofDay d).getTime < localMidnight utcOffset now ↔
      d < localDay utcOffset now ∨ (d = localDay utcOffset now ∧ utcOffset < 0) :=
    getTime_ofDay_lt_iff (by simp only [msPerDay]; omega) (by simp only [msPerDay]; omega)
  rw [submitRequest_past_iff, hstart, hmidnight]
  by_cases hmay : caller.MaySubmit dto
  · simp only [hmay, true_and, not_true_eq_false, false_and, or_false]
    omega
  · simp only [hmay, false_and, not_false_eq_true, true_and, false_or, false_iff, not_lt]

/-- An hour behind UTC, at noon of the epoch: who asks for today is refused. -/
theorem past_refused_today : localDay (-(60 * 60 * 1000)) (12 * 60 * 60 * 1000) = 0 ∧
    ∃ t, (submitRequest (localMidnight (-(60 * 60 * 1000)) (12 * 60 * 60 * 1000))
      ⟨sampleKey, .ofDay 0, .ofDay 0⟩ sampleEmployee).run (.start (sampleDb 10)) =
        .error pastError t :=
  ⟨by decide, submitRequest_past_iff.2 ⟨⟨rfl, rfl⟩, by decide⟩⟩

/-- An hour ahead, yesterday is refused. -/
theorem past_refused_sample :
    (∃ t, (submitRequest (localMidnight (60 * 60 * 1000) (12 * 60 * 60 * 1000))
      ⟨sampleKey, .ofDay (-1), .ofDay 0⟩ sampleEmployee).run (.start (sampleDb 10)) =
        .error pastError t) ↔
    (-1 : ℤ) < localDay (60 * 60 * 1000) (12 * 60 * 60 * 1000) :=
  (past_refused_iff (by decide) (by decide) rfl).2 (.inl ⟨⟨rfl, rfl⟩, .inl (by decide)⟩)

end TimeOff
