import Mathlib.Data.Int.Init

/-!
# Dates

Instants are milliseconds since the epoch. A date string that the validator
admits and `Date` parses is a calendar day, in UTC, and a time of day
(`DateString`): date-times are admitted as well as plain dates.
-/

namespace TimeOff

/-- Milliseconds since the epoch. -/
abbrev Instant := ℤ

/-- `msPerDay` of `calculateDaysRequested`, in milliseconds. -/
def msPerDay : ℤ := 24 * 60 * 60 * 1000

/-- A parsed date string. -/
structure DateString where
  /-- The day, counted from the epoch. -/
  day : ℤ
  /-- The time of day, in milliseconds. -/
  time : ℤ
  time_nonneg : 0 ≤ time
  time_lt : time < msPerDay

namespace DateString

/-- A date without a time is midnight of that day. -/
def ofDay (day : ℤ) : DateString := ⟨day, 0, by decide, by decide⟩

/-- `new Date(s).getTime()` -/
def getTime (s : DateString) : Instant := s.day * msPerDay + s.time

end DateString

/-- `Math.round(n / d)`, for `0 < d`: ties are rounded up. -/
def mathRound (n d : ℤ) : ℤ := (2 * n + d) / (2 * d)

/-- `RequestService.calculateDaysRequested` -/
def calculateDaysRequested (startDate endDate : DateString) : ℤ :=
  mathRound (endDate.getTime - startDate.getTime) msPerDay + 1

/-- `now.setHours(0, 0, 0, 0)`, on a server `utcOffset` milliseconds ahead of
    UTC: the last local midnight. -/
def localMidnight (utcOffset : ℤ) (now : Instant) : Instant :=
  (now + utcOffset) / msPerDay * msPerDay - utcOffset

end TimeOff
