import ReviewDiff.Host

/-!
# The date of a point of time

Time is counted in seconds from the start of 1970, without leap seconds.  For
counting days, a year starts with March, so that a leap day is the last day of its
year.
-/

namespace ReviewDiff.Host

def daysOfEra : Nat := 146097

/-- The number of days from the start of March of the year 0 to the start of 1970.
-/
def daysBefore1970 : Nat := 719468

/-- The year of an era that holds a day of the era. -/
def yearOfEra (day : Nat) : Nat :=
  (day - day / 1460 + day / 36524 - day / 146096) / 365

/-- The year, month and day of the day with a number, counted from the start of
1970. -/
def dateOf (day : Nat) : Nat × Nat × Nat :=
  let shifted := day + daysBefore1970
  let dayOfEra := shifted % daysOfEra
  let year := yearOfEra dayOfEra
  let dayOfYear := dayOfEra - (365 * year + year / 4 - year / 100)
  let monthFromMarch := (5 * dayOfYear + 2) / 153
  let month := if monthFromMarch < 10 then monthFromMarch + 3 else monthFromMarch - 9
  let fullYear := year + 400 * (shifted / daysOfEra)
  (if month ≤ 2 then fullYear + 1 else fullYear, month,
    dayOfYear - (153 * monthFromMarch + 2) / 5 + 1)

def LocalTime.ofSeconds (seconds : Nat) : LocalTime :=
  let (year, month, day) := dateOf (seconds / 86400)
  { year, month, day
    hour := seconds / 3600 % 24
    minute := seconds / 60 % 60
    second := seconds % 60 }

end ReviewDiff.Host
