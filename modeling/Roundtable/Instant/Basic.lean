/-!
# Instants

An instant is a date and a time of day in universal time, to the nanosecond, in the proleptic
Gregorian calendar. The sixtieth second of a minute is allowed, so that leap seconds have a name.

A clock reading elsewhere differs from universal time by whole minutes, fewer than a day, so finding
the instant moves the date by one day at most (`Civil.shift`).
-/

namespace Roundtable

/-- A reading of a calendar and a clock. -/
structure Civil where
  year : Int
  month : Nat
  day : Nat
  hour : Nat
  minute : Nat
  second : Nat
  nanosecond : Nat
  deriving DecidableEq

namespace Civil

/-- Whether a year has a leap day. -/
def isLeap (year : Int) : Bool :=
  year % 4 == 0 && (year % 100 != 0 || year % 400 == 0)

/-- The number of days of a month; none for a number that is no month. -/
def daysIn (year : Int) (month : Nat) : Nat :=
  if month = 2 then (if isLeap year then 29 else 28)
  else if [4, 6, 9, 11].contains month then 30
  else if 1 ≤ month ∧ month ≤ 12 then 31
  else 0

/-- The years that are counted. -/
def isCounted (year : Int) : Bool :=
  decide (-262143 ≤ year ∧ year ≤ 262142)

/-- Whether a reading exists. -/
def isValid (c : Civil) : Bool :=
  isCounted c.year && decide (1 ≤ c.day ∧ c.day ≤ daysIn c.year c.month) &&
    decide (c.hour < 24 ∧ c.minute < 60 ∧ c.second ≤ 60 ∧ c.nanosecond < Nat.pow 10 9)

/-- The same time on the next day. -/
def nextDay (c : Civil) : Civil :=
  if c.day < daysIn c.year c.month then { c with day := c.day + 1 }
  else if c.month < 12 then { c with month := c.month + 1, day := 1 }
  else { c with year := c.year + 1, month := 1, day := 1 }

/-- The same time on the day before. -/
def previousDay (c : Civil) : Civil :=
  if 1 < c.day then { c with day := c.day - 1 }
  else if 1 < c.month then { c with month := c.month - 1, day := daysIn c.year (c.month - 1) }
  else { c with year := c.year - 1, month := 12, day := 31 }

/-- The reading a number of minutes earlier, fewer than a day. -/
def shift (c : Civil) (minutes : Int) : Civil :=
  let total : Int := c.hour * 60 + c.minute - minutes
  let set (c : Civil) (t : Int) : Civil := { c with hour := (t / 60).toNat, minute := (t % 60).toNat }
  if total < 0 then set c.previousDay (total + 1440)
  else if 1440 ≤ total then set c.nextDay (total - 1440)
  else set c total

end Civil

/-- A point in time, as read in universal time. -/
structure Instant where
  civil : Civil
  valid : civil.isValid = true
  deriving DecidableEq

/-- The instant of a reading in universal time, if the reading exists. -/
def Instant.ofCivil (c : Civil) : Option Instant :=
  if h : c.isValid = true then some ⟨c, h⟩ else none

/-- The instant of a reading that is a number of minutes ahead of universal time. -/
def Instant.ofLocal (c : Civil) (minutes : Int) : Option Instant :=
  if c.isValid then ofCivil (c.shift minutes) else none

end Roundtable
