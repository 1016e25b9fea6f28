import Lilac.Text.Digit

/-!
# Dates and times

A moment is a day of the Gregorian calendar, perhaps with a time of day and with an offset from
universal time. The calendar reaches from the year 1 to the year 9999, there are no leap seconds,
and an offset is less than a day.
-/

namespace Lilac

namespace Calendar

private def isLeap (year : Nat) : Bool := year % 4 = 0 && (year % 100 ≠ 0 || year % 400 = 0)

private def daysIn (year month : Nat) : Nat :=
  if month = 2 then if isLeap year then 29 else 28
  else if month ∈ [4, 6, 9, 11] then 30
  else 31

/-- A day, whether the calendar has it or not. -/
structure Date where
  year : Nat
  month : Nat
  day : Nat
  deriving DecidableEq, Repr

/-- A time of day, whether the clock shows it or not. -/
structure Time where
  hour : Nat
  minute : Nat
  second : Nat
  deriving DecidableEq, Repr

/-- A day, perhaps with a time, perhaps with an offset from universal time in minutes. -/
structure Moment where
  date : Date
  time : Option Time
  offset : Option Int
  deriving DecidableEq, Repr

/-- Why there is no such moment. -/
inductive Fault where
  /-- The offset is a day or more. -/
  | offset (minutes : Int)
  /-- The calendar does not reach to the year. -/
  | year (year : Nat)
  /-- There is no such month. -/
  | month
  /-- The month has no such day. -/
  | day
  /-- There is no such hour. -/
  | hour
  /-- There is no such minute. -/
  | minute
  /-- There is no such second. -/
  | second
  deriving DecidableEq, Repr

/-- A span of minutes as whole days, rounded down, and the seconds left. -/
private def spanText (minutes : Int) : String :=
  let seconds := minutes.fmod 1440 * 60
  "datetime.timedelta(days=" ++ integerString (minutes.fdiv 1440)
    ++ (if seconds = 0 then "" else ", seconds=" ++ integerString seconds) ++ ")"

/-- The words for a fault. -/
def Fault.message : Fault → String
  | .offset minutes =>
    "offset must be a timedelta strictly between -timedelta(hours=24) and timedelta(hours=24), not "
      ++ spanText minutes ++ "."
  | .year n => "year " ++ natString n ++ " is out of range"
  | .month => "month must be in 1..12"
  | .day => "day is out of range for month"
  | .hour => "hour must be in 0..23"
  | .minute => "minute must be in 0..59"
  | .second => "second must be in 0..59"

/-- What is wrong with a day: the year is looked at first, then the month. -/
private def Date.fault? (d : Date) : Option Fault :=
  if d.year < 1 ∨ 9999 < d.year then some (.year d.year)
  else if d.month < 1 ∨ 12 < d.month then some .month
  else if d.day < 1 ∨ daysIn d.year d.month < d.day then some .day
  else none

/-- What is wrong with a time of day: the hour is looked at first. -/
private def Time.fault? (t : Time) : Option Fault :=
  if 23 < t.hour then some .hour
  else if 59 < t.minute then some .minute
  else if 59 < t.second then some .second
  else none

private def offsetFault? (minutes : Int) : Option Fault :=
  if minutes.natAbs < 1440 then none else some (.offset minutes)

/-- What is wrong with a moment: the offset is looked at first, then the day, then the time. -/
def Moment.fault? (m : Moment) : Option Fault :=
  m.offset.bind offsetFault? <|> m.date.fault? <|> m.time.bind Time.fault?

end Calendar

end Lilac
