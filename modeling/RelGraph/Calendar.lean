/-!
Dates, times of day and moments of the proleptic Gregorian calendar, years 1 to 9999. A date or a
time of day carries the proof that its parts are in range.
-/
namespace RelGraph

namespace Calendar

/-- Whether a year has a twenty-ninth of February. -/
def isLeap (year : Nat) : Bool := year % 4 == 0 && (year % 100 != 0 || year % 400 == 0)

/-- The number of days of a month. -/
def daysInMonth (year month : Nat) : Nat :=
  match month with
  | 2 => if isLeap year then 29 else 28
  | 4 | 6 | 9 | 11 => 30
  | _ => 31

/-- The days of a year before a month begins. -/
def daysBeforeMonth (year month : Nat) : Nat :=
  (List.range (month - 1)).foldl (fun days i => days + daysInMonth year (i + 1)) 0

/-- The days before a year begins, counted from the start of year 1. -/
def daysBeforeYear (year : Nat) : Nat :=
  let past := year - 1
  past * 365 + past / 4 - past / 100 + past / 400

/-- The day number of a date; the first day of year 1 has number 1. -/
def dayNumber (year month day : Nat) : Nat :=
  daysBeforeYear year + daysBeforeMonth year month + day

/-- The weekday of a day number, Monday being 0. -/
def weekday (number : Nat) : Nat := (number + 6) % 7

/-- Finds the month and day of a day of the year, counted from zero, starting at a month. -/
def monthAndDay (year : Nat) : Nat → Nat → Nat → Nat × Nat
  | 0, month, rest => (month, rest + 1)
  | fuel + 1, month, rest =>
    if rest < daysInMonth year month then (month, rest + 1)
    else monthAndDay year fuel (month + 1) (rest - daysInMonth year month)

/-- The year, month and day of a day number. -/
def ofDayNumber (number : Nat) : Nat × Nat × Nat :=
  let guess := (number - 1) / 366 + 1
  let year := ((List.range 30).map (guess + ·)).foldl
    (fun best y => if daysBeforeYear y < number then y else best) guess
  let (month, day) := monthAndDay year 11 1 (number - daysBeforeYear year - 1)
  (year, month, day)

/-- Whether three numbers form a date. -/
def isDate (year month day : Nat) : Bool :=
  1 ≤ year && year ≤ 9999 && 1 ≤ month && month ≤ 12 && 1 ≤ day && day ≤ daysInMonth year month

/-- Whether four numbers form a time of day. -/
def isTimeOfDay (hour minute second micro : Nat) : Bool :=
  hour ≤ 23 && minute ≤ 59 && second ≤ 59 && micro ≤ 999999

/-- The microseconds of a day. -/
def microsPerDay : Nat := 86400000000

end Calendar

open Calendar in
/-- A calendar date. -/
structure Date where
  year : Nat
  month : Nat
  day : Nat
  valid : isDate year month day = true := by decide
deriving DecidableEq, Repr

instance : Inhabited Date := ⟨{ year := 1, month := 1, day := 1 }⟩

open Calendar in
/-- A time of day to the microsecond. -/
structure TimeOfDay where
  hour : Nat
  minute : Nat
  second : Nat
  micro : Nat
  valid : isTimeOfDay hour minute second micro = true := by decide
deriving DecidableEq, Repr

instance : Inhabited TimeOfDay := ⟨{ hour := 0, minute := 0, second := 0, micro := 0 }⟩

/-- A distance from universal time in microseconds, east positive. -/
abbrev Offset := Int

/-- A time of day, with its distance from universal time when that is known. -/
structure Time where
  clock : TimeOfDay
  offset : Option Offset
deriving DecidableEq, Repr, Inhabited

/-- A date and a time of day, with the distance from universal time when that is known. -/
structure DateTime where
  date : Date
  clock : TimeOfDay
  offset : Option Offset
deriving DecidableEq, Repr, Inhabited

namespace TimeOfDay

/-- The microseconds since midnight. -/
def micros (t : TimeOfDay) : Nat :=
  ((t.hour * 60 + t.minute) * 60 + t.second) * 1000000 + t.micro

end TimeOfDay

namespace DateTime

/-- The microseconds from the start of year 1 to the moment, in its own clock less its offset. -/
def instant (m : DateTime) : Int :=
  (dayNumber m.date.year m.date.month m.date.day * microsPerDay + m.clock.micros : Nat) -
    m.offset.getD 0
where
  dayNumber := Calendar.dayNumber
  microsPerDay := Calendar.microsPerDay

/-- The moment without its distance from universal time. -/
def naive (m : DateTime) : DateTime := { m with offset := none }

end DateTime
end RelGraph
