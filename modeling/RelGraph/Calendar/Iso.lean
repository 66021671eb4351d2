import RelGraph.Calendar
import RelGraph.Binary64.Shortest
/-!
The written form of dates, times and moments, and its reading. Writing has one form. Reading also
takes the compact form without marks, week dates, any single character between date and time, an
hour alone, fractions of any length cut to six digits, and a distance from universal time.

Positions count bytes of the encoded text, so a text is read as a list of byte values, padded by
zero where nothing is left.
-/
namespace RelGraph.Calendar

/-- A number in decimal with at least a given width. -/
def padded (width n : Nat) : String :=
  String.ofList (Binary64.padLeft width (Binary64.digitText n))

/-- The form `yyyy-mm-dd`. -/
def dateText (d : Date) : String := s!"{padded 4 d.year}-{padded 2 d.month}-{padded 2 d.day}"

/-- The form `hh:mm:ss`, with microseconds when there are any. -/
def clockText (t : TimeOfDay) : String :=
  s!"{padded 2 t.hour}:{padded 2 t.minute}:{padded 2 t.second}" ++
    (if t.micro = 0 then "" else s!".{padded 6 t.micro}")

/-- The form `+hh:mm`, with seconds and microseconds only where they are needed. -/
def offsetText (o : Offset) : String :=
  let micros := o.natAbs
  let seconds := micros / 1000000
  let hour := seconds / 3600
  let minute := seconds / 60 % 60
  let second := seconds % 60
  let micro := micros % 1000000
  (if o < 0 then "-" else "+") ++ s!"{padded 2 hour}:{padded 2 minute}" ++
    (if second = 0 ∧ micro = 0 then "" else s!":{padded 2 second}") ++
    (if micro = 0 then "" else s!".{padded 6 micro}")

/-- The form of a time of day with its offset. -/
def timeText (t : Time) : String := clockText t.clock ++ (t.offset.map offsetText).getD ""

/-- The form of a moment, date and time joined by a given character. -/
def momentTextWith (separator : Char) (m : DateTime) : String :=
  dateText m.date ++ separator.toString ++ clockText m.clock ++ (m.offset.map offsetText).getD ""

/-- The form of a moment, date and time joined by `T`. -/
def momentText (m : DateTime) : String := momentTextWith 'T' m

/-- Why a text is no date, time or moment. -/
inductive Fault
  | malformed
  | yearRange (year : Nat)
  | monthRange
  | dayRange
  | hourRange
  | minuteRange
  | secondRange
  | microRange
  | offsetRange (offset : Offset)
deriving DecidableEq, Repr

/-! ## Bytes -/

/-- A text as byte values, read with zeros behind its end. -/
structure Bytes where
  data : Array Nat

/-- The encoded text. -/
def Bytes.ofString (s : String) : Bytes := ⟨s.toUTF8.toList.toArray.map (·.toNat)⟩

/-- The byte at a position, zero behind the end. -/
def Bytes.at (b : Bytes) (i : Nat) : Nat := b.data.getD i 0

/-- The number of bytes. -/
def Bytes.size (b : Bytes) : Nat := b.data.size

/-- The text from a position on. -/
def Bytes.from (b : Bytes) (i : Nat) : Bytes := ⟨b.data.extract i b.data.size⟩

/-- Whether a byte is a plain digit. -/
def isDigitByte (n : Nat) : Bool := 48 ≤ n && n ≤ 57

/-- Whether the byte at a position is the given plain character. -/
def Bytes.isAt (b : Bytes) (i : Nat) (c : Char) : Bool := b.at i == c.toNat

/-- The number that exactly `count` digits from a position on spell. -/
def Bytes.digits? (b : Bytes) (start count : Nat) : Option Nat :=
  (List.range count).foldl
    (fun acc i => acc.bind fun n =>
      if isDigitByte (b.at (start + i)) then some (n * 10 + (b.at (start + i) - 48)) else none)
    (some 0)

/-! ## Dates -/

/-- The day number of the Monday of week 1: the week that holds the first Thursday. -/
def weekOneMonday (year : Nat) : Int :=
  let first : Int := dayNumber year 1 1
  let firstWeekday : Int := weekday (dayNumber year 1 1)
  let monday := first - firstWeekday
  if firstWeekday > 3 then monday + 7 else monday

/-- The date parts of a day of a week of a year. The days of year 0 come before the first month of
year 1: their parts name no month. -/
def ofWeekDate? (year week day : Nat) : Option (Nat × Nat × Nat) :=
  let first := weekday (dayNumber year 1 1)
  let weeks := if 0 < year ∧ (first = 3 ∨ (first = 2 ∧ isLeap year)) then 53 else 52
  if 9999 < year ∨ week < 1 ∨ weeks < week ∨ day < 1 ∨ 7 < day then none
  else if year = 0 then some (1, 0, 0)
  else
    let number := weekOneMonday year + ((week - 1) * 7 + (day - 1) : Nat)
    some (ofDayNumber number.toNat)

/-- Reads the date parts in the first `length` bytes. What stands behind a complete calendar date
is not looked at. -/
def readDateParts? (b : Bytes) (length : Nat) : Option (Nat × Nat × Nat) := do
  let year ← b.digits? 0 4
  let marked := b.isAt 4 '-'
  let p := if marked then 5 else 4
  if b.isAt p 'W' then
    let week ← b.digits? (p + 1) 2
    let p := p + 3
    if p < length then
      if marked && !b.isAt p '-' then none
      else
        let day ← b.digits? (if marked then p + 1 else p) 1
        ofWeekDate? year week day
    else ofWeekDate? year week 1
  else
    let month ← b.digits? p 2
    let p := p + 2
    if marked && !b.isAt p '-' then none
    else
      let day ← b.digits? (if marked then p + 1 else p) 2
      some (year, month, day)

/-- The date with given parts. -/
def makeDate (year month day : Nat) : Except Fault Date :=
  if h : isDate year month day = true then .ok ⟨year, month, day, h⟩
  else if year < 1 ∨ 9999 < year then .error (.yearRange year)
  else if month < 1 ∨ 12 < month then .error .monthRange
  else .error .dayRange

/-- The time of day with given parts. -/
def makeClock (hour minute second micro : Nat) : Except Fault TimeOfDay :=
  if h : isTimeOfDay hour minute second micro = true then .ok ⟨hour, minute, second, micro, h⟩
  else if 23 < hour then .error .hourRange
  else if 59 < minute then .error .minuteRange
  else if 59 < second then .error .secondRange
  else .error .microRange

/-- Reads a date. -/
def readDate (s : String) : Except Fault Date :=
  let b := Bytes.ofString s
  if b.size = 7 ∨ b.size = 8 ∨ b.size = 10 then
    match readDateParts? b b.size with
    | some (year, month, day) => makeDate year month day
    | none => .error .malformed
  else .error .malformed

/-! ## Times of day -/

/-- Hour, minute, second and microsecond as read, and whether something is left behind them. -/
structure ClockParts where
  hour : Nat
  minute : Nat
  second : Nat
  micro : Nat
  tail : Bool

/-- The number of digits from a position on. -/
def Bytes.digitRun (b : Bytes) (start : Nat) : Nat :=
  ((List.range (b.size - start)).takeWhile fun i => isDigitByte (b.at (start + i))).length

/-- Reads the digits behind a decimal mark up to `stop`, cut to six. -/
def readFraction? (b : Bytes) (p stop : Nat) : Option (Nat × Bool) := do
  let count := min (stop - p) 6
  let digits ← b.digits? p count
  let micro := digits * Nat.pow 10 (6 - count)
  let p := p + count
  some (micro, b.at (p + b.digitRun p) ≠ 0)

/-- Reads `hh[:mm[:ss]]` with a fraction between two positions; the marks are all there or all
absent. -/
def readClock? (b : Bytes) (start stop : Nat) : Option ClockParts := do
  let hour ← b.digits? start 2
  let mark := b.at (start + 2)
  let marked := mark = ':'.toNat
  let isFraction := fun (c : Nat) => c = '.'.toNat || c = ','.toNat
  let p := start + 3
  if stop ≤ p then return ⟨hour, 0, 0, 0, mark ≠ 0⟩
  if !marked && isFraction mark then
    let (micro, tail) ← readFraction? b p stop
    return ⟨hour, 0, 0, micro, tail⟩
  let p := if marked then p else p - 1
  let minute ← b.digits? p 2
  let mark := b.at (p + 2)
  let p := p + 3
  if stop ≤ p then return ⟨hour, minute, 0, 0, mark ≠ 0⟩
  if isFraction mark then
    let (micro, tail) ← readFraction? b p stop
    return ⟨hour, minute, 0, micro, tail⟩
  if marked && mark ≠ ':'.toNat then none
  let p := if marked then p else p - 1
  let second ← b.digits? p 2
  let mark := b.at (p + 2)
  let p := p + 3
  if stop ≤ p then return ⟨hour, minute, second, 0, mark ≠ 0⟩
  if isFraction mark then
    let (micro, tail) ← readFraction? b p stop
    return ⟨hour, minute, second, micro, tail⟩
  if marked && mark ≠ ':'.toNat then none
  let p := if marked then p else p - 1
  let (micro, tail) ← readFraction? b p stop
  return ⟨hour, minute, second, micro, tail⟩

/-- The position of the first sign or `Z`, or the end. -/
def zonePosition (b : Bytes) : Nat :=
  ((List.range b.size).find? fun i => b.isAt i '+' || b.isAt i '-' || b.isAt i 'Z').getD b.size

/-- Reads the parts of a time of day and its distance from universal time. A distance of less than a
second counts as none. -/
def readTimeParts? (b : Bytes) : Option (ClockParts × Option Offset) := do
  let zone := zonePosition b
  let clock ← readClock? b 0 zone
  if zone = b.size then
    if clock.tail then none else some (clock, none)
  else if b.isAt zone 'Z' then
    if b.at (zone + 1) ≠ 0 then none else some (clock, some 0)
  else
    let distance ← readClock? b (zone + 1) b.size
    if distance.tail then none
    else
      let seconds := (distance.hour * 60 + distance.minute) * 60 + distance.second
      let micros : Int := if seconds = 0 then 0 else seconds * 1000000 + distance.micro
      some (clock, some (if b.isAt zone '-' then -micros else micros))

/-- A distance from universal time, which must be less than a day. -/
def makeOffset : Option Offset → Except Fault (Option Offset)
  | none => .ok none
  | some o => if o.natAbs < microsPerDay then .ok (some o) else .error (.offsetRange o)

/-- Reads a time of day; a leading `T` is skipped. -/
def readTime (s : String) : Except Fault Time := do
  let b := Bytes.ofString s
  let b := if b.isAt 0 'T' then b.from 1 else b
  match readTimeParts? b with
  | none => throw .malformed
  | some (parts, offset) =>
    let offset ← makeOffset offset
    let clock ← makeClock parts.hour parts.minute parts.second parts.micro
    return ⟨clock, offset⟩

/-! ## Moments -/

/-- The number of bytes before the character that separates date and time. -/
def dateLength (b : Bytes) : Option Nat :=
  if b.size = 7 then some 7
  else if b.isAt 4 '-' then
    if b.isAt 5 'W' then
      if b.size > 8 && b.isAt 8 '-' then
        if b.size = 9 then none
        else if b.size > 10 && isDigitByte (b.at 10) then some 8
        else some 10
      else some 8
    else some 10
  else if b.isAt 4 'W' then
    let stop := 7 + b.digitRun 7
    if stop < 9 then some stop
    else if stop % 2 = 0 then some 7
    else some 8
  else some 8

/-- The number of bytes of the character that starts with a byte. -/
def characterLength (first : Nat) : Nat :=
  if first < 128 then 1 else if first / 16 = 14 then 3 else if first / 16 = 15 then 4 else 2

/-- Reads a moment. -/
def readMoment (s : String) : Except Fault DateTime := do
  let b := Bytes.ofString s
  if b.size < 7 then throw .malformed
  match dateLength b with
  | none => throw .malformed
  | some length =>
    match readDateParts? b length with
    | none => throw .malformed
    | some (year, month, day) =>
      if b.size ≤ length then
        return ⟨← makeDate year month day, default, none⟩
      match readTimeParts? (b.from (length + characterLength (b.at length))) with
      | none => throw .malformed
      | some (parts, offset) =>
        let offset ← makeOffset offset
        let date ← makeDate year month day
        let clock ← makeClock parts.hour parts.minute parts.second parts.micro
        return ⟨date, clock, offset⟩

end RelGraph.Calendar
