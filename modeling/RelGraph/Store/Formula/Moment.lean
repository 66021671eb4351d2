import RelGraph.Store.Formula.Number
/-!
Moments as formulas reckon with them: a count of milliseconds from noon of the first day of the
Julian calendar, a date and a clock, of which some are known at a time. A moment is read from a text
or a number and then changed by modifiers one after the other; what cannot be read, and what leaves
the years that can be counted, is no moment.
-/
namespace RelGraph.Store.Formula

/-- A moment, as far as it is known. The clock's seconds are counted in billionths. A bare number
may yet turn out to be a day, or seconds of an epoch. -/
structure Moment where
  julian : Option Int := none
  date : Option (Int × Int × Int) := none
  clock : Option (Int × Int × Int) := none
  zone : Int := 0
  bare : Option Binary64 := none
deriving DecidableEq, Repr, Inhabited

namespace Moment

/-- The milliseconds of a day. -/
def dayLength : Int := 86400000

/-- The count of the first moment of 1970. -/
def epoch : Int := 210866760000000

/-- Whether a count lies within the years that can be counted. -/
def isCounted (count : Int) : Bool := 0 ≤ count && count ≤ 464269060799999

/-- The count of noon on a date, by the calendar that is in use now. -/
def countOfDate (year month day : Int) : Int :=
  let (year, month) := if month ≤ 2 then (year - 1, month + 12) else (year, month)
  let century := Int.tdiv year 100
  let leaps := 2 - century + Int.tdiv century 4
  let days := Int.tdiv (36525 * (year + 4716)) 100 + Int.tdiv (306001 * (month + 1)) 10000
  (2 * (days + day + leaps) - 3049) * 43200000

/-- The date of a count. -/
def dateOfCount (count : Int) : Int × Int × Int :=
  let z := Int.tdiv (count + 43200000) dayLength
  let a := Int.tdiv (100 * z - 186721625) 3652425
  let a := z + 1 + a - Int.tdiv a 4
  let b := a + 1524
  let c := Int.tdiv (100 * b - 12210) 36525
  let d := Int.tdiv (36525 * (c % 32768)) 100
  let e := Int.tdiv (10000 * (b - d)) 306001
  let day := b - d - Int.tdiv (306001 * e) 10000
  let month := if e < 14 then e - 1 else e - 13
  (if month > 2 then c - 4716 else c - 4715, month, day)

/-- The clock of a count. -/
def clockOfCount (count : Int) : Int × Int × Int :=
  let inDay := (count + 43200000) % dayLength
  (inDay / 3600000, inDay / 60000 % 60, inDay % 60000 * 1000000)

/-- The milliseconds of a clock. -/
def clockLength (clock : Int × Int × Int) : Int :=
  clock.1 * 3600000 + clock.2.1 * 60000 + (clock.2.2 + 500000) / 1000000

/-- The moment with its count. -/
def counted (m : Moment) : Option Moment :=
  match m.julian with
  | some _ => some m
  | none =>
    let (year, month, day) := m.date.getD (2000, 1, 1)
    if year < -4713 ∨ year > 9999 ∨ m.bare.isSome then none
    else
      let count := countOfDate year month day
      match m.clock with
      | none => some { m with julian := some count }
      | some clock =>
        let count := count + clockLength clock
        if m.zone = 0 then some { m with julian := some count }
        else some { julian := some (count - m.zone * 60000) }

/-- The count of a moment. -/
def count (m : Moment) : Option Int := m.counted.bind (·.julian)

/-- The moment with its date. -/
def dated (m : Moment) : Option Moment :=
  match m.date, m.julian with
  | some _, _ => some m
  | none, none => some { m with date := some (2000, 1, 1) }
  | none, some count => if isCounted count then some { m with date := some (dateOfCount count) }
    else none

/-- The moment with its clock. -/
def timed (m : Moment) : Option Moment :=
  match m.clock with
  | some _ => some m
  | none => do
    let m ← m.counted
    return { m with clock := m.julian.map clockOfCount, bare := none }

/-- The moment with its date and its clock. -/
def complete (m : Moment) : Option Moment := m.dated.bind timed

/-- A moment of which only the count is known. -/
def ofCount (count : Int) : Moment := { julian := some count }

/-- The count of a fraction of a day or a second, rounded. -/
def rounded (x : Binary64) (unit shift : Int) : Option Int :=
  x.ratio?.map fun (n, d) => Int.tdiv (2 * (n * unit + shift * d) + d) (2 * d)

/-- A number that counts days, as far as it can, and may yet turn out to count seconds. -/
def ofNumber (x : Binary64) : Moment :=
  let inRange := (Binary64.compareRatio? x (0, 1)).any (·.isGE) &&
    (Binary64.compareRatio? x (10746969, 2)).any (·.isLT)
  { julian := if inRange then rounded x dayLength 0 else none, bare := some x }

/-! ## Reading -/

/-- The number that digits spell at the beginning, when it lies between bounds; and what follows
it. -/
def digits? (count : Nat) (least greatest : Nat) (cs : List Char) : Option (Int × List Char) :=
  let digits := cs.take count
  let n : Nat := Numeral.ofDigitChars digits
  if digits.length = count ∧ digits.all Char.isDigit ∧ least ≤ n ∧ n ≤ greatest then
    some (n, cs.drop count)
  else none

/-- What follows a mark. -/
def after? (mark : Char) : List Char → Option (List Char)
  | c :: rest => if c = mark then some rest else none
  | [] => none

/-- The minutes of a zone, behind blanks and with nothing but blanks behind it. -/
def readZone (cs : List Char) : Option Int :=
  let ended := fun (minutes : Int) (rest : List Char) =>
    if rest.all Numeral.isPad then some minutes else none
  match cs.dropWhile Numeral.isPad with
  | [] => some 0
  | c :: rest =>
    if c = 'Z' ∨ c = 'z' then ended 0 rest
    else if c = '+' ∨ c = '-' then do
      let (hours, rest) ← digits? 2 0 14 rest
      let (minutes, rest) ← digits? 2 0 59 (← after? ':' rest)
      let total := hours * 60 + minutes
      ended (if c = '-' then -total else total) rest
    else none

/-- The billionths that digits behind a point spell. -/
def billionths (digits : List Char) : Int :=
  Numeral.ofDigitChars ((digits ++ List.replicate 9 '0').take 9)

/-- The seconds of a clock with their fraction, if there are any, and what follows them. -/
def readSeconds (cs : List Char) : Option (Int × List Char) :=
  match cs with
  | ':' :: rest => do
    let (seconds, rest) ← digits? 2 0 59 rest
    match rest with
    | '.' :: d :: more =>
      if d.isDigit then
        let fraction := (d :: more).takeWhile Char.isDigit
        return (seconds * 1000000000 + billionths fraction, (d :: more).dropWhile Char.isDigit)
      else return (seconds * 1000000000, rest)
    | rest => return (seconds * 1000000000, rest)
  | rest => some (0, rest)

/-- Reads a clock, perhaps with a zone. -/
def readClock (cs : List Char) : Option Moment := do
  let (hour, rest) ← digits? 2 0 24 cs
  let (minute, rest) ← digits? 2 0 59 (← after? ':' rest)
  let (seconds, rest) ← readSeconds rest
  return { clock := some (hour, minute, seconds), zone := ← readZone rest }

/-- Reads a date, perhaps with a clock. -/
def readDate (cs : List Char) : Option Moment := do
  let (negative, cs) := match cs with
    | '-' :: rest => (true, rest)
    | cs => (false, cs)
  let (year, rest) ← digits? 4 0 9999 cs
  let (month, rest) ← digits? 2 1 12 (← after? '-' rest)
  let (day, rest) ← digits? 2 1 31 (← after? '-' rest)
  let date := (if negative then -year else year, month, day)
  let rest := rest.dropWhile fun c => Numeral.isPad c || c = 'T'
  match readClock rest with
  | some m =>
    let m := { m with date := some date }
    if m.zone = 0 then return m else m.counted
  | none => if rest.isEmpty then return { date := some date } else none

/-- The present. A store has no clock of its own: all its statements run at one and the same
moment. -/
def present : Moment := { date := some (2025, 1, 1), clock := some (0, 0, 0) }

/-- Reads a moment: a date, a clock, the present, or a number. -/
def read (s : String) : Option Moment :=
  let cs := s.toList
  (readDate cs).orElse fun _ => (readClock cs).orElse fun _ =>
    if s.map Char.toLower = "now" then some present
    else
      let w := WrittenNumber.read cs
      if w.isNumber then some (ofNumber w.real) else none

/-! ## Modifiers -/

/-- The lengths that can be added: their names, the bounds of how many, and their milliseconds. -/
def lengths : List (String × Int × Int) :=
  [("second", 464270000000000, 1000), ("minute", 7737900000000, 60000),
    ("hour", 128970000000, 3600000), ("day", 5373485, 86400000),
    ("month", 176546, 2592000000), ("year", 14713, 31536000000)]

/-- The moment some whole months later, with its date and its clock but without its count. -/
def laterByMonths (m : Moment) (months : Int) : Option Moment := do
  let m ← m.complete
  let (year, month, day) ← m.date
  let month := month + months
  let years := if month > 0 then Int.tdiv (month - 1) 12 else Int.tdiv (month - 12) 12
  return { m with date := some (year + years, month - years * 12, day), julian := none }

/-- The moment some whole years later, with its date and its clock but without its count. -/
def laterByYears (m : Moment) (years : Int) : Option Moment := do
  let m ← m.complete
  let (year, month, day) ← m.date
  return { m with date := some (year + years, month, day), julian := none }

/-- The moment later by a number of lengths. Whole months and years move the date, and what is left
of them counts as thirty days and as three hundred and sixty-five. -/
def later (m : Moment) (amount : Binary64) (unit : String) (length : Int) : Option Moment := do
  let m ← m.counted
  let (n, d) ← amount.ratio?
  let whole := Int.tdiv n d
  let (m, n) ←
    if unit = "month" then do pure (← m.laterByMonths whole, n - whole * d)
    else if unit = "year" then do pure (← m.laterByYears whole, n - whole * d)
    else pure (m, n)
  let count ← m.count
  let half : Int := if amount.ratio?.any (·.1 < 0) then -(d : Int) else d
  return ofCount (count + Int.tdiv (2 * n * length + half) (2 * d))

/-- The moment later by a length of time that is written as a number and a name. -/
def shiftedByName (m : Moment) (amount : Binary64) (rest : List Char) : Option Moment :=
  let name := (String.ofList rest).map Char.toLower
  let unit := if name.endsWith "s" then (name.dropEnd 1).toString else name
  if rest.length > 10 ∨ rest.length < 3 then none
  else match lengths.find? (·.1 = unit) with
    | some (unit, bound, length) =>
      let within := (Binary64.compareRatio? amount (bound, 1)).any (·.isLT) &&
        (Binary64.compareRatio? amount (-bound, 1)).any (·.isGT)
      if within then m.later amount unit length else none
    | none => none

/-- The moment later, or earlier, by a clock. -/
def shiftedByClock (m : Moment) (cs : List Char) : Option Moment := do
  let digits := if cs.head?.any Char.isDigit then cs else cs.drop 1
  let inDay ← (← readClock digits).count
  let length := Int.tmod (inDay - 43200000) dayLength
  let count ← m.count
  return ofCount (count + if cs.head? = some '-' then -length else length)

/-- The moment shifted by what a modifier with a number says. -/
def shifted (m : Moment) (cs : List Char) : Option Moment :=
  let number := cs.take 1 ++ (cs.drop 1).takeWhile fun c => c ≠ ':' && !Numeral.isPad c
  let rest := cs.drop number.length
  let w := WrittenNumber.read number
  if !w.isNumber then none
  else if rest.head? = some ':' then m.shiftedByClock cs
  else m.shiftedByName w.real (rest.dropWhile Numeral.isPad)

/-- The next day of the week from a moment on, the moment's own included. -/
def toWeekday (m : Moment) (cs : List Char) : Option Moment := do
  let w := WrittenNumber.read cs
  let n ← if w.isNumber then w.real.whole? else none
  if n < 0 ∨ n > 6 then none
  else
    let m ← m.complete
    let count ← { m with zone := 0, julian := none }.count
    let today := (count + 129600000) / dayLength % 7
    let today := if today > n then today - 7 else today
    return ofCount (count + (n - today) * dayLength)

/-- The first moment of the day, the month or the year. -/
def toStart (m : Moment) (unit : String) : Option Moment := do
  if m.julian.isNone && m.date.isNone && m.clock.isNone then none
  else
    let m ← m.dated
    let (year, month, day) ← m.date
    let start := fun (date : Int × Int × Int) =>
      some ({ date := some date, clock := some (0, 0, 0) } : Moment)
    match unit with
    | "day" => start (year, month, day)
    | "month" => start (year, month, 1)
    | "year" => start (year, 1, 1)
    | _ => none

/-- A bare number as seconds of the epoch. -/
def ofEpoch (x : Binary64) : Option Moment := do
  let (n, d) ← x.ratio?
  let scaled := n * 1000 + epoch * d
  if scaled < 0 ∨ scaled ≥ 464269060800000 * d then none
  else return ofCount (← rounded x 1000 epoch)

/-- A bare number as seconds of the epoch unless it counts days. -/
def guessed (m : Moment) : Option Moment :=
  match m.bare, m.julian with
  | some x, none =>
    let within := (Binary64.compareRatio? x (-210866760000, 1)).any (·.isGE) &&
      (Binary64.compareRatio? x (253402300799, 1)).any (·.isLE)
    if within then ofEpoch x else some m
  | _, _ => some { m with bare := none }

/-- The moment as a modifier changes it. Some modifiers have to be the first. The local time is that
of the universe. -/
def modified (isFirst : Bool) (m : Moment) (modifier : String) : Option Moment :=
  let name := modifier.map Char.toLower
  let cs := name.toList
  match cs with
  | [] => none
  | c :: _ =>
    if name = "auto" then if isFirst then m.guessed else none
    else if name = "julianday" then
      if isFirst && m.julian.isSome && m.bare.isSome then some { m with bare := none } else none
    else if name = "unixepoch" then if isFirst then m.bare.bind ofEpoch else none
    else if name = "localtime" ∨ name = "utc" then m.count.map ofCount
    else if "weekday ".toList.isPrefixOf cs then m.toWeekday (cs.drop 8)
    else if "start of ".toList.isPrefixOf cs then m.toStart (String.ofList (cs.drop 9))
    else if c = '+' ∨ c = '-' ∨ c.isDigit then m.shifted cs
    else none

/-- The moment as modifiers change it one after the other. -/
def modifiedBy (m : Moment) : Bool → List Cell → Option Moment
  | _, [] => some m
  | isFirst, c :: rest => do (← m.modified isFirst (← c.text?)).modifiedBy false rest

/-- The moment that the arguments of a function give; without any it is the present. -/
def ofArguments (args : List Cell) : Option Moment := do
  let m ← match args with
    | [] => pure present
    | .integer n :: rest => (ofNumber (Binary64.ofInt n)).modifiedBy true rest
    | .real x :: rest => (ofNumber x).modifiedBy true rest
    | c :: rest => (← read (← c.text?)).modifiedBy true rest
  let m ← m.counted
  if m.julian.any isCounted then return m else none

/-- Whether the arguments of a function ask for the present, or for local time. -/
def asksForPresent (args : List Cell) : Bool :=
  let names := args.map fun c => (c.text?.map (·.map Char.toLower)).getD ""
  args.isEmpty || names.head? = some "now" ||
    (names.drop 1).any fun name => name = "localtime" || name = "utc"

/-! ## Writing -/

/-- Digits of a fixed count. -/
def padded (count : Nat) (n : Int) : String :=
  let digits := Nat.toDigits 10 n.natAbs
  let count := if n < 0 then count - 1 else count
  (if n < 0 then "-" else "") ++
    String.ofList (List.replicate (count - digits.length) '0' ++ digits)

/-- A year; one before the first has a sign before its digits. -/
def yearText (year : Int) : String :=
  if year < 0 then "-" ++ padded 4 (-year) else padded 4 year

/-- The date of a moment as text. -/
def dateText (m : Moment) : Option String := do
  let (year, month, day) ← (← m.dated).date
  return yearText year ++ "-" ++ padded 2 month ++ "-" ++ padded 2 day

/-- The clock of a moment as text, to the second. -/
def clockText (m : Moment) : Option String := do
  let (hour, minute, second) ← (← m.timed).clock
  return padded 2 hour ++ ":" ++ padded 2 minute ++ ":" ++ padded 2 (second / 1000000000)

/-- The day of the year, from zero. -/
def dayOfYear (count : Int) (year : Int) (clock : Int × Int × Int) : Int :=
  Int.tdiv (count - (countOfDate year 1 1 + clockLength clock) + 43200000) dayLength

/-- The seconds of a clock with three places; they stay below sixty. -/
def secondsText (second : Int) : String :=
  let thousandths := (min second 59999000000 + 500000) / 1000000
  padded 2 (thousandths / 1000) ++ "." ++ padded 3 (thousandths % 1000)

/-- What a letter of a layout stands for in a moment. -/
def layoutText (real : Binary64 → String) (count : Int) (date clock : Int × Int × Int) :
    Char → Option String
  | 'd' => some (padded 2 date.2.2)
  | 'f' => some (secondsText clock.2.2)
  | 'H' => some (padded 2 clock.1)
  | 'j' => some (padded 3 (dayOfYear count date.1 clock + 1))
  | 'J' => some (real (Binary64.ofRatio false count.toNat 86400000))
  | 'm' => some (padded 2 date.2.1)
  | 'M' => some (padded 2 clock.2.1)
  | 's' => some (toString (Int.tdiv count 1000 - 210866760000))
  | 'S' => some (padded 2 (clock.2.2 / 1000000000))
  | 'w' => some (toString ((count + 129600000) / dayLength % 7))
  | 'W' =>
    let sinceMonday := (count + 43200000) / dayLength % 7
    some (padded 2 ((dayOfYear count date.1 clock + 7 - sinceMonday) / 7))
  | 'Y' => some (padded 4 date.1)
  | '%' => some "%"
  | _ => none

/-- Fills a layout. -/
def fill (letter : Char → Option String) : List Char → Option String
  | [] => some ""
  | '%' :: c :: rest => do return (← letter c) ++ (← fill letter rest)
  | '%' :: [] => none
  | c :: rest => do return String.singleton c ++ (← fill letter rest)

/-- The moment in a layout. -/
def inLayout (real : Binary64 → String) (layout : String) (m : Moment) : Option String := do
  let m ← (← m.counted).complete
  fill (layoutText real (← m.julian) (← m.date) (← m.clock)) layout.toList

end Moment
end RelGraph.Store.Formula
