import RelGraph.Value
import RelGraph.Calendar.Iso
import RelGraph.Text.Quoted
/-!
How values are shown in messages. `display` shows a value as plain text; `literal` shows it so that
its kind can be told, with texts in quotes; `preview` is the literal form with long texts, long
lists and deep nesting cut.
-/
namespace RelGraph

/-- A span of time in days, seconds and microseconds, as messages show it. -/
def Calendar.spanLiteral (micros : Int) : String :=
  let days := Int.fdiv micros 86400000000
  let rest := Int.fmod micros 86400000000
  let seconds := rest / 1000000
  let part := rest % 1000000
  let parts := (if days = 0 then [] else [s!"days={days}"]) ++
    (if seconds = 0 then [] else [s!"seconds={seconds}"]) ++
    (if part = 0 then [] else [s!"microseconds={part}"])
  "datetime.timedelta(" ++ (if parts.isEmpty then "0" else String.intercalate ", " parts) ++ ")"

/-- A distance from universal time, as messages show it. -/
def Calendar.offsetLiteral (o : Offset) : String :=
  if o = 0 then "datetime.timezone.utc" else "datetime.timezone(" ++ spanLiteral o ++ ")"

/-- The parts of a time of day that are shown: seconds and microseconds only where needed. -/
def Calendar.clockParts (t : TimeOfDay) : List String :=
  [toString t.hour, toString t.minute] ++
    (if t.second = 0 ∧ t.micro = 0 then [] else [toString t.second]) ++
    (if t.micro = 0 then [] else [toString t.micro])

/-- The named part for a distance from universal time. -/
def Calendar.offsetParts (o : Option Offset) : List String :=
  match o with
  | none => []
  | some o => ["tzinfo=" ++ offsetLiteral o]

/-- What is wrong with a written date, time or moment. -/
def Calendar.Fault.message (s : String) : Calendar.Fault → String
  | .malformed => "Invalid isoformat string: " ++ Text.quoted s
  | .yearRange year => s!"year {year} is out of range"
  | .monthRange => "month must be in 1..12"
  | .dayRange => "day is out of range for month"
  | .hourRange => "hour must be in 0..23"
  | .minuteRange => "minute must be in 0..59"
  | .secondRange => "second must be in 0..59"
  | .microRange => "microsecond must be in 0..999999"
  | .offsetRange offset =>
    "offset must be a timedelta strictly between -timedelta(hours=24) and timedelta(hours=24), " ++
      "not " ++ spanLiteral offset ++ "."

/-- What is wrong with a whole number in some base; a long numeral is shown cut. -/
def Numeral.Fault.message (base : Nat) (s : String) : Numeral.Fault → String
  | .malformed =>
    s!"invalid literal for int() with base {base}: " ++
      String.ofList ((Text.quoted s).toList.take 200)
  | .tooLong digits =>
    s!"Exceeds the limit (4300 digits) for integer string conversion: value has {digits} " ++
      "digits; use sys.set_int_max_str_digits() to increase the limit"

/-- What is wrong with a written identifier. -/
def Uuid.Fault.message : Uuid.Fault → String
  | .malformed => "badly formed hexadecimal UUID string"
  | .notHexadecimal digits => Numeral.Fault.message 16 digits .malformed
  | .outOfRange => "int is out of range (need a 128-bit value)"

namespace Value

/-- The name of a value's kind. -/
def kindName : Value → String
  | null => "NoneType"
  | bool _ => "bool"
  | int _ => "int"
  | float _ => "float"
  | decimal _ => "Decimal"
  | text _ => "str"
  | bytes _ => "bytes"
  | date _ => "date"
  | moment _ => "datetime"
  | time _ => "time"
  | uuid _ => "UUID"
  | list _ => "list"
  | tuple _ => "tuple"
  | object _ => "dict"

/-- The name of a value's kind with the name of the family it belongs to. -/
def fullKindName : Value → String
  | decimal _ => "decimal.Decimal"
  | date _ => "datetime.date"
  | moment _ => "datetime.datetime"
  | time _ => "datetime.time"
  | v => v.kindName

/-- The literal form of a value that holds no other values. -/
def scalarLiteral : Value → String
  | null => "None"
  | bool b => if b then "True" else "False"
  | int n => toString n
  | float x => x.text
  | decimal d => "Decimal('" ++ d.text ++ "')"
  | text s => Text.quoted s
  | bytes data => Text.quotedBytes data
  | date d => s!"datetime.date({d.year}, {d.month}, {d.day})"
  | moment m =>
    let parts := [toString m.date.year, toString m.date.month, toString m.date.day] ++
      Calendar.clockParts m.clock ++ Calendar.offsetParts m.offset
    "datetime.datetime(" ++ String.intercalate ", " parts ++ ")"
  | time t =>
    "datetime.time(" ++
      String.intercalate ", " (Calendar.clockParts t.clock ++ Calendar.offsetParts t.offset) ++ ")"
  | uuid u => "UUID('" ++ u.text ++ "')"
  | _ => ""

mutual

/-- The literal form. -/
def literal : Value → String
  | list items => "[" ++ String.intercalate ", " (itemLiterals items) ++ "]"
  | tuple items => match items with
    | [item] => "(" ++ literal item ++ ",)"
    | items => "(" ++ String.intercalate ", " (itemLiterals items) ++ ")"
  | object members => "\x7b" ++ String.intercalate ", " (memberLiterals members) ++ "\x7d"
  | v => scalarLiteral v

/-- The literal forms of items. -/
def itemLiterals : List Value → List String
  | [] => []
  | v :: rest => literal v :: itemLiterals rest

/-- The literal forms of members. -/
def memberLiterals : List (String × Value) → List String
  | [] => []
  | (k, v) :: rest => (Text.quoted k ++ ": " ++ literal v) :: memberLiterals rest

end

/-- The plain form: texts as they are, dates and identifiers in their written form. -/
def display : Value → String
  | text s => s
  | decimal d => d.text
  | date d => Calendar.dateText d
  | moment m => Calendar.momentTextWith ' ' m
  | time t => Calendar.timeText t
  | uuid u => u.text
  | v => v.literal

/-- A text of at most 240 characters: the middle of a longer one is left out. -/
def cutText (s : String) : String :=
  let cs := s.toList
  if cs.length ≤ 240 then s
  else String.ofList (cs.take 118 ++ "...".toList ++ cs.drop (cs.length - 119))

/-- A list of at most ten items: the middle of a longer one is left out. -/
def cutItems (items : List String) : List String :=
  if items.length ≤ 10 then items
  else items.take 5 ++ ["..."] ++ items.drop (items.length - 4)

/-- The preview of a value that holds no other values. -/
def scalarPreview (v : Value) : String :=
  match v with
  | null | bool _ | float _ => v.literal
  | int _ | text _ | bytes _ => cutText v.literal
  | v => "<" ++ v.kindName ++ " instance>"

mutual

/-- The preview with a number of levels of nesting left. -/
def previewAt (levels : Nat) : Value → String
  | list items =>
    if items.isEmpty then "[]"
    else if levels = 0 then "[...]"
    else "[" ++ String.intercalate ", " (cutItems (itemPreviews (levels - 1) items)) ++ "]"
  | tuple items =>
    if items.isEmpty then "()"
    else if levels = 0 then "(...)"
    else match items with
      | [item] => "(" ++ previewAt (levels - 1) item ++ ",)"
      | items => "(" ++ String.intercalate ", " (cutItems (itemPreviews (levels - 1) items)) ++ ")"
  | object members =>
    if members.isEmpty then "\x7b\x7d"
    else if levels = 0 then "\x7b...\x7d"
    else
      "\x7b" ++ String.intercalate ", " (cutItems (memberPreviews (levels - 1) members)) ++ "\x7d"
  | v => scalarPreview v

/-- The previews of items. -/
def itemPreviews (levels : Nat) : List Value → List String
  | [] => []
  | v :: rest => previewAt levels v :: itemPreviews levels rest

/-- The previews of members. -/
def memberPreviews (levels : Nat) : List (String × Value) → List String
  | [] => []
  | (k, v) :: rest =>
    (cutText (Text.quoted k) ++ ": " ++ previewAt levels v) :: memberPreviews levels rest

end

/-- The literal form, shortened: nesting deeper than two levels is left out. -/
def preview (v : Value) : String := previewAt 2 v

end Value
end RelGraph
