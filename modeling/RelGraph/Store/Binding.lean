import RelGraph.Conversion
import RelGraph.Store.Cell
import RelGraph.Value.Json
import RelGraph.Value.Unpacked
import RelGraph.Shape
/-!
Binding: how values become the parameters of statements and cells become values again. A value is
first written as its type asks for, which may refuse it before the statement is sent; then it is
turned into a cell, which may refuse it when the statement runs.
-/
namespace RelGraph.Store

/-- Why a statement has no result: a parameter was refused before the statement was sent, the
statement was refused since the data does not allow it, it cannot be run at all, or a value is
beyond what can be handled. -/
inductive Refusal
  | unsent (message : String)
  | refused (message : String)
  | unworkable (message : String)
  | mishap (m : Mishap)
deriving DecidableEq, Repr

namespace Refusal

/-- Whether the statement was sent. -/
def wasSent : Refusal → Bool
  | unsent _ => false
  | _ => true

/-- Whether the refusal is the database's own, after which a write is undone. -/
def isOwn : Refusal → Bool
  | mishap _ => false
  | _ => true

/-- The failure that a refusal is for callers who work on a table. -/
def failure (table : String) : Refusal → Failure
  | unsent message | refused message | unworkable message =>
    .fault (.statementFailed table message)
  | mishap m => .mishap m

end Refusal

namespace Binding

/-- A moment as it is stored; the distance from universal time is left out. -/
def momentText (m : DateTime) : String :=
  Calendar.dateText m.date ++ " " ++ Calendar.clockText m.clock ++
    (if m.clock.micro = 0 then ".000000" else "")

/-- A time of day as it is stored. -/
def clockText (t : TimeOfDay) : String :=
  Calendar.clockText t ++ (if t.micro = 0 then ".000000" else "")

/-- A truth value as a number. -/
def writeTruth (v : Value) : Except String Value :=
  match Shape.unfitKey? v with
  | some m => .error m.reason
  | none =>
    if v.sameScalar (.bool true) then .ok (.int 1)
    else if v.sameScalar (.bool false) then .ok (.int 0)
    else match v with
      | .int _ => .error ("Value " ++ v.literal ++ " is not None, True, or False.")
      | v => .error ("Not a boolean value: " ++ v.literal)

/-- A name of a choice in a message, cut after eleven characters. -/
def cutName (s : String) : String :=
  let cs := s.toList
  if cs.length > 11 then String.ofList (cs.take 11) ++ ".." else s

/-- The names of a choice in a message: at most four, the last one among them. -/
def shownNames (names : List String) : String :=
  if names.isEmpty then "None"
  else if names.length ≤ 4 then String.intercalate ", " (names.map cutName)
  else String.intercalate ", " ((names.take 3).map cutName) ++ ", ..., " ++
    cutName (names.getLast?.getD "")

/-- A value of a choice. Texts are written as they are, whether or not they are listed. -/
def writeChoice (label : String) (stored : List String) (v : Value) : Except String Value :=
  match v, Shape.unfitKey? v with
  | .text s, _ => .ok (.text s)
  | _, some m => .error m.reason
  | v, none => .error (s!"'{v.display}' is not among the defined enum values. " ++
      s!"Enum name: {label}. Possible values: {shownNames stored}")

/-- A value as a double. -/
def writeDouble (v : Value) : Except String Value :=
  match Conversion.floatOf v with
  | .ok x => .ok (.float x)
  | .error m => .error m.reason

/-- A value as a parameter of a type; a null is written like other values by types that have a form
of their own for it. -/
def write (t : ColumnType) (v : Value) : Except String Value :=
  match t.bare, v with
  | .json, v =>
    match Json.write v with
    | .ok s => .ok (.text s)
    | .error part => .error s!"Object of type {part.kindName} is not JSON serializable"
  | _, .null => .ok .null
  | .interval, v =>
    .error s!"unsupported operand type(s) for +: 'datetime.datetime' and '{v.fullKindName}'"
  | .pickle, v => .ok (.bytes v.packed)
  | .choice label stored, v => writeChoice label stored v
  | .boolean, v => writeTruth v
  | .float, v | .numeric _, v => writeDouble v
  | .date, .date d => .ok (.text (Calendar.dateText d))
  | .date, .moment m => .ok (.text (Calendar.dateText m.date))
  | .date, _ => .error "SQLite Date type only accepts Python date objects as input."
  | .moment _, .moment m => .ok (.text (momentText m))
  | .moment _, .date d => .ok (.text (Calendar.dateText d ++ " 00:00:00.000000"))
  | .moment _, _ =>
    .error "SQLite DateTime type only accepts Python datetime and date objects as input."
  | .time, .time t => .ok (.text (clockText t.clock))
  | .time, _ => .error "SQLite Time type only accepts Python time objects as input."
  | .uuid _, .uuid u => .ok (.text u.hex)
  | .uuid _, v => .error s!"'{v.fullKindName}' object has no attribute 'hex'"
  | .binary _, .bytes data => .ok (.bytes data)
  | .binary _, v =>
    .error s!"memoryview: a bytes-like object is required, not '{v.fullKindName}'"
  | _, v => .ok v

/-- A written parameter as a cell, by its position among the parameters. -/
def cell (position : Nat) (v : Value) : Except Refusal Cell :=
  match v with
  | .null => .ok .null
  | .bool b => .ok (.integer (if b then 1 else 0))
  | .int n =>
    if Cell.fits n then .ok (.integer n)
    else .error (.mishap (.tooLarge "Python int too large to convert to SQLite INTEGER"))
  | .float x => .ok (Cell.ofReal x)
  | .text s => .ok (.text s)
  | .bytes data => .ok (.blob data)
  | .date d => .ok (.text (Calendar.dateText d))
  | .moment m => .ok (.text (Calendar.momentTextWith ' ' m))
  | v =>
    .error (.refused
      s!"Error binding parameter {position}: type '{v.fullKindName}' is not supported")

/-- All parameters as they are sent. -/
def writeAll (parameters : List (Value × ColumnType)) : Except Refusal (List Value) :=
  parameters.mapM fun (v, t) =>
    match write t v with
    | .ok v => .ok v
    | .error message => .error (.unsent message)

/-- The cells of parameters from a position on. -/
def cellsFrom : Nat → List Value → Except Refusal (List Cell)
  | _, [] => .ok []
  | position, v :: rest => do
    let c ← cell position v
    let rest ← cellsFrom (position + 1) rest
    return c :: rest

/-- The cells of the parameters of a statement. Between writing them and turning them into cells the
statement is read, which may refuse it. -/
def bind (reading : Except Refusal Unit) (parameters : List (Value × ColumnType)) :
    Except Refusal (List Cell) := do
  let written ← writeAll parameters
  reading
  cellsFrom 1 written

/-- The cell of one parameter that the statement is known to accept. -/
def accepted (t : ColumnType) (v : Value) : Cell :=
  match write t v with
  | .ok v => (cell 1 v).toOption.getD .null
  | .error _ => .null

/-- The value of a cell without a type. -/
def plain : Cell → Value
  | .null => .null
  | .integer n => .int n
  | .real x => .float x
  | .text s => .text s
  | .blob data => .bytes data

/-- The double of a numeric cell. -/
def double? : Cell → Option Binary64
  | .integer n => some (Binary64.ofInt n)
  | .real x => some x
  | _ => none

/-- Turns what was read into the value that it stands for. -/
def readAs {α : Type} (make : α → Value) (read : Conversion.Converted α) : Except Refusal Value :=
  match read with
  | .ok v => .ok (make v)
  | .error m => .error (.mishap m)

/-- Why a cell that is no text is no date, moment or time. -/
def noCalendarText : Refusal := .mishap (.badKind "fromisoformat: argument must be str")

/-- The value that a result column of a type has for a cell. -/
def result (t : ColumnType) (c : Cell) : Except Refusal Value :=
  match t.bare, c with
  | _, .null => .ok .null
  | .boolean, c => .ok (.bool (plain c).truthy)
  | .date, .text s => readAs Value.date (Conversion.dateOfText s)
  | .moment _, .text s => readAs Value.moment (Conversion.momentOfText s)
  | .time, .text s => readAs Value.time (Conversion.timeOfText s)
  | .date, _ | .moment _, _ | .time, _ => .error noCalendarText
  | .uuid _, .text s => readAs Value.uuid (Conversion.uuidOfText s)
  | .uuid _, .blob _ => .error (.mishap (.badKind "a bytes-like object is required, not 'str'"))
  | .uuid _, c => .error (.mishap (.attributeMissing (plain c).fullKindName "replace"))
  | .json, .text s =>
    match Json.read s with
    | .ok v => .ok v
    | .error (.wrong reason left) =>
      .error (.mishap (.jsonMalformed ((Json.Fault.wrong reason left).message s)))
    | .error e => .error (.mishap (.badValue (e.message s)))
  | .numeric scale, c =>
    match double? c with
    | some x => .ok (((Decimal.read? (x.fixedText (scale.getD 10))).map Value.decimal).getD .null)
    | none => .error (.mishap (.badKind s!"must be real number, not {(plain c).fullKindName}"))
  | .pickle, .blob data => .ok ((Value.unpacked? data).getD .null)
  | .pickle, c =>
    .error (.mishap (.badKind s!"a bytes-like object is required, not '{(plain c).fullKindName}'"))
  | _, c => .ok (plain c)

end Binding
end RelGraph.Store
