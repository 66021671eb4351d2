import RelGraph.Conversion
import RelGraph.Graphql.Written
/-!
Scalars: how leaf values come in, from request values or from literals, and how they go out. A
lenient scalar also lets in the empty text and texts that start like a placeholder, whatever it
takes otherwise.
-/
namespace RelGraph.Graphql

/-- What a scalar stands for. -/
inductive ScalarRule
  | int
  | float
  | text
  | boolean
  | identifier
  | date
  | moment
  | time
  | bigInteger
  | anything
deriving DecidableEq, Repr, Inhabited

/-- A scalar. -/
structure Scalar where
  rule : ScalarRule
  lenient : Bool := false
deriving DecidableEq, Repr, Inhabited

/-- What a variable of the request was given, before any reading. -/
abbrev Given := String → Option Value

/-- Whether a literal is a variable for which nothing holds. -/
def Literal.isUnset (isSet : String → Bool) : Literal → Bool
  | .variable v => !isSet v
  | _ => false

/-- The whole number that digits spell, with a minus or without. -/
def wholeNumber (digits : String) : Int :=
  let value := fun (cs : List Char) => cs.foldl (fun n c => n * 10 + (c.toNat - '0'.toNat)) 0
  match digits.toList with
  | '-' :: rest => -(value rest : Nat)
  | cs => (value cs : Nat)

/-- The double nearest to the number that digits spell. -/
def doubleOf (digits : String) : Binary64 := (Numeral.float? digits).getD .nan

mutual

/-- The value that a literal spells by itself. A name spells itself; a variable stands for what it
was given, and a member whose variable was given nothing is left out. -/
def Literal.untyped (given : Given) : Literal → Value
  | .null => .null
  | .bool b => .bool b
  | .int digits => .int (wholeNumber digits)
  | .float digits => .float (doubleOf digits)
  | .text s => .text s
  | .name s => .text s
  | .variable v => (given v).getD .null
  | .list items => .list (untypedItems given items)
  | .object members => .object (Members.ofPairs (untypedMembers given members))

/-- The values that items spell. -/
def untypedItems (given : Given) : List Literal → List Value
  | [] => []
  | l :: rest => l.untyped given :: untypedItems given rest

/-- The values that members spell. -/
def untypedMembers (given : Given) : List (String × Literal) → List (String × Value)
  | [] => []
  | (key, l) :: rest =>
    let v := l.untyped given
    let rest := untypedMembers given rest
    if l.isUnset fun name => (given name).isSome then rest else (key, v) :: rest

end

/-- Whether a whole number fits a signed word of 32 bits. -/
def fitsWord (n : Int) : Bool := -Int.pow 2 31 ≤ n && n < Int.pow 2 31

namespace Scalar

/-- The scalars that every schema has, by name. -/
def builtIn : List (String × ScalarRule) := [("Int", .int), ("Float", .float), ("String", .text),
  ("Boolean", .boolean), ("ID", .identifier)]

/-- The scalars that have a rule of their own where a schema defines their name. -/
def provided : List (String × ScalarRule) := [("Date", .date), ("DateTime", .moment),
  ("Time", .time), ("BigInt", .bigInteger), ("JSON", .anything)]

/-- The rule of a scalar by name; other scalars take anything. -/
def ruleOf (name : String) : ScalarRule :=
  (Members.get? (builtIn ++ provided) name).getD .anything

/-- Refuses with a message. -/
def refuse {α : Type} (message : String) : Attempt α := .error (.request message)

/-- The whole number that a number is, if it is one. -/
def whole? : Value → Option Int
  | .int n => some n
  | .float x => x.whole?
  | _ => none

/-- Whether a value is a number that is no truth value, not infinite and no failed computation. -/
def isFiniteNumber : Value → Bool
  | .int _ => true
  | .float x => x.isFinite
  | _ => false

/-- Refuses what is no whole number. -/
def notWhole {α : Type} (shown : String) : Attempt α :=
  refuse ("Int cannot represent non-integer value: " ++ shown)

/-- A whole number within 32 bits. -/
def word (shown : String) (n : Int) : Attempt Value :=
  if fitsWord n then .ok (.int n)
  else refuse ("Int cannot represent non 32-bit signed integer value: " ++ shown)

/-- Refuses what is no number. -/
def notNumeric {α : Type} (shown : String) : Attempt α :=
  refuse ("Float cannot represent non numeric value: " ++ shown)

/-- Refuses what is no text. -/
def notText {α : Type} (shown : String) : Attempt α :=
  refuse ("String cannot represent a non string value: " ++ shown)

/-- Refuses what is no truth value. -/
def notBoolean {α : Type} (shown : String) : Attempt α :=
  refuse ("Boolean cannot represent a non boolean value: " ++ shown)

/-- Refuses a value that names nothing. -/
def notIdentifier {α : Type} (shown : String) : Attempt α :=
  refuse ("ID cannot represent value: " ++ shown)

/-! ## Values that come in -/

/-- Reads a value that has to be a text. -/
def readSpelled (kind : String) (parse : String → Except Mishap Value) (v : Value) :
    Attempt Value :=
  match v with
  | .text s =>
    match parse s with
    | .ok v => .ok v
    | .error _ => refuse (kind ++ " cannot represent value: " ++ v.literal)
  | v => refuse (kind ++ " cannot represent non-string value: " ++ v.literal)

/-- Reads a whole number of any size from what comes to one. -/
def readBig (v : Value) : Attempt Value :=
  let refused := refuse ("BigInt cannot represent value: " ++ v.literal)
  match v with
  | .bool _ => refused
  | v =>
    match Conversion.intOf v with
    | .ok n => .ok (.int n)
    | .error m => if m.isAboutInput then refused else Attempt.mishap m

/-- Reads a value by a rule. -/
def readByRule (rule : ScalarRule) (v : Value) : Attempt Value :=
  match rule with
  | .int =>
    match whole? v with
    | some n => word v.preview n
    | none => notWhole v.preview
  | .float =>
    if isFiniteNumber v then
      match Conversion.floatOf v with
      | .ok x => .ok (.float x)
      | .error m => Attempt.mishap m
    else notNumeric v.preview
  | .text =>
    match v with
    | .text s => .ok (.text s)
    | v => notText v.preview
  | .boolean =>
    match v with
    | .bool b => .ok (.bool b)
    | v => notBoolean v.preview
  | .identifier =>
    match v, whole? v with
    | .text s, _ => .ok (.text s)
    | _, some n => .ok (.text (toString n))
    | v, none => notIdentifier v.preview
  | .date => readSpelled "Date" (fun s => Value.date <$> Conversion.dateOfText s) v
  | .moment => readSpelled "DateTime" (fun s => Value.moment <$> Conversion.momentOfText s) v
  | .time => readSpelled "Time" (fun s => Value.time <$> Conversion.timeOfText s) v
  | .bigInteger => readBig v
  | .anything => .ok v

/-- Reads a literal by a rule: the scalars that every schema has go by its form, all others by the
value that it spells. -/
def readLiteralByRule (rule : ScalarRule) (given : Given) (l : Literal) : Attempt Value :=
  match rule, l with
  | .int, .int digits => word digits (wholeNumber digits)
  | .int, l => notWhole l.written
  | .float, .int digits | .float, .float digits => .ok (.float (doubleOf digits))
  | .float, l => notNumeric l.written
  | .text, .text s => .ok (.text s)
  | .text, l => notText l.written
  | .boolean, .bool b => .ok (.bool b)
  | .boolean, l => notBoolean l.written
  | .identifier, .text s => .ok (.text s)
  | .identifier, .int digits => .ok (.text digits)
  | .identifier, l =>
    refuse ("ID cannot represent a non-string and non-integer value: " ++ l.written)
  | rule, l => readByRule rule (l.untyped given)

/-- Whether a lenient scalar lets a text in as it is. -/
def passes (s : String) : Bool := s.isEmpty || "$_".toList.isPrefixOf s.toList

/-- Reads a value. -/
def readValue (s : Scalar) (v : Value) : Attempt Value :=
  match v with
  | .text t => if s.lenient && passes t then .ok v else readByRule s.rule v
  | v => readByRule s.rule v

/-- Reads a literal. -/
def readLiteral (s : Scalar) (given : Given) (l : Literal) : Attempt Value :=
  match l with
  | .text t =>
    if s.lenient && passes t then .ok (.text t) else readLiteralByRule s.rule given l
  | l => readLiteralByRule s.rule given l

/-! ## Values that go out -/

/-- The text of a date or time as it goes out; a text stands as it is. -/
def spelled : Value → Attempt Value
  | .date d => .ok (.text (Calendar.dateText d))
  | .moment m => .ok (.text (Calendar.momentText m))
  | .time t => .ok (.text (Calendar.timeText t))
  | .text s => .ok (.text s)
  | v => Attempt.mishap (.badKind s!"Cannot serialize {v.kindName} as an ISO string")

/-- Whether a value is of a kind of its own that has a text. -/
def hasOwnText : Value → Bool
  | .decimal _ | .date _ | .moment _ | .time _ | .uuid _ => true
  | _ => false

/-- The number within 32 bits that a value goes out as. -/
def writeWord (v : Value) : Attempt Value :=
  match v with
  | .bool b => .ok (.int (if b then 1 else 0))
  | .int n => word v.preview n
  | .float x =>
    match x.whole? with
    | some n => word v.preview n
    | none => notWhole v.preview
  | .text "" | .bytes _ => notWhole v.preview
  | v =>
    match Conversion.intOf v, Conversion.floatOf v with
    | .ok n, .ok x =>
      if Value.sameScalar (.int n) (.float x) then word v.preview n else notWhole v.preview
    | _, _ => notWhole v.preview

/-- The finite number that a value goes out as. -/
def writeFloat (v : Value) : Attempt Value :=
  match v with
  | .bool b => .ok (.int (if b then 1 else 0))
  | .text "" | .bytes _ => notNumeric v.preview
  | v =>
    match Conversion.floatOf v with
    | .ok x => if x.isFinite then .ok (.float x) else notNumeric v.preview
    | .error m => if m.isAboutInput then notNumeric v.preview else Attempt.mishap m

/-- The text that a value goes out as. -/
def writeText (v : Value) : Attempt Value :=
  match v with
  | .text s => .ok (.text s)
  | .bool b => .ok (.text (if b then "true" else "false"))
  | v =>
    if isFiniteNumber v || hasOwnText v then .ok (.text v.display)
    else refuse ("String cannot represent value: " ++ v.preview)

/-- The name that a value goes out as. -/
def writeIdentifier (v : Value) : Attempt Value :=
  match v, whole? v with
  | .text s, _ => .ok (.text s)
  | _, some n => .ok (.text (toString n))
  | v, none => if hasOwnText v then .ok (.text v.display) else notIdentifier v.preview

/-- What a value goes out as. -/
def write (s : Scalar) (v : Value) : Attempt Value :=
  match s.rule with
  | .int => writeWord v
  | .float => writeFloat v
  | .text => writeText v
  | .boolean =>
    match v with
    | .bool b => .ok (.bool b)
    | v => if isFiniteNumber v then .ok (.bool v.truthy) else notBoolean v.preview
  | .identifier => writeIdentifier v
  | .date =>
    match v with
    | .moment m => spelled (.date m.date)
    | v => spelled v
  | .moment | .time => spelled v
  | .bigInteger =>
    match Conversion.intOf v with
    | .ok n => .ok (.int n)
    | .error m => Attempt.mishap m
  | .anything => .ok v

end Scalar
end RelGraph.Graphql
