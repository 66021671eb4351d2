import RelGraph.Value.Display
import RelGraph.Text.LowerCase
/-!
The types of stored columns and what each means for the API: a `ColumnKind` says how values of the
column are read, written and shown.
-/
namespace RelGraph

/-- The type of a stored column. A text may be meant to be long. A `choice` lists the texts that may
be stored and says what the list goes by; a `uuid` may be stored as a type of its own or as text;
`opaqueType` and `wrapped` are named types of the application's own, the second built on another
type. -/
inductive ColumnType
  | boolean
  | date
  | moment (zoned : Bool)
  | time
  | integer
  | smallInteger
  | bigInteger
  | float
  | numeric (scale : Option Nat)
  | text (long : Bool)
  | choice (label : String) (stored : List String)
  | binary (large : Bool)
  | uuid (native : Bool)
  | json
  | array (item : ColumnType)
  | interval
  | pickle
  | unknown
  | opaqueType (name : String) (publicName : Value)
  | wrapped (name : String) (inner : ColumnType) (publicName : Value)
deriving Repr, Inhabited

/-- How the API treats a column. -/
inductive ColumnKind
  | boolean
  | date
  | moment
  | time
  | bigInteger
  | json
  | buffer
  | text
  | choice (stored : List String)
  | identifier
  | whole
  | fraction
  | array
  | vector
  | geometry
  | custom (publicName : Option String)
deriving DecidableEq, Repr, Inhabited

namespace ColumnKind

/-- The name of the kind's family. -/
def family : ColumnKind → String
  | boolean => "boolean"
  | date => "date"
  | moment => "datetime"
  | time => "time"
  | bigInteger => "bigint"
  | json => "json"
  | buffer => "buffer"
  | text | choice _ | identifier => "string"
  | whole | fraction => "number"
  | array | vector | geometry => "array"
  | custom _ => "custom"

/-- The name of the kind within its family, where the family has several. -/
def variant : ColumnKind → Option String
  | whole => some "integer"
  | fraction => some "float"
  | vector => some "vector"
  | geometry => some "geometry"
  | identifier => some "uuid"
  | _ => none

/-- The texts that a column of a choice may store. -/
def stored : ColumnKind → Option (List String)
  | choice stored => some stored
  | _ => none

/-- The name that a custom kind goes by. -/
def publicName : ColumnKind → Option String
  | custom name => name
  | _ => none

/-- Whether a list given for the column is one value. -/
def takesLists : ColumnKind → Bool
  | array | vector | geometry | json => true
  | _ => false

end ColumnKind

namespace ColumnType

/-- Whether a word occurs among characters. -/
def occurs (word : List Char) : List Char → Bool
  | [] => word.isEmpty
  | c :: rest => word.isPrefixOf (c :: rest) || occurs word rest

/-- The kind of a named type: its name may say that it holds vectors or shapes; otherwise it goes by
its public name, if that counts as given, or by its own. -/
def namedKind (name : String) (publicName : Value) : ColumnKind :=
  let lowered := (Text.lower name).toList
  if occurs "vector".toList lowered then .vector
  else if occurs "geometry".toList lowered then .geometry
  else .custom (some (if publicName.truthy then publicName.display else name))

/-- The kind of a type. -/
def kind : ColumnType → ColumnKind
  | boolean => .boolean
  | date => .date
  | moment _ => .moment
  | time => .time
  | integer | smallInteger => .whole
  | bigInteger => .bigInteger
  | float | numeric _ => .fraction
  | text _ => .text
  | choice _ stored => .choice stored
  | binary _ => .buffer
  | uuid _ => .identifier
  | json => .json
  | array _ => .array
  | interval => .custom (some "Interval")
  | pickle => .custom (some "PickleType")
  | unknown => .custom none
  | opaqueType name publicName => namedKind name publicName
  | wrapped name _ publicName => namedKind name publicName

/-- The type without the names around it: wrapped types stand for the type they are built on. -/
def bare : ColumnType → ColumnType
  | wrapped _ inner _ => inner.bare
  | t => t

/-- The type that values are stored as. -/
def storage (t : ColumnType) : ColumnType :=
  match t.bare with
  | interval => moment false
  | pickle => binary true
  | t => t

/-- Whether a database can hold columns of the type: nothing says how to store an unknown type, and
lists have no stored form. -/
def isStorable (t : ColumnType) : Bool :=
  match t.bare with
  | unknown | array _ => false
  | _ => true

/-- Whether the type holds whole numbers. -/
def isWhole (t : ColumnType) : Bool :=
  match t.bare with
  | integer | smallInteger | bigInteger => true
  | _ => false

/-- The number of decimal places of a type of decimal numbers, as far as it is fixed. -/
def numberScale? (t : ColumnType) : Option (Option Nat) :=
  match t.bare with
  | numeric scale => some scale
  | float => some none
  | _ => none

/-- Whether moments of the type keep their distance from universal time. -/
def isZoned : ColumnType → Bool
  | moment zoned => zoned
  | _ => false

end ColumnType
end RelGraph
