import RelGraph.Schema.Registry
import RelGraph.Value
/-!
The types by which operands bind. A value that stands beside a column binds by the column's type
when it is of the same family, and by the type of its own otherwise; a value that has no type of its
own takes that of the column.
-/
namespace RelGraph.Sql

/-- The type that a value has of its own. -/
def ownType? : Value → Option ColumnType
  | .bool _ => some .boolean
  | .int _ => some .integer
  | .float _ => some .float
  | .decimal _ => some (.numeric none)
  | .text _ => some (.text false)
  | .bytes _ => some (.binary true)
  | .date _ => some .date
  | .moment _ => some (.moment false)
  | .time _ => some .time
  | .uuid _ => some (.uuid false)
  | .null | .list _ | .tuple _ | .object _ => none

/-- Whether a column's type and a value's own type are of one family. -/
def sameFamily : ColumnType → ColumnType → Bool
  | .boolean, .boolean => true
  | .integer, .integer | .smallInteger, .integer | .bigInteger, .integer => true
  | .float, .float | .float, .numeric _ | .numeric _, .float | .numeric _, .numeric _ => true
  | .text _, .text _ | .choice .., .text _ => true
  | .binary _, .binary _ => true
  | .date, .date => true
  | .moment _, .moment _ => true
  | .time, .time => true
  | .uuid _, .uuid _ => true
  | _, _ => false

/-- The type by which a value binds beside a type: that type, if the value has none of its own or
one of the same family. -/
def besideType (t : ColumnType) (v : Value) : ColumnType :=
  match ownType? v with
  | none => t
  | some own => if sameFamily t own then t else own

/-- The type by which an operand of a column binds. The application's own types take every value for
their own, identifiers and bytes take texts for theirs, and spans of time are compared as the
moments that they are stored as. -/
def operandType (c : Column) (v : Value) : ColumnType :=
  match c.declaration.type, v with
  | .wrapped name inner shown, _ => .wrapped name inner shown
  | .opaqueType name shown, _ => .opaqueType name shown
  | .pickle, _ => .pickle
  | .uuid native, .text _ => .uuid native
  | .binary large, .text _ => .binary large
  | .interval, v => besideType (.moment false) v
  | t, v => besideType t v

/-- The type by which the items of a list of operands bind: that of the first. -/
def itemType (c : Column) (items : List Value) : ColumnType :=
  operandType c (items.head?.getD .null)

/-- Whether a list of operands is a list of rows of values: the column has no type, and the first
item is a list. -/
def listsRows (c : Column) (items : List Value) : Bool :=
  match c.declaration.type.bare, items with
  | .unknown, first :: _ => first.items?.isSome
  | _, _ => false

end RelGraph.Sql
