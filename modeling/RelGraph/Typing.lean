import RelGraph.Naming
import RelGraph.Schema.Registry
import RelGraph.Sdl.Definition
/-!
The API types of columns. A `TypeBook` collects what the types of one schema introduce: scalars,
enums, filter inputs, and the overrides that foreign keys adopt from the columns they refer to.
-/
namespace RelGraph

open Sdl (TypeRef)

/-- A generated enum: the names of its values with the values that are stored. -/
structure EnumType where
  name : String
  values : Members Value
deriving Repr, Inhabited

/-- The definition of an enum. -/
def EnumType.definition (e : EnumType) : Sdl.Definition := .enum e.name (Members.names e.values)

/-- What the types of one schema introduce. -/
structure TypeBook where
  scalars : List String := []
  enums : Members EnumType := []
  filterNames : Members (TypeRef × String) := []
  filterOwners : Members String := []
  adopted : List ((String × String) × String) := []
deriving Repr, Inhabited

namespace TypeBook

/-- Notes that a scalar is needed. -/
def needScalar (b : TypeBook) (name : String) : TypeBook :=
  if b.scalars.contains name then b else { b with scalars := b.scalars ++ [name] }

/-- A name with as many underscores behind it as keep it apart from the names taken. -/
def freshName (taken : List String) : Nat → String → String
  | 0, name => name
  | fuel + 1, name => if taken.contains name then freshName taken fuel (name ++ "_") else name

/-- The enum values for stored values: a name for each, in order. -/
def enumValues (stored : List Value) : Members Value :=
  ((List.range stored.length).zip stored).foldl (fun acc (index, v) =>
    let name := freshName (Members.names acc) (acc.length + 1)
      (Naming.enumValueName v.display index)
    Members.put acc name v) []

/-- The enum of a column. The first column that asks for a name settles its values. -/
def registerEnum (b : TypeBook) (table column : String) (stored : List Value) :
    EnumType × TypeBook :=
  let name := Naming.enumName table column
  match Members.get? b.enums name with
  | some known => (known, b)
  | none =>
    let e : EnumType := ⟨name, enumValues stored⟩
    (e, { b with enums := Members.put b.enums name e })

/-- The filter input of a base type. A name that another base type has taken is marked by a digest
of the base type. -/
def filterName (b : TypeBook) (base : TypeRef) : String × TypeBook :=
  match Members.get? b.filterNames base.text with
  | some (_, known) => (known, b)
  | none =>
    let plain := Naming.plainTypeName base.text
    let short := plain ++ "FieldFilter"
    let name := if Members.has b.filterOwners short
      then Naming.marked plain base.text ++ "FieldFilter" else short
    (name, { b with
      filterNames := Members.put b.filterNames base.text (base, name)
      filterOwners := Members.put b.filterOwners name base.text })

/-- The override that a foreign key adopted. -/
def adoptedType? (b : TypeBook) (table column : String) : Option String :=
  (b.adopted.find? (·.1 = (table, column))).map Prod.snd

end TypeBook

/-- Removes trailing marks and blanks from reversed characters. -/
def dropNonNullMarks (reversed : List Char) : List Char :=
  reversed.dropWhile fun c => c = '!' || Text.isBlank c

/-- A type's text without blanks around it and without non-null marks at its end. -/
def stripNonNull (s : String) : String :=
  String.ofList (dropNonNullMarks (Text.trimLeft Text.isBlank s.toList).reverse).reverse

/-- A list of numbers that are all there. -/
def listOf (name : String) : TypeRef := .list (.nonNull (.named name))

/-- The base type of a column, and the book with what it introduces. -/
def baseType (b : TypeBook) (table : String) (c : Column) : TypeRef × TypeBook :=
  match (givenText? c.typeOverride).or (b.adoptedType? table c.name) with
  | some override => (.verbatim (stripNonNull override), b)
  | none =>
    let scalar := fun (name : String) => (TypeRef.named name, b.needScalar name)
    match c.kind with
    | .boolean => (.named "Boolean", b)
    | .date => scalar "Date"
    | .moment => scalar "DateTime"
    | .time => scalar "Time"
    | .bigInteger => scalar "BigInt"
    | .json => scalar "JSON"
    | .buffer => (listOf "Int", b)
    | .choice (first :: rest) =>
      let (e, b) := b.registerEnum table c.name ((first :: rest).map Value.text)
      (.named e.name, b)
    | .choice [] | .text | .identifier => (.named "String", b)
    | .whole => (.named "Int", b)
    | .fraction => (.named "Float", b)
    | .vector | .geometry => (listOf "Float", b)
    | .array => scalar (Naming.scopedName table c.name "Array")
    | .custom (some name) =>
      scalar (if name.isEmpty then Naming.scopedName table c.name "" else name)
    | .custom none => scalar (Naming.scopedName table c.name "")

/-- Where a column's type is written: shown rows, rows to insert, or changes of rows. -/
inductive TypePosition
  | output
  | insertInput
  | updateInput
deriving DecidableEq, Repr

/-- Whether a column may be left out or empty at a position. -/
def Column.isOptional (c : Column) : TypePosition → Bool
  | .output => c.nullable
  | .insertInput => c.nullable || c.hasDefault
  | .updateInput => true

/-- The type of a column at a position. -/
def columnType (b : TypeBook) (table : String) (c : Column) (position : TypePosition) :
    TypeRef × TypeBook :=
  let (base, b) := baseType b table c
  (if c.isOptional position then base else .nonNull base, b)

/-- Whether some reference leads to a column; each is looked up until one does. -/
def leadTo (references : List Reference) (column : ColumnRef) : Attempt Bool :=
  references.foldlM (fun found reference => do
    if found then return true else return (← reference.resolve) = column) false

/-- The side of a column pair that holds the foreign key, and the side that it refers to: known
from the foreign keys of either column, and taken to be the source for a to-one relation. -/
def foreignKeySides (r : Registry) (rel : Relation) (pair : String × String) :
    Attempt (Option ((Table × Column) × (Table × Column))) :=
  let near := do
    let t ← r.table? rel.source
    return (t, ← t.column? pair.1)
  let far := do
    let t ← r.table? rel.target
    return (t, ← t.column? pair.2)
  let refers := fun (a b : Table × Column) =>
    leadTo (a.1.declaration.referencesOf a.2.name) ⟨b.1.declaration.name, b.2.name⟩
  match near, far with
  | some near, some far => do
    if ← refers near far then return some (near, far)
    else if ← refers far near then return some (far, near)
    else if rel.toMany then return none
    else return some (near, far)
  | _, _ => .ok none

/-- Lets the foreign-key side of a column pair adopt the override of the other side, unless it has
one of its own or has adopted one before. -/
def adoptPair (r : Registry) (b : TypeBook) (rel : Relation) (pair : String × String) :
    Attempt TypeBook := do
  match ← foreignKeySides r rel pair with
  | none => return b
  | some (near, far) =>
    match givenText? near.2.typeOverride, givenText? far.2.typeOverride with
    | none, some override =>
      if (b.adoptedType? near.1.name near.2.name).isSome then return b
      else return { b with adopted := b.adopted ++ [((near.1.name, near.2.name), override)] }
    | _, _ => return b

/-- Refuses an override of a column's type that is no text. -/
def checkOverride (c : Column) : Attempt Unit :=
  if c.typeOverride.truthy && c.typeOverride.text?.isNone then
    Attempt.mishap (.attributeMissing c.typeOverride.kindName "strip")
  else .ok ()

/-- Lets foreign keys adopt the overrides of the columns that they refer to. Overrides have to be
texts. -/
def adoptForeignKeyTypes (r : Registry) (b : TypeBook) : Attempt TypeBook := do
  let b ← r.all.foldlM (fun b t => (Members.values t.relations).foldlM
    (fun b rel => rel.pairs.foldlM (fun b pair => adoptPair r b rel pair) b) b) b
  r.all.forM fun t => t.columns.forM checkOverride
  return b

end RelGraph
