import RelGraph.Proofs.Sdl.Assembly
import RelGraph.Proofs.Schema.Registration
/-!
What the definitions of a schema refer to. Every type that is named in a field, an argument or a
list is built in or defined with the others; only what was given as an override, for the column or
for one that it refers to, is taken over as it is.
-/
namespace RelGraph.Sdl

open Naming (typeName)

variable {r : Registry} {config : Config} {a : Assembled} {b b' : TypeBook} {t : Table} {c : Column}
  {names names' : List String} {ref : TypeRef}

/-- The references of a field: its type and those of its arguments. -/
def Field.references (f : Field) : List TypeRef := f.type :: f.arguments.map Prod.snd

/-- The references of a definition. -/
def Definition.references : Definition → List TypeRef
  | .scalar _ | .enum _ _ => []
  | .input _ fields | .object _ fields _ => fields.flatMap Field.references

/-- Whether a text is the override of a column: its own or, where it has none, one that it
adopted. -/
def Overrides (r : Registry) (text : String) : Prop :=
  ∃ t ∈ r.all, ∃ c ∈ t.columns, ∃ override, text = stripNonNull override ∧
    (givenText? c.typeOverride = some override ∨
      givenText? c.typeOverride = none ∧ Adopts r t.name c.name override)

/-- Whether a reference leads to a scalar that every schema has, to one of certain names, or to the
override of a column. -/
def Known (r : Registry) (names : List String) (ref : TypeRef) : Prop :=
  (∃ name, ref.leaf = .named name ∧ (name ∈ builtInScalars ∨ name ∈ names)) ∨
    ∃ text, ref.leaf = .verbatim text ∧ Overrides r text

theorem Known.mono (h : Known r names ref) (hnames : names ⊆ names') : Known r names' ref := by
  obtain ⟨name, hleaf, hname⟩ | hoverride := h
  · exact .inl ⟨name, hleaf, hname.imp id fun h => hnames h⟩
  · exact .inr hoverride

/-- The names that are defined for every table and for every schema. -/
def defined (r : Registry) : List String :=
  tableTypes r ++ (tableInputs r ++ ["OrderByDirection", "InnerOrder"])

/-- Whether all references of a definition are known. -/
def AllKnown (r : Registry) (names : List String) (d : Definition) : Prop :=
  ∀ ref ∈ d.references, Known r names ref

theorem AllKnown.mono {d : Definition} (h : AllKnown r names d) (hnames : names ⊆ names') :
    AllKnown r names' d :=
  fun ref href => (h ref href).mono hnames

section Tables

variable (ht : t ∈ r.all)

include ht

end Tables

/-! ## The whole schema -/

namespace Purchases

open Loading

/-- A column that is known by its name. -/
def column (name : String) (type : ColumnType) (primary : Bool) (override : Value) :
    ColumnDeclaration where
  key := name
  name := name
  type := type
  primary := primary
  nullable := !primary
  typeOverride := override

/-- Customers with an override for their numbers, and purchases that refer to customers. -/
def declared : Declarations where
  tables := [
    { name := "customer", columns := [column "id" .integer true (.text "CustomerId!")] },
    { name := "purchase"
      columns := [column "id" .integer true .null, column "customer" .integer false .null,
        column "kind" (.choice "kind" ["gift", "loan"]) false .null,
        column "made" .date false .null]
      keys := [⟨[("customer", .column ⟨"customer", "id"⟩)]⟩] }]
  relationSets := [
    { owner := .name "purchase", toOne := [{ name := "buyer", target := .name "customer" }] }]

def everything : SchemaSource :=
  .mapping [("customer", .table "customer"), ("purchase", .table "purchase"),
    ("buyers", .relations 0)]

end Purchases

end RelGraph.Sdl
