import RelGraph.Graphql.Execution
/-!
A document beside the schema that it makes requests on: what its names stand for, and where in it a
selection stands.
-/
namespace RelGraph.Graphql

/-- A place in a document: the index of a definition, then the index of an entry in each selection
on the way. A selection stands where the entry stands that it belongs to. -/
abbrev Place := List Nat

/-- A document with the schema that it makes requests on. -/
structure Scope where
  schema : Schema
  document : Document
deriving Inhabited

namespace Scope

/-- The fragments of the document. -/
def fragments (c : Scope) : Members Fragment := Request.fragments c.document

/-- The type of a name if its values have fields. -/
def composite? (c : Scope) (name : String) : Option String :=
  (c.schema.type? name).bind fun t => if t.isComposite then some name else none

/-- The type that entries under a condition are selected on, inside of a type. -/
def inside (c : Scope) (parent condition : Option String) : Option String :=
  match condition with
  | some condition => c.composite? condition
  | none => parent

end Scope
end RelGraph.Graphql
