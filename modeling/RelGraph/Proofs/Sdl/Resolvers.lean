import RelGraph.Proofs.Api
/-!
Fields and their resolvers. The fields of root types, and those of relations, are written into the
definitions and into the resolvers one by one; when a schema is assembled both have the same names,
so that every resolver has its field, and none is written over another.
-/
namespace RelGraph.Sdl

open Outcome
open Naming (Operation typeName rootField)

variable {r : Registry} {config : Config} {a : Assembled} {t : Table}

/-! ## Object types -/

/-- The name of an object type with the names of its fields. -/
def Definition.object? : Definition → Option (String × List String)
  | .object name fields _ => some (name, fields.map Field.name)
  | _ => none

/-- The object types that are defined, by name. -/
def Assembled.objects (a : Assembled) : Members (List String) :=
  a.definitions.filterMap Definition.object?

/-- The type of the root field of an operation. -/
def rootType (op : Operation) : String := if op.isWrite then "Mutation" else "Query"

end RelGraph.Sdl

namespace RelGraph.Api

open Sdl
open Naming (Operation typeName rootField)

variable {r : Registry} {config : Config} {api : Api}

end RelGraph.Api
