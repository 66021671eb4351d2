import RelGraph.Graphql.Execution
import RelGraph.Graphql.SchemaRules
import RelGraph.Plan
import RelGraph.Sdl.Assembly
import RelGraph.Hydration
/-!
The API of a schema: its registry, the limits it was built with, and the definitions that make its
GraphQL schema. Every root field is an operation on one table.
-/
namespace RelGraph

/-- The API of a schema. -/
structure Api where
  registry : Registry
  config : Config
  assembled : Sdl.Assembled
deriving Inhabited

namespace Api

/-- The definition of the directive that publishes. -/
def exportDirective : String := "directive @export(as: String!) on FIELD"

/-- Additions to an API: the directive that publishes, further definitions, and scalars that let
placeholders in. -/
structure Additions where
  exports : Bool := false
  definitions : String := ""
  lenient : List String := []
deriving Repr, Inhabited

/-- The API of a registry. -/
def build (r : Registry) (config : Config) : Attempt Api := do
  return ⟨r, config, ← Sdl.assemble r config⟩

/-- The text of all definitions of an API. -/
def documentText (api : Api) (more : Additions) : String :=
  (if more.exports then exportDirective ++ "\n\n" else "") ++
    Sdl.documentText api.assembled.definitions ++
    (if more.definitions.isEmpty then "" else "\n\n" ++ more.definitions)

/-- The GraphQL schema of an API. Its definitions may make none although every operation can be
called without it. -/
def schema (api : Api) (more : Additions) : Attempt Graphql.Schema := do
  let schema ← Graphql.Schema.ofText (api.documentText more)
  let schema ← schema.setChoices (Members.mapValues EnumType.values api.assembled.book.enums)
  return schema.makeLenient more.lenient

/-- The table and operation of a root field; of several the last that was built. -/
def target? (api : Api) (field : String) : Option (Table × Naming.Operation) :=
  let ops := Naming.Operation.all.filter fun op => api.config.offersWrites || !op.isWrite
  let named := api.registry.all.flatMap fun t => ops.map fun op =>
    (Naming.rootField t.name op, t, op)
  (named.filter (·.1 = field)).getLast?.map Prod.snd

/-- What a field below the root resolves to: relations to what was fetched for them, all others to
the member of their name. -/
def resolve (api : Api) : Graphql.Resolver := fun call =>
  let table := (api.registry.all.filter fun t =>
    Naming.typeName t.name = call.type && !t.relations.isEmpty).getLast?
  match table.bind fun t => (t.relation? call.field).map (t, ·) with
  | some (t, rel) => .ok (Hydration.readRelation t rel call.key call.parent)
  | none => Graphql.resolveMember call

end Api
end RelGraph
