import RelGraph.Exports.Store
import RelGraph.Graphql.Document
/-!
Publishing. A field of a request that carries the directive `export` publishes what it has in each
row of a result: the member under its response key, else under its name, else under its marked
response key. Only fields that are written directly in a selection are looked at.
-/
namespace RelGraph.Exports

open Graphql (Directive Entry Literal)

/-- The name under which the first fitting `export` directive publishes. -/
def publishedName? (directives : List Directive) : Option String :=
  directives.findSome? fun d =>
    if d.name = "export" then
      d.args.findSome? fun arg => match arg with
        | ("as", .text s) => some s
        | _ => none
    else none

/-- What a row has for a field. -/
def memberFor? (row : Members Value) (label : Option String) (name : String) : Option Value :=
  let key := label.getD name
  [key, name, "_" ++ key].findSome? (Members.get? row)

mutual

/-- The rows of a result: itself, or the rows in a list. -/
def rowsIn : Value → List (Members Value)
  | .object row => [row]
  | .list items => rowsOfAll items
  | .tuple items => rowsOfAll items
  | _ => []

/-- The rows of all items of a list. -/
def rowsOfAll : List Value → List (Members Value)
  | [] => []
  | v :: rest => rowsIn v ++ rowsOfAll rest

end

/-- A value under a name, unless the name is empty. -/
def publication (name : Option String) (v : Value) : List (String × Value) :=
  match name with
  | some name => if name.isEmpty then [] else [(name, v)]
  | none => []

mutual

/-- What an entry of a selection publishes of a row. -/
def publicationsOf (row : Members Value) : Entry → List (String × Value)
  | .field label name _ directives entries =>
    match memberFor? row label name with
    | none => []
    | some v =>
      publication (publishedName? directives) v ++
        (rowsIn v).flatMap fun row => publicationsOfAll row entries
  | _ => []

/-- What the entries of a selection publish of a row. -/
def publicationsOfAll (row : Members Value) : List Entry → List (String × Value)
  | [] => []
  | e :: rest => publicationsOf row e ++ publicationsOfAll row rest

end

/-- What a selection publishes of a result, in order. -/
def publications (result : Value) (entries : List Entry) : List (String × Value) :=
  (rowsIn result).flatMap fun row => publicationsOfAll row entries

/-- What a field publishes of its own result and of the selection below it; a null publishes
nothing. -/
def fieldPublications (result : Value) (directives : List Directive) (entries : List Entry) :
    List (String × Value) :=
  if result.isNull then []
  else publication (publishedName? directives) result ++ publications result entries

/-- Publishes values in order. -/
def Store.publishAll (s : Store) (values : List (String × Value)) : Store :=
  values.foldl (fun s kv => s.publish kv.1 kv.2) s

end RelGraph.Exports
