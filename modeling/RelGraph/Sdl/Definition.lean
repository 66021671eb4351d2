import RelGraph.Members
/-!
Type definitions and their text. References to types are kept as data, so that what a definition
names can be asked for; only a reference given by a caller is kept as the text that it is.
-/
namespace RelGraph.Sdl

/-- A reference to a type. -/
inductive TypeRef
  | named (name : String)
  | list (item : TypeRef)
  | nonNull (inner : TypeRef)
  | verbatim (text : String)
deriving DecidableEq, Repr, Inhabited

/-- The text of a reference. -/
def TypeRef.text : TypeRef → String
  | named name => name
  | list item => "[" ++ item.text ++ "]"
  | nonNull inner => inner.text ++ "!"
  | verbatim text => text

/-- A field or input field, with its arguments. -/
structure Field where
  name : String
  type : TypeRef
  arguments : List (String × TypeRef) := []
  description : Option String := none
deriving DecidableEq, Repr, Inhabited

/-- A definition. -/
inductive Definition
  | scalar (name : String)
  | enum (name : String) (values : List String)
  | input (name : String) (fields : List Field)
  | object (name : String) (fields : List Field) (description : Option String)
deriving Repr, Inhabited

/-- The name that a definition defines. -/
def Definition.name : Definition → String
  | scalar name | enum name _ | input name _ | object name _ _ => name

/-- Replaces every triple quote by an escaped one. -/
def escapeTripleQuotes : List Char → List Char
  | '"' :: '"' :: '"' :: rest => '\\' :: '"' :: '"' :: '"' :: escapeTripleQuotes rest
  | c :: rest => c :: escapeTripleQuotes rest
  | [] => []

/-- A description as a block text on lines of its own; the empty text has none. -/
def describe (text indent : String) : String :=
  if text.isEmpty then ""
  else indent ++ "\"\"\"" ++ String.ofList (escapeTripleQuotes text.toList) ++ "\"\"\"\n"

/-- A description that may be absent. -/
def describe? (text : Option String) (indent : String) : String := describe (text.getD "") indent

/-- The line of a field. -/
def Field.text (f : Field) : String :=
  let arguments := f.arguments.map fun a => a.1 ++ ": " ++ a.2.text
  describe? f.description "  " ++ "  " ++ f.name ++
    (if arguments.isEmpty then "" else "(" ++ String.intercalate ", " arguments ++ ")") ++
    ": " ++ f.type.text

/-- A named block of lines. -/
def block (keyword name : String) (lines : List String) : String :=
  keyword ++ " " ++ name ++ " \x7b\n" ++ String.intercalate "\n" lines ++ "\n\x7d"

/-- The text of a definition. -/
def Definition.text : Definition → String
  | scalar name => "scalar " ++ name
  | enum name values => block "enum" name (values.map ("  " ++ ·))
  | input name fields => block "input" name (fields.map Field.text)
  | object name fields description =>
    describe? description "" ++ block "type" name (fields.map Field.text)

/-- The text of definitions, a blank line between two of them. -/
def documentText (definitions : List Definition) : String :=
  String.intercalate "\n\n" (definitions.map Definition.text)

end RelGraph.Sdl
