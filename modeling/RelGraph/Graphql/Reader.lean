import RelGraph.Graphql.Document
import RelGraph.Graphql.Token
/-!
Reading documents from tokens. A reader takes tokens from the front and leaves the rest; it says
what it found in place of what it looked for when the tokens are no such thing. Every reader that
nests has fuel, and a document of `n` tokens never nests deeper than `n`.
-/
namespace RelGraph.Graphql

/-- A reader of tokens. -/
abbrev Reader (α : Type) := StateT (List Token) (Except String) α

namespace Reader

/-- A token that may be missing, as messages show it. -/
def shown (t : Option Token) : String := (t.map Token.shown).getD "<EOF>"

/-- Refuses the next token. -/
def unexpected {α : Type} : Reader α := do
  throw ("Unexpected " ++ shown (← get).head? ++ ".")

/-- Refuses the next token in place of what should stand there. -/
def expected {α : Type} (what : String) : Reader α := do
  throw ("Expected " ++ what ++ ", found " ++ shown (← get).head? ++ ".")

/-- Goes on with the tokens after one that has been taken, unless the text ends to be made of tokens
there. -/
def goOn (rest : List Token) : Reader Unit :=
  match rest with
  | .unreadable reason :: _ => throw reason
  | rest => set rest

/-- The next token, which is left where it is. -/
def peek : Reader (Option Token) := do return (← get).head?

/-- Whether a given token comes next. -/
def follows (t : Token) : Reader Bool := do return (← peek) = some t

/-- Takes a token when it is the given one. -/
def skip? (t : Token) : Reader Bool := do
  match ← get with
  | first :: rest =>
    if first = t then
      goOn rest
      return true
    else return false
  | [] => return false

/-- Takes a token that has to be the given one. -/
def expect (t : Token) : Reader Unit := do
  if ← skip? t then return () else expected t.shown

/-- Takes a name. -/
def name : Reader String := do
  match ← get with
  | .name s :: rest =>
    goOn rest
    return s
  | _ => expected "Name"

/-- Takes a given name if it comes next. -/
def keyword? (word : String) : Reader Bool := skip? (.name word)

/-- Takes a name that has to be the given one. -/
def keyword (word : String) : Reader Unit := do
  if ← keyword? word then return () else expected ("'" ++ word ++ "'")

/-- Refuses to nest deeper than the fuel lasts. -/
def tooDeep {α : Type} : Reader α := throw "Nested too deep."

/-- Reads items up to a closing token. -/
def upTo {α : Type} (closing : Token) (item : Reader α) : Nat → Reader (List α)
  | 0 => tooDeep
  | fuel + 1 => do
    if ← skip? closing then return []
    else
      let first ← item
      let rest ← upTo closing item fuel
      return first :: rest

/-- Reads items, at least one, up to a closing token. -/
def someUpTo {α : Type} (closing : Token) (item : Reader α) (fuel : Nat) : Reader (List α) := do
  let first ← item
  let rest ← upTo closing item fuel
  return first :: rest

/-- Reads items, at least one, between two tokens; none when the first does not come next. -/
def group {α : Type} (fuel : Nat) (opening closing : Char) (item : Reader α) :
    Reader (List α) := do
  if ← skip? (.mark opening) then someUpTo (.mark closing) item fuel else return []

/-- Reads items as long as they start with a given token. -/
def each {α : Type} (start : Token) (item : Reader α) : Nat → Reader (List α)
  | 0 => return []
  | fuel + 1 => do
    if ← skip? start then
      let first ← item
      let rest ← each start item fuel
      return first :: rest
    else return []

/-- Reads items with a token between them, and perhaps in front. -/
def separated {α : Type} (fuel : Nat) (separator : Char) (item : Reader α) : Reader (List α) := do
  let _ ← skip? (.mark separator)
  let first ← item
  let rest ← each (.mark separator) item fuel
  return first :: rest

/-! ## Values and types -/

/-- The literal that a name is. -/
def nameLiteral : String → Literal
  | "null" => .null
  | "true" => .bool true
  | "false" => .bool false
  | s => .name s

/-- The value of a text token. -/
def textOf? : Token → Option String
  | .text s => some s
  | .block raw => some (Token.blockValue raw)
  | _ => none

/-- Refuses a variable where values have to be constant; its mark has been taken. -/
def refuseVariable : Reader Literal := do
  match ← peek with
  | some (.name s) => throw ("Unexpected variable '$" ++ s ++ "' in constant value.")
  | _ => throw ("Unexpected " ++ (Token.mark '$').shown ++ ".")

mutual

/-- Reads a value; a constant one holds no variables. -/
def literal (constant : Bool) : Nat → Reader Literal
  | 0 => tooDeep
  | fuel + 1 => do
    match ← get with
    | .mark '$' :: rest =>
      goOn rest
      if constant then refuseVariable else return .variable (← name)
    | .mark '[' :: rest =>
      goOn rest
      return .list (← upTo (.mark ']') (literal constant fuel) fuel)
    | .mark '\x7b' :: rest =>
      goOn rest
      return .object (← upTo (.mark '\x7d') (member constant fuel) fuel)
    | .int digits :: rest =>
      goOn rest
      return .int digits
    | .float digits :: rest =>
      goOn rest
      return .float digits
    | .name s :: rest =>
      goOn rest
      return nameLiteral s
    | t :: rest =>
      match textOf? t with
      | some s =>
        goOn rest
        return .text s
      | none => unexpected
    | [] => unexpected

/-- Reads a named value. -/
def member (constant : Bool) : Nat → Reader (String × Literal)
  | 0 => tooDeep
  | fuel + 1 => do
    let key ← name
    expect (.mark ':')
    return (key, ← literal constant fuel)

end

/-- Reads arguments in parentheses, if there are any. -/
def arguments (constant : Bool) (fuel : Nat) : Reader Arguments :=
  group fuel '(' ')' (member constant fuel)

/-- Reads directives. -/
def directives (constant : Bool) (fuel : Nat) : Reader (List Directive) :=
  each (.mark '@') (do
    let name ← name
    return ⟨name, ← arguments constant fuel⟩) fuel

/-- Reads a reference to a type. -/
def typeExpr : Nat → Reader TypeExpr
  | 0 => tooDeep
  | fuel + 1 => do
    let inner ← (do
      if ← skip? (.mark '[') then
        let item ← typeExpr fuel
        expect (.mark ']')
        return TypeExpr.list item
      else return TypeExpr.named (← name))
    if ← skip? (.mark '!') then return .nonNull inner else return inner

/-! ## Requests -/

/-- Takes the name of a fragment. -/
def fragmentName : Reader String := do
  if ← follows (.name "on") then unexpected else name

mutual

/-- Reads a selection in braces. -/
def entries : Nat → Reader (List Entry)
  | 0 => tooDeep
  | fuel + 1 => do
    expect (.mark '\x7b')
    someUpTo (.mark '\x7d') (entry fuel) fuel

/-- Reads an entry of a selection. -/
def entry : Nat → Reader Entry
  | 0 => tooDeep
  | fuel + 1 => do
    if ← skip? .spread then
      if ← keyword? "on" then
        let condition ← name
        let ds ← directives false fuel
        return .within none (some condition) ds (← entries fuel)
      else match ← peek with
        | some (.name _) =>
          let fragment ← name
          return .spread fragment (← directives false fuel)
        | _ =>
          let ds ← directives false fuel
          return .within none none ds (← entries fuel)
    else
      let first ← name
      let (label, fieldName) ← (do
        if ← skip? (.mark ':') then return (some first, ← name) else return (none, first))
      let args ← arguments false fuel
      let ds ← directives false fuel
      if ← follows (.mark '\x7b') then return .field label fieldName args ds (← entries fuel)
      else return .field label fieldName args ds []

end

/-- Reads a default value, if there is one. -/
def defaultValue (fuel : Nat) : Reader (Option Literal) := do
  if ← skip? (.mark '=') then return some (← literal true fuel) else return none

/-- Reads a variable of an operation. -/
def variableDefinition (fuel : Nat) : Reader VariableDefinition := do
  expect (.mark '$')
  let name ← name
  expect (.mark ':')
  let type ← typeExpr fuel
  let default? ← defaultValue fuel
  return ⟨name, type, default?, ← directives true fuel⟩

/-- Reads an operation after its kind. -/
def operation (fuel : Nat) (kind : OperationKind) : Reader OperationDefinition := do
  let name ← (do
    match ← peek with
    | some (.name _) => return some (← name)
    | _ => return none)
  let parameters ← group fuel '(' ')' (variableDefinition fuel)
  let ds ← directives false fuel
  return ⟨kind, name, parameters, ds, ← entries fuel⟩

/-- Reads a named fragment after its keyword. -/
def fragment (fuel : Nat) : Reader Definition := do
  let name ← fragmentName
  keyword "on"
  let condition ← Reader.name
  let ds ← directives false fuel
  return .fragment name ⟨condition, ds, ← entries fuel⟩

/-! ## Schemas -/

/-- Reads a description, if there is one. -/
def description? : Reader (Option String) := do
  match ← get with
  | t :: rest =>
    match textOf? t with
    | some s =>
      goOn rest
      return some s
    | none => return none
  | [] => return none

/-- Reads an argument or input field. -/
def inputDefinition (fuel : Nat) : Reader InputDefinition := do
  let description ← description?
  let name ← name
  expect (.mark ':')
  let type ← typeExpr fuel
  let default? ← defaultValue fuel
  return ⟨name, type, default?, ⟨description, ← directives true fuel⟩⟩

/-- Reads a field of a type. -/
def fieldDefinition (fuel : Nat) : Reader FieldDefinition := do
  let description ← description?
  let name ← name
  let args ← group fuel '(' ')' (inputDefinition fuel)
  expect (.mark ':')
  let type ← typeExpr fuel
  return ⟨name, args, type, ⟨description, ← directives true fuel⟩⟩

/-- Reads a value of a choice, which is not named like a value that is no choice. -/
def choiceValue (fuel : Nat) : Reader ChoiceDefinition := do
  let description ← description?
  match ← peek with
  | some (.name s) =>
    if ["true", "false", "null"].contains s then
      throw (shown (some (.name s)) ++ " is reserved and cannot be used for an enum value.")
  | _ => pure ()
  let name ← name
  return ⟨name, ⟨description, ← directives true fuel⟩⟩

/-- Reads the interfaces of a type. -/
def interfaces (fuel : Nat) : Reader (List String) := do
  if ← keyword? "implements" then separated fuel '&' name else return []

/-- Reads the directives and the content of a type after its keyword and name. -/
def typeContent (fuel : Nat) (word : String) : Reader (List Directive × TypeDefinition) := do
  let fields := group fuel '\x7b' '\x7d' (fieldDefinition fuel)
  match word with
  | "scalar" => return (← directives true fuel, .scalar)
  | "type" =>
    let is ← interfaces fuel
    let ds ← directives true fuel
    return (ds, .object is (← fields))
  | "interface" =>
    let is ← interfaces fuel
    let ds ← directives true fuel
    return (ds, .interface is (← fields))
  | "union" =>
    let ds ← directives true fuel
    if ← skip? (.mark '=') then return (ds, .union (← separated fuel '|' name))
    else return (ds, .union [])
  | "enum" =>
    let ds ← directives true fuel
    return (ds, .choice (← group fuel '\x7b' '\x7d' (choiceValue fuel)))
  | _ =>
    let ds ← directives true fuel
    return (ds, .input (← group fuel '\x7b' '\x7d' (inputDefinition fuel)))

/-- Whether an extension adds nothing. -/
def addsNothing : List Directive → TypeDefinition → Bool
  | [], .scalar | [], .object [] [] | [], .interface [] [] | [], .union [] | [], .choice []
  | [], .input [] => true
  | _, _ => false

/-- The words that begin a type definition. -/
def typeWords : List String := ["scalar", "type", "interface", "union", "enum", "input"]

/-- The kind of operation that a word names. -/
def operationKind? : String → Option OperationKind
  | "query" => some .query
  | "mutation" => some .mutation
  | "subscription" => some .subscription
  | _ => none

/-- Reads the type of one kind of operation. -/
def rootType : Reader (OperationKind × String) := do
  let found ← peek
  match operationKind? (← name) with
  | some kind =>
    expect (.mark ':')
    return (kind, ← name)
  | none => throw ("Unexpected " ++ shown found ++ ".")

/-- Reads the root types of a schema after its keyword. -/
def rootTypes (fuel : Nat) (description : Option String) : Reader Definition := do
  let ds ← directives true fuel
  expect (.mark '\x7b')
  return .roots false ⟨description, ds⟩ (← someUpTo (.mark '\x7d') rootType fuel)

/-- Reads an extension after its keyword. -/
def extension (fuel : Nat) : Reader Definition := do
  match ← get with
  | .name "schema" :: rest =>
    goOn rest
    let ds ← directives true fuel
    let types ← group fuel '\x7b' '\x7d' rootType
    if ds.isEmpty && types.isEmpty then unexpected else return .roots true ⟨none, ds⟩ types
  | .name word :: rest =>
    if typeWords.contains word then
      goOn rest
      let name ← name
      let (ds, d) ← typeContent fuel word
      if addsNothing ds d then unexpected else return .extension name ⟨none, ds⟩ d
    else unexpected
  | _ => unexpected

/-- Reads a place for a directive. -/
def place : Reader String := do
  let found ← peek
  let name ← name
  if directivePlaces.contains name then return name else throw ("Unexpected " ++ shown found ++ ".")

/-- Reads the definition of a directive after its keyword. -/
def directiveDefinition (fuel : Nat) (description : Option String) : Reader Definition := do
  expect (.mark '@')
  let name ← name
  let args ← group fuel '(' ')' (inputDefinition fuel)
  let repeatable ← keyword? "repeatable"
  keyword "on"
  return .directive ⟨name, args, repeatable, ← separated fuel '|' place, description⟩

/-- Reads a definition of a schema after its keyword. -/
def schemaDefinition (fuel : Nat) (word : String) (description : Option String) :
    Reader Definition := do
  match word with
  | "schema" => rootTypes fuel description
  | "directive" => directiveDefinition fuel description
  | word =>
    let name ← name
    let (ds, d) ← typeContent fuel word
    return .type name ⟨description, ds⟩ d

/-- Reads a definition. -/
def definition (fuel : Nat) : Reader Definition := do
  if ← follows (.mark '\x7b') then return .operation ⟨.query, none, [], [], ← entries fuel⟩
  else
    let description ← description?
    match ← get with
    | .name word :: rest =>
      if "schema" = word || "directive" = word || typeWords.contains word then
        goOn rest
        schemaDefinition fuel word description
      else if description.isSome then
        throw ("Unexpected description, descriptions are supported only on definitions.")
      else match operationKind? word with
        | some kind =>
          goOn rest
          return .operation (← operation fuel kind)
        | none =>
          match word with
          | "fragment" =>
            goOn rest
            fragment fuel
          | "extend" =>
            goOn rest
            extension fuel
          | _ => unexpected
    | _ => unexpected

/-- Reads definitions, as many as there are tokens left. -/
def definitions (depth : Nat) : Nat → Reader Document
  | 0 => return []
  | fuel + 1 => do
    let first ← definition depth
    match ← get with
    | [] => return [first]
    | _ => return first :: (← definitions depth fuel)

end Reader

/-- The document that a text is; or what stands where in place of what. -/
def Document.ofText (s : String) : Except String Document := do
  let tokens := Token.ofText s
  let fuel := tokens.length + 1
  let read : Reader Document := do
    Reader.goOn tokens
    Reader.definitions fuel fuel
  match read.run tokens with
  | .ok (document, _) => return document
  | .error reason => throw ("Syntax Error: " ++ reason)

end RelGraph.Graphql
