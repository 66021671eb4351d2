import RelGraph.Store.Formula.Number
/-!
JSON documents as functions of formulas see them. A document keeps its numbers and its texts as they
are written; parts of it are found by paths, replaced, added and removed. A cell that takes the
place of a part is written as JSON where it is JSON itself, and as a text otherwise.
-/
namespace RelGraph.Store.Formula

/-- A cell that a formula gives, and whether it is known to hold JSON. -/
structure Given where
  cell : Cell
  isJson : Bool := false
deriving DecidableEq, Repr, Inhabited

/-- A document. Names and texts are kept with their escapes but without their quotes. -/
inductive Document
  | word (s : String)
  | number (s : String)
  | text (s : String)
  | array (items : List Document)
  | object (members : List (String × Document))
  | given (g : Given)
deriving Repr, Inhabited

namespace Document

/-- What is said of a text that is no document. -/
def malformed : String := "malformed JSON"

/-! ## Reading -/

/-- Whether blanks between the parts of documents are made of a character. -/
def isGap (c : Char) : Bool := c = ' ' || c = '\t' || c = '\n' || c = '\r'

/-- The characters of a text up to its closing quote, with what follows it. -/
def readText : List Char → Option (List Char × List Char)
  | '"' :: rest => some ([], rest)
  | '\\' :: 'u' :: a :: b :: c :: d :: rest =>
    if [a, b, c, d].all fun c => (Text.hexValue? c).isSome then
      (readText rest).map fun r => ('\\' :: 'u' :: a :: b :: c :: d :: r.1, r.2)
    else none
  | '\\' :: c :: rest =>
    if ['"', '\\', '/', 'b', 'f', 'n', 'r', 't'].contains c then
      (readText rest).map fun r => ('\\' :: c :: r.1, r.2)
    else none
  | c :: rest =>
    if c.toNat < 32 then none else (readText rest).map fun r => (c :: r.1, r.2)
  | [] => none

/-- The digits at the beginning, of which there has to be one, with what follows them. -/
def readDigits (cs : List Char) : Option (List Char × List Char) :=
  if cs.head?.any Char.isDigit then
    some (cs.takeWhile Char.isDigit, cs.dropWhile Char.isDigit)
  else none

/-- The characters of a number, with what follows it. -/
def readNumber (cs : List Char) : Option (List Char × List Char) := do
  let (sign, cs) := match cs with
    | '-' :: rest => (['-'], rest)
    | cs => ([], cs)
  let (whole, cs) ← readDigits cs
  if whole.length > 1 ∧ whole.head? = some '0' then none
  else
    let (fraction, cs) ← match cs with
      | '.' :: rest => (readDigits rest).map fun r => ('.' :: r.1, r.2)
      | cs => some ([], cs)
    let (exponent, cs) ← match cs with
      | e :: rest =>
        if e = 'e' ∨ e = 'E' then
          match rest with
          | s :: more =>
            if s = '+' ∨ s = '-' then (readDigits more).map fun r => (e :: s :: r.1, r.2)
            else (readDigits rest).map fun r => (e :: r.1, r.2)
          | [] => none
        else some ([], cs)
      | [] => some ([], [])
    return (sign ++ whole ++ fraction ++ exponent, cs)

/-- The word that characters begin with, with what follows it. -/
def readWord (cs : List Char) : Option (Document × List Char) :=
  (["null", "true", "false"].find? fun w => w.toList.isPrefixOf cs).bind fun w =>
    let rest := cs.drop w.length
    if rest.head?.any Char.isAlphanum then none else some (.word w, rest)

mutual

/-- Reads a document. The fuel bounds the number of its parts. -/
def read : Nat → List Char → Option (Document × List Char)
  | 0, _ => none
  | fuel + 1, cs =>
    match cs.dropWhile isGap with
    | '"' :: rest => (readText rest).map fun r => (.text (String.ofList r.1), r.2)
    | '[' :: rest =>
      match rest.dropWhile isGap with
      | ']' :: rest => some (.array [], rest)
      | rest => (readItems fuel rest).map fun r => (.array r.1, r.2)
    | '\x7b' :: rest =>
      match rest.dropWhile isGap with
      | '\x7d' :: rest => some (.object [], rest)
      | rest => (readMembers fuel rest).map fun r => (.object r.1, r.2)
    | c :: rest =>
      if c = '-' || c.isDigit then
        (readNumber (c :: rest)).map fun r => (.number (String.ofList r.1), r.2)
      else readWord (c :: rest)
    | [] => none

/-- Reads the items of an array. -/
def readItems : Nat → List Char → Option (List Document × List Char)
  | 0, _ => none
  | fuel + 1, cs => do
    let (item, rest) ← read fuel cs
    match rest.dropWhile isGap with
    | ',' :: rest => do
      let (items, rest) ← readItems fuel rest
      return (item :: items, rest)
    | ']' :: rest => return ([item], rest)
    | _ => none

/-- Reads the members of an object. -/
def readMembers : Nat → List Char → Option (List (String × Document) × List Char)
  | 0, _ => none
  | fuel + 1, cs =>
    match cs.dropWhile isGap with
    | '"' :: rest => do
      let (key, rest) ← readText rest
      match rest.dropWhile isGap with
      | ':' :: rest => do
        let (value, rest) ← read fuel rest
        let member := (String.ofList key, value)
        match rest.dropWhile isGap with
        | ',' :: rest => do
          let (members, rest) ← readMembers fuel rest
          return (member :: members, rest)
        | '\x7d' :: rest => return ([member], rest)
        | _ => none
      | _ => none
    | _ => none

end

/-- The document that a text is. -/
def ofText? (s : String) : Option Document :=
  match read (s.length + 1) s.toList with
  | some (d, rest) => if rest.all isGap then some d else none
  | none => none

/-! ## Writing -/

/-- A character of a text inside quotes. -/
def escaped (c : Char) : List Char :=
  if c = '"' ∨ c = '\\' then ['\\', c]
  else if c = '\x08' then ['\\', 'b']
  else if c = '\x0c' then ['\\', 'f']
  else if c = '\n' then ['\\', 'n']
  else if c = '\r' then ['\\', 'r']
  else if c = '\t' then ['\\', 't']
  else if c.toNat < 32 then ['\\', 'u'] ++ Text.hexText 4 c.toNat
  else [c]

/-- A text in quotes. -/
def quoted (s : String) : String := String.ofList ('"' :: s.toList.flatMap escaped ++ ['"'])

/-- A cell as JSON. -/
def ofGiven (g : Given) : Except String String :=
  match g.cell with
  | .null => .ok "null"
  | .text s => .ok (if g.isJson then s else quoted s)
  | .blob _ => .error "JSON cannot hold BLOB values"
  | c => .ok (c.text?.getD "null")

mutual

/-- A document as text, without blanks. -/
def render : Document → Except String String
  | .word s | .number s => .ok s
  | .text s => .ok ("\"" ++ s ++ "\"")
  | .array items => do return "[" ++ String.intercalate "," (← renderItems items) ++ "]"
  | .object members => do
    return "\x7b" ++ String.intercalate "," (← renderMembers members) ++ "\x7d"
  | .given g => ofGiven g

/-- Items as texts. -/
def renderItems : List Document → Except String (List String)
  | [] => .ok []
  | d :: rest => do
    let s ← render d
    return s :: (← renderItems rest)

/-- Members as texts. -/
def renderMembers : List (String × Document) → Except String (List String)
  | [] => .ok []
  | (k, d) :: rest => do
    let s ← render d
    return ("\"" ++ k ++ "\":" ++ s) :: (← renderMembers rest)

end

/-- The number that four hexadecimal digits at the beginning spell, with what follows them. -/
def readUnit? : List Char → Option (Nat × List Char)
  | a :: b :: c :: d :: rest =>
    match [a, b, c, d].mapM Text.hexValue? with
    | some digits => some (Numeral.fromDigits 16 digits, rest)
    | none => none
  | _ => none

/-- The text that characters with escapes stand for. The fuel bounds their number. -/
def unescape : Nat → List Char → List Char
  | 0, _ => []
  | fuel + 1, cs =>
    match cs with
    | '\\' :: 'u' :: rest =>
      match readUnit? rest with
      | some (n, rest) =>
        let low := match rest with
          | '\\' :: 'u' :: more => readUnit? more
          | _ => none
        match low with
        | some (m, after) =>
          if 0xD800 ≤ n ∧ n < 0xDC00 ∧ 0xDC00 ≤ m ∧ m < 0xE000 then
            Char.ofNat (0x10000 + (n - 0xD800) * 1024 + (m - 0xDC00)) :: unescape fuel after
          else unitChar n :: unescape fuel rest
        | none => unitChar n :: unescape fuel rest
      | none => unescape fuel rest
    | '\\' :: c :: rest =>
      let plain := if c = 'b' then '\x08' else if c = 'f' then '\x0c' else if c = 'n' then '\n'
        else if c = 'r' then '\r' else if c = 't' then '\t' else c
      plain :: unescape fuel rest
    | c :: rest => c :: unescape fuel rest
    | [] => []
where
  unitChar (n : Nat) : Char := if 0xD800 ≤ n ∧ n < 0xE000 then '\uFFFD' else Char.ofNat n

/-- A part of a document as a cell; arrays and objects stay JSON. -/
def toGiven (d : Document) : Except String Given :=
  match d with
  | .word s => .ok ⟨if s = "true" then .integer 1 else if s = "false" then .integer 0 else .null,
      false⟩
  | .number s => .ok ⟨((Cell.numberOf? s).getD .null), false⟩
  | .text s => .ok ⟨.text (String.ofList (unescape s.length s.toList)), false⟩
  | .given g => .ok g
  | d => do return ⟨.text (← d.render), true⟩

/-- The name of a part's type. -/
def typeName : Document → String
  | .word s => s
  | .number s =>
    if s.toList.all fun c => c.isDigit || c = '-' then "integer" else "real"
  | .text _ => "text"
  | .array _ => "array"
  | .object _ => "object"
  | .given _ => "null"

/-! ## Paths -/

/-- A step of a path: to a member, to an item, or to an item counted from behind the last one. -/
inductive Step
  | member (name : String)
  | item (index : Nat)
  | itemFromEnd (back : Nat)
deriving DecidableEq, Repr

/-- What is said of a path that goes wrong at some place. -/
def pathError (rest : List Char) : String :=
  "JSON path error near '" ++
    String.ofList (rest.flatMap fun c => if c = '\'' then ['\'', '\''] else [c]) ++ "'"

/-- The first step of a path, with what follows it. -/
def readStep? (cs : List Char) : Except String (Step × List Char) :=
  match cs with
  | '.' :: '"' :: rest =>
    match rest.dropWhile (· ≠ '"') with
    | _ :: after => .ok (.member (String.ofList (rest.takeWhile (· ≠ '"'))), after)
    | [] => .error (pathError (cs.drop 1))
  | '.' :: rest =>
    let name := rest.takeWhile fun c => c ≠ '.' && c ≠ '['
    if name.isEmpty then .error (pathError rest)
    else .ok (.member (String.ofList name), rest.drop name.length)
  | '[' :: '#' :: '-' :: rest =>
    let digits := rest.takeWhile Char.isDigit
    match digits, rest.drop digits.length with
    | _ :: _, ']' :: after => .ok (.itemFromEnd (Numeral.ofDigitChars digits), after)
    | _, _ => .error (pathError cs)
  | '[' :: '#' :: ']' :: rest => .ok (.itemFromEnd 0, rest)
  | '[' :: rest =>
    let digits := rest.takeWhile Char.isDigit
    match digits, rest.drop digits.length with
    | _ :: _, ']' :: after => .ok (.item (Numeral.ofDigitChars digits), after)
    | _, _ => .error (pathError cs)
  | cs => .error (pathError cs)

/-- The item that a step leads to, among some. -/
def Step.index? (count : Nat) : Step → Option Nat
  | .item n => some n
  | .itemFromEnd back => if back > count then none else some (count - back)
  | .member _ => none

/-- The part of a document that a path leads to. A path is looked at only as far as it leads. The
fuel bounds the number of steps. -/
def find? : Nat → Document → List Char → Except String (Option Document)
  | _, d, [] => .ok (some d)
  | 0, _, _ => .ok none
  | fuel + 1, d, cs =>
    match d, cs.head? with
    | .given _, _ => .ok none
    | .object members, some '.' => do
      let (step, rest) ← readStep? cs
      match members.find? fun m => step = .member m.1 with
      | some (_, d) => find? fuel d rest
      | none => .ok none
    | _, some '.' => .ok none
    | .array items, some '[' => do
      let (step, rest) ← readStep? cs
      match (step.index? items.length).bind (items[·]?) with
      | some d => find? fuel d rest
      | none => .ok none
    | _, some '[' =>
      if cs.drop 1 |>.head? |>.any (· = '#') then .ok none
      else do
        let _ ← readStep? cs
        .ok none
    | _, _ => .error (pathError cs)

/-- The steps of a path behind its first character. -/
def pathSteps (path : String) : Except String (List Char) :=
  match path.toList with
  | '$' :: rest => .ok rest
  | cs => .error (pathError cs)

/-- The part of a document at a path. -/
def at? (d : Document) (path : String) : Except String (Option Document) := do
  let steps ← pathSteps path
  find? (steps.length + 1) d steps

/-- What a change does at the end of a path: it may put something in the place of what is there, put
something where nothing is, or take away what is there. -/
structure Change where
  replaces : Bool
  adds : Bool
  value : Option Given

/-- An empty document that steps can lead into. -/
def grown : List Char → Option Document
  | [] => some (.word "null")
  | '.' :: _ => some (.object [])
  | cs => if "[0]".toList.isPrefixOf cs then some (.array []) else none

/-- A list with an item changed, or left out. -/
def replaceAt {α : Type} (i : Nat) (items : List α) (new : Option α) : List α :=
  items.take i ++ new.toList ++ items.drop (i + 1)

/-- A document changed where a path leads; nothing is left of it when the path leads to itself and
the change takes away, nor of a new one when the path leads nowhere in it. The fuel bounds the
number of steps. -/
def changed : Nat → Change → Bool → Document → List Char → Except String (Option Document)
  | 0, _, _, d, _ => .ok (some d)
  | fuel + 1, change, isNew, d, cs =>
    let unchanged := if isNew then none else some d
    match d, cs with
    | d, [] =>
      if isNew || change.replaces then .ok (change.value.map .given) else .ok (some d)
    | .given g, _ => .ok (some (.given g))
    | .object members, '.' :: _ => do
      let (step, rest) ← readStep? cs
      match members.findIdx? fun m => step = .member m.1, step with
      | some i, .member key =>
        match members[i]? with
        | some (_, below) => do
          let below ← changed fuel change false below rest
          return some (.object (replaceAt i members (below.map (key, ·))))
        | none => return some d
      | none, .member key =>
        match if change.adds then grown rest else none with
        | some start => do
          let below ← changed fuel change true start rest
          return below.map (fun below => .object (members ++ [(key, below)])) |>.or unchanged
        | none => return unchanged
      | _, _ => return some d
    | d, '.' :: _ => .ok (some d)
    | .array items, '[' :: _ => do
      let (step, rest) ← readStep? cs
      match step.index? items.length with
      | none => return some d
      | some i =>
        match items[i]? with
        | some below => do
          let below ← changed fuel change false below rest
          return some (.array (replaceAt i items below))
        | none =>
          match if change.adds && i = items.length then grown rest else none with
          | some start => do
            let below ← changed fuel change true start rest
            return below.map (fun below => .array (items ++ [below])) |>.or unchanged
          | none => return unchanged
    | d, '[' :: rest =>
      if rest.head? = some '#' then .ok (some d)
      else do
        let _ ← readStep? cs
        return some d
    | _, cs => .error (pathError cs)

/-- A document changed at a path. -/
def change (d : Document) (c : Change) (path : String) : Except String (Option Document) := do
  let steps ← pathSteps path
  changed (steps.length + 1) c false d steps

mutual

/-- A document with another merged into it: members that are null are taken away, objects are merged
member by member, and all else takes the place of what was there. -/
def merged (patch : Document) (target : Document) : Document :=
  match patch with
  | .object members =>
    let start := match target with
      | .object ms => ms
      | _ => []
    .object (mergedMembers members start)
  | d => d

/-- Members with others merged into them. -/
def mergedMembers : List (String × Document) → List (String × Document) →
    List (String × Document)
  | [], acc => acc
  | (key, d) :: rest, acc =>
    let acc :=
      match d with
      | .word "null" => acc.filter (·.1 ≠ key)
      | d =>
        match acc.find? (·.1 = key) with
        | some (_, before) =>
          acc.map fun m => if m.1 = key then (key, merged d before) else m
        | none => acc ++ [(key, merged d (.word "null"))]
    mergedMembers rest acc

end

end Document
end RelGraph.Store.Formula
