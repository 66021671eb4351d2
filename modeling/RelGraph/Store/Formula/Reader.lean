import RelGraph.Store.Formula
import RelGraph.Store.Formula.Token
/-!
Reading formulas. Operators bind by levels, from `or` to the signs before an operand; operators of
one level are taken from the left. Formulas that speak of other tables are refused like all that is
no formula, since no table takes them.
-/
namespace RelGraph.Store.Formula

/-- How strongly an operator binds. -/
abbrev Level := Nat

namespace Level

/-- The level of `or`. -/
def either : Level := 1

/-- The level of `and`. -/
def both : Level := 2

/-- The level of `not`. -/
def negation : Level := 3

/-- The level of equality, of `is`, and of the tests that are written as words. -/
def equality : Level := 4

/-- The level of the other comparisons. -/
def order : Level := 5

/-- The level of the operators on bits. -/
def bits : Level := 7

/-- The level of sums. -/
def sum : Level := 8

/-- The level of products. -/
def product : Level := 9

/-- The level of joined texts, and of parts of documents. -/
def joining : Level := 10

/-- The level of `collate`. -/
def collation : Level := 11

end Level

/-- The words that stand for nothing but themselves in formulas, and so are no names. -/
def reserved : List String :=
  ["add", "all", "alter", "and", "as", "autoincrement", "between", "case", "check", "collate",
    "commit", "constraint", "create", "default", "deferrable", "delete", "distinct", "drop", "else",
    "escape", "except", "exists", "foreign", "from", "group", "having", "in", "index", "insert",
    "intersect", "into", "is", "isnull", "join", "limit", "not", "nothing", "notnull", "null", "on",
    "or", "order", "primary", "references", "returning", "select", "set", "table", "then", "to",
    "transaction", "union", "unique", "update", "using", "values", "when", "where"]

/-- Words that join tables; as names they stand for columns only. -/
def joiningWords : List String := ["cross", "full", "inner", "left", "natural", "outer", "right"]

/-- Words that stand for the present. -/
def presentWords : List String := ["current_date", "current_time", "current_timestamp"]

/-- A word as keywords are told from one another. -/
def plainWord (s : String) : String := s.map Char.toLower

/-- Whether a token is a keyword. -/
def isKeyword (keyword : String) : Token → Bool
  | .word s => plainWord s == keyword
  | _ => false

/-- The tokens behind a keyword that they begin with. -/
def afterKeyword? (keyword : String) : List Token → Option (List Token)
  | t :: rest => if isKeyword keyword t then some rest else none
  | [] => none

/-- The tokens behind a sign that they begin with. -/
def afterSign? (s : String) : List Token → Option (List Token)
  | t :: rest => if t = .sign s then some rest else none
  | [] => none

/-- The constant that a number spells. -/
def ofNumber (s : String) : Formula :=
  match s.toList with
  | '0' :: x :: digits =>
    if x = 'x' ∨ x = 'X' then
      let n : Nat := Numeral.fromDigits 16 (digits.filterMap Text.hexValue?)
      if n ≥ Nat.pow 2 64 then wideNumber s
      else constant (.integer (if n ≥ Nat.pow 2 63 then (n : Int) - Int.pow 2 64 else (n : Int)))
    else constant ((Cell.numberOf? s).getD .null)
  | _ => constant ((Cell.numberOf? s).getD .null)

/-- The opposite of the constant that a number spells. The least whole number has no opposite that
could be written without its sign. -/
def ofNegated (s : String) : Formula :=
  if s = "9223372036854775808" then constant (.integer Cell.leastInteger)
  else unary .minus (ofNumber s)

/-- The constant or name that a word is, if it can be one. -/
def ofWord? (s : String) : Option Formula :=
  let word := plainWord s
  if word = "null" then some (constant .null)
  else if word = "true" then some (truth true)
  else if word = "false" then some (truth false)
  else if presentWords.contains word then some (call s [])
  else if reserved.contains word || word = "cast" || word = "raise" then none
  else some (name s false)

/-- The name of a function that tokens begin with, when a parenthesis follows. -/
def functionName? : List Token → Option (String × List Token)
  | .word s :: .sign "(" :: rest =>
    let word := plainWord s
    if (reserved ++ joiningWords ++ presentWords ++ ["cast", "raise"]).contains word then none
    else some (s, rest)
  | .quotedName s _ :: .sign "(" :: rest => some (s, rest)
  | _ => none

/-- The operator that a sign is between two operands, with its level. -/
def binarySign? : String → Option (Level × Binary)
  | "=" | "==" => some (.equality, .relation .equal)
  | "<>" | "!=" => some (.equality, .relation .unequal)
  | "<" => some (.order, .relation .less)
  | "<=" => some (.order, .relation .atMost)
  | ">" => some (.order, .relation .greater)
  | ">=" => some (.order, .relation .atLeast)
  | "&" => some (.bits, .arithmetic .bitAnd)
  | "|" => some (.bits, .arithmetic .bitOr)
  | "<<" => some (.bits, .arithmetic .shiftLeft)
  | ">>" => some (.bits, .arithmetic .shiftRight)
  | "+" => some (.sum, .arithmetic .add)
  | "-" => some (.sum, .arithmetic .subtract)
  | "*" => some (.product, .arithmetic .multiply)
  | "/" => some (.product, .arithmetic .divide)
  | "%" => some (.product, .arithmetic .remainder)
  | "||" => some (.joining, .arithmetic .concatenate)
  | _ => none

/-- The operator that a word is between two operands, with its level. -/
def binaryWord? : String → Option (Level × Binary)
  | "and" => some (.both, .both)
  | "or" => some (.either, .either)
  | _ => none

/-- The words of operators that are functions of the pattern and the text. -/
def matchingWords : List String := ["like", "glob", "regexp", "match"]

/-- The word of a type or a collation. -/
def typeWord? : Token → Option String
  | .word s => if reserved.contains (plainWord s) then none else some s
  | .quotedName s _ => some s
  | .text s => some s
  | _ => none

/-- The words at the beginning of tokens. -/
def typeWords : List Token → List String × List Token
  | t :: rest =>
    match typeWord? t with
    | some s =>
      let (more, rest) := typeWords rest
      (s :: more, rest)
    | none => ([], t :: rest)
  | [] => ([], [])

/-- A number with a sign, in the parentheses of a type. -/
def afterSize? : List Token → Option (List Token)
  | .sign "-" :: .number _ :: rest | .sign "+" :: .number _ :: rest | .number _ :: rest => some rest
  | _ => none

/-- The affinity of a type, with what follows the type. Sizes do not matter. -/
def readType : List Token → Option (Affinity × List Token) := fun ts =>
  let (words, rest) := typeWords ts
  let affinity := if words.isEmpty then .numeric
    else Affinity.ofTypeName (String.intercalate " " words)
  match rest with
  | .sign "(" :: rest =>
    if words.isEmpty then none
    else match afterSize? rest with
      | some (.sign "," :: rest) =>
        ((afterSize? rest).bind (afterSign? ")")).map (affinity, ·)
      | some (.sign ")" :: rest) => some (affinity, rest)
      | _ => none
  | rest => some (affinity, rest)

/-- The relation that `is` and its words stand for, with what follows them. -/
def readIs (ts : List Token) : Relation × List Token :=
  let (negated, ts) := match afterKeyword? "not" ts with
    | some rest => (true, rest)
    | none => (false, ts)
  match (afterKeyword? "distinct" ts).bind (afterKeyword? "from") with
  | some rest => (if negated then .same else .different, rest)
  | none => (if negated then .different else .same, ts)

mutual

/-- Reads a formula whose operators bind at least as strongly as a level. -/
def readFrom : Nat → Level → List Token → Option (Formula × List Token)
  | 0, _, _ => none
  | fuel + 1, least, ts => do
    let (left, ts) ← readOperand fuel ts
    extend fuel least left ts

/-- Reads an operand: a constant, a name, a call, or a formula in parentheses, perhaps behind
signs. -/
def readOperand : Nat → List Token → Option (Formula × List Token)
  | 0, _ => none
  | fuel + 1, ts =>
    match ts with
    | .number s :: rest => some (ofNumber s, rest)
    | .text s :: rest => some (constant (.text s), rest)
    | .bytes data :: rest => some (constant (.blob data), rest)
    | .sign "(" :: rest => do
      let (f, rest) ← readFrom fuel Level.either rest
      return (f, ← afterSign? ")" rest)
    | .sign "-" :: .number s :: rest => some (ofNegated s, rest)
    | .sign "-" :: rest => (readOperand fuel rest).map fun r => (unary .minus r.1, r.2)
    | .sign "+" :: rest => (readOperand fuel rest).map fun r => (unary .plus r.1, r.2)
    | .sign "~" :: rest => (readOperand fuel rest).map fun r => (unary .complement r.1, r.2)
    | t :: rest =>
      match functionName? ts with
      | some (function, rest) => readCall fuel function rest
      | none =>
        if isKeyword "not" t then
          (readFrom fuel Level.equality rest).map fun r => (unary .not r.1, r.2)
        else if isKeyword "case" t then readChoice fuel rest
        else if isKeyword "cast" t then do
          let (f, rest) ← readFrom fuel Level.either (← afterSign? "(" rest)
          let (affinity, rest) ← readType (← afterKeyword? "as" rest)
          return (cast f affinity, ← afterSign? ")" rest)
        else match t with
          | .word s => (ofWord? s).map (·, rest)
          | .quotedName s doubleQuoted => some (name s doubleQuoted, rest)
          | _ => none
    | [] => none

/-- Reads the arguments of a call behind its parenthesis. A star stands for no arguments. -/
def readCall : Nat → String → List Token → Option (Formula × List Token)
  | 0, _, _ => none
  | fuel + 1, function, ts =>
    match ts with
    | .sign "*" :: rest => (afterSign? ")" rest).map (call function [], ·)
    | ts =>
      let ts := ((afterKeyword? "distinct" ts).orElse fun _ => afterKeyword? "all" ts).getD ts
      (readItems fuel ts).map fun r => (call function r.1, r.2)

/-- Reads formulas with commas between them, up to the closing parenthesis. -/
def readItems : Nat → List Token → Option (List Formula × List Token)
  | 0, _ => none
  | fuel + 1, ts =>
    match afterSign? ")" ts with
    | some rest => some ([], rest)
    | none => do
      let (f, rest) ← readFrom fuel Level.either ts
      match rest with
      | .sign "," :: more =>
        if (afterSign? ")" more).isSome then none
        else do
          let (fs, rest) ← readItems fuel more
          return (f :: fs, rest)
      | rest => return ([f], ← afterSign? ")" rest)

/-- Reads a choice behind its first word. -/
def readChoice : Nat → List Token → Option (Formula × List Token)
  | 0, _ => none
  | fuel + 1, ts => do
    let (operand, ts) ← if (afterKeyword? "when" ts).isSome then some (none, ts)
      else (readFrom fuel Level.either ts).map fun r => (some r.1, r.2)
    let (branches, ts) ← readBranches fuel ts
    if branches.isEmpty then none
    else match afterKeyword? "else" ts with
      | some rest => do
        let (f, rest) ← readFrom fuel Level.either rest
        return (choice operand branches (some f), ← afterKeyword? "end" rest)
      | none => return (choice operand branches none, ← afterKeyword? "end" ts)

/-- Reads the branches of a choice. -/
def readBranches : Nat → List Token → Option (List (Formula × Formula) × List Token)
  | 0, _ => none
  | fuel + 1, ts =>
    match afterKeyword? "when" ts with
    | none => some ([], ts)
    | some rest => do
      let (condition, rest) ← readFrom fuel Level.either rest
      let (value, rest) ← readFrom fuel Level.either (← afterKeyword? "then" rest)
      let (more, rest) ← readBranches fuel rest
      return ((condition, value) :: more, rest)

/-- Goes on with operators behind a formula. -/
def extend : Nat → Level → Formula → List Token → Option (Formula × List Token)
  | 0, _, _, _ => none
  | fuel + 1, least, left, ts =>
    match ts with
    | .sign s :: rest =>
      if s = "->" ∨ s = "->>" then
        if Level.joining < least then some (left, ts)
        else do
          let (right, rest) ← readFrom fuel Level.collation rest
          extend fuel least (call s [left, right]) rest
      else match binarySign? s with
        | some (level, op) =>
          if level < least then some (left, ts)
          else do
            let (right, rest) ← readFrom fuel (level + 1) rest
            extend fuel least (binary op left right) rest
        | none => some (left, ts)
    | .word s :: rest =>
      match binaryWord? (plainWord s) with
      | some (level, op) =>
        if level < least then some (left, ts)
        else do
          let (right, rest) ← readFrom fuel (level + 1) rest
          extend fuel least (binary op left right) rest
      | none =>
        if plainWord s = "collate" then
          if Level.collation < least then some (left, ts)
          else match rest with
            | t :: rest => do extend fuel least (collate left (← typeWord? t)) rest
            | [] => none
        else if Level.equality < least then some (left, ts)
        else if plainWord s = "is" then
          let (op, rest) := readIs rest
          do
            let (right, rest) ← readFrom fuel Level.order rest
            extend fuel least (binary (.relation op) left right) rest
        else if plainWord s = "isnull" then extend fuel least (unary .isNull left) rest
        else if plainWord s = "notnull" then extend fuel least (unary .isNotNull left) rest
        else match afterKeyword? "not" ts with
          | none => do
            match ← readTest fuel false left ts with
            | (some f, rest) => extend fuel least f rest
            | (none, _) => some (left, ts)
          | some rest =>
            match afterKeyword? "null" rest with
            | some rest => extend fuel least (unary .isNotNull left) rest
            | none => do
              match ← readTest fuel true left rest with
              | (some f, rest) => extend fuel least f rest
              | (none, _) => none
    | ts => some (left, ts)

/-- Reads a test behind its operand: whether it lies between two others, is among some, or matches a
pattern. There may be none. -/
def readTest : Nat → Bool → Formula → List Token → Option (Option Formula × List Token)
  | 0, _, _, _ => none
  | fuel + 1, negated, left, ts =>
    match ts with
    | .word s :: rest =>
      if plainWord s = "between" then do
        let (low, rest) ← readFrom fuel Level.negation rest
        let (high, rest) ← readFrom fuel Level.order (← afterKeyword? "and" rest)
        return (some (between negated left low high), rest)
      else if plainWord s = "in" then do
        let (items, rest) ← readItems fuel (← afterSign? "(" rest)
        return (some (among negated left items), rest)
      else if matchingWords.contains (plainWord s) then do
        let (pattern, rest) ← readFrom fuel Level.order rest
        match afterKeyword? "escape" rest with
        | none => return (some (negatedIf negated (call s [pattern, left])), rest)
        | some rest => do
          let (escape, rest) ← readFrom fuel Level.order rest
          return (some (negatedIf negated (call s [pattern, left, escape])), rest)
      else some (none, ts)
    | ts => some (none, ts)

end

/-- Reads a formula in parentheses that all tokens belong to. -/
def ofTokens? (ts : List Token) : Option Formula :=
  match (afterSign? "(" ts).bind (readFrom (4 * ts.length + 4) Level.either) with
  | some (f, [.sign ")"]) => some f
  | _ => none

/-- The formula that a text in parentheses is. -/
def ofText? (s : String) : Option Formula := (Token.ofText s).bind ofTokens?

/-- The constant that a single token stands for where no parentheses are. A name stands for
itself. -/
def ofToken? : Token → Option Formula
  | .number s => some (ofNumber s)
  | .text s => some (constant (.text s))
  | .bytes data => some (constant (.blob data))
  | .quotedName s _ => some (constant (.text s))
  | .word s => (ofWord? s).map fun f => match f with
    | name s _ => constant (.text s)
    | f => f
  | _ => none

/-- Whether a text needs parentheses to be the default of a column: it begins with neither a quote
nor a parenthesis, and it is not just a word. -/
def needsParentheses (s : String) : Bool :=
  let first := (s.toList.dropWhile Numeral.isPad).head?
  !first.any (['\'', '"', '('].contains ·) &&
    s.toList.any fun c => !(c.isAlphanum || c = '_' || c.toNat ≥ 128)

/-- The formula that is written as the default of a column. -/
def ofDefault? (s : String) : Option Formula :=
  if needsParentheses s then ofText? ("(" ++ s ++ ")")
  else match Token.ofText s with
    | some [t] => ofToken? t
    | some ts => ofTokens? ts
    | none => none

end RelGraph.Store.Formula
