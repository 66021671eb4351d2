import RelGraph.Store.Formula.Document
import RelGraph.Store.Formula.Layout
import RelGraph.Store.Formula.Moment
/-!
The functions that formulas call. A function has a name, takes so many arguments, and gives the same
for the same arguments unless it is said not to. Functions over many rows are known by name only:
no formula can use them.
-/
namespace RelGraph.Store.Formula

/-- Orders of texts: as they are, with the case of plain letters aside, or with the blanks at the
end aside. -/
inductive Collation
  | binary
  | anyCase
  | anyEnd
deriving DecidableEq, Repr, Inhabited

namespace Collation

/-- The collation with a name. -/
def ofName? (name : String) : Option Collation :=
  match name.map Char.toLower with
  | "binary" => some binary
  | "nocase" => some anyCase
  | "rtrim" => some anyEnd
  | _ => none

/-- A cell as a collation compares it. -/
def key (k : Collation) (c : Cell) : Cell :=
  match k, c with
  | anyCase, .text s => .text (s.map Char.toLower)
  | anyEnd, .text s => .text (String.ofList (Text.trimRight (· = ' ') s.toList))
  | _, c => c

/-- The order of two cells: a collation matters between texts alone. -/
def order (k : Collation) (a b : Cell) : Ordering := (k.key a).order (k.key b)

end Collation

/-! ## Patterns -/

/-- Whether a character stands in a set between brackets, of single characters and ranges; what is
before the set matters where a range begins. -/
def inSet (c : Char) : Option Char → List Char → Bool
  | _, [] => false
  | some low, '-' :: high :: rest => (low ≤ c && c ≤ high) || inSet c none rest
  | _, d :: rest => c = d || inSet c (some d) rest

/-- The set behind an opening bracket: whether it is turned round, its characters, and what follows
it. A closing bracket may stand first. -/
def readSet? (cs : List Char) : Option (Bool × List Char × List Char) :=
  let (turned, cs) := match cs with
    | '^' :: rest => (true, rest)
    | cs => (false, cs)
  let (first, cs) := match cs with
    | ']' :: rest => ([']'], rest)
    | cs => ([], cs)
  match cs.dropWhile (· ≠ ']') with
  | _ :: rest => some (turned, first ++ cs.takeWhile (· ≠ ']'), rest)
  | [] => none

/-- Parts of a pattern. -/
inductive PatternPart
  | anything
  | anyCharacter
  | character (c : Char)
  | set (turned : Bool) (cs : List Char)
deriving DecidableEq, Repr

/-- The parts of a pattern with stars, question marks and sets, if all its sets are closed. The fuel
bounds the length of the pattern. -/
def globParts? : Nat → List Char → Option (List PatternPart)
  | _, [] => some []
  | 0, _ => none
  | fuel + 1, '*' :: rest => (globParts? fuel rest).map (.anything :: ·)
  | fuel + 1, '?' :: rest => (globParts? fuel rest).map (.anyCharacter :: ·)
  | fuel + 1, '[' :: rest => do
    let (turned, cs, rest) ← readSet? rest
    return .set turned cs :: (← globParts? fuel rest)
  | fuel + 1, c :: rest => (globParts? fuel rest).map (.character c :: ·)

/-- The parts of a pattern with percent signs and underscores. What follows the escape is itself. -/
def likeParts (escape : Option Char) : List Char → List PatternPart
  | [] => []
  | c :: rest =>
    if some c = escape then
      match rest with
      | d :: rest => .character d :: likeParts escape rest
      | [] => [.set false []]
    else if c = '%' then .anything :: likeParts escape rest
    else if c = '_' then .anyCharacter :: likeParts escape rest
    else .character c :: likeParts escape rest

/-- Whether a part that stands for one character stands for some. -/
def PatternPart.admits (anyCase : Bool) (p : PatternPart) (c : Char) : Bool :=
  match p with
  | .anything => false
  | .anyCharacter => true
  | .character d => if anyCase then c.toLower = d.toLower else c = d
  | .set turned cs => inSet c none cs != turned

/-- For every suffix of a text, from the whole to the empty one, whether parts match it. -/
def suffixMatches (anyCase : Bool) : List PatternPart → List Char → List Bool
  | [], s => s.map (fun _ => false) ++ [true]
  | .anything :: rest, s =>
    let after := suffixMatches anyCase rest s
    after.reverse.foldl (fun found here => (found.head?.getD false || here) :: found) []
  | p :: rest, s =>
    let after := suffixMatches anyCase rest s
    (s.zip after.tail).map (fun (c, m) => p.admits anyCase c && m) ++ [false]

/-- Whether parts match a text. -/
def partsMatch (anyCase : Bool) (ps : List PatternPart) (s : List Char) : Bool :=
  (suffixMatches anyCase ps s).head?.getD false

/-- The longest pattern in bytes. -/
def patternLimit : Nat := 50000

/-- The truth of a match. Bytes match nothing. -/
def matchResult (parts : List Char → Option (List PatternPart)) (anyCase : Bool)
    (pattern s : Cell) : Except String Cell :=
  let plain := fun (s : String) => s.toList.takeWhile (· ≠ '\x00')
  match pattern, s with
  | .blob _, _ | _, .blob _ => .ok (.integer 0)
  | pattern, s =>
    match pattern.text?, s.text? with
    | some pattern, some s =>
      if pattern.utf8ByteSize > patternLimit then .error "LIKE or GLOB pattern too complex"
      else
        let found := (parts (plain pattern)).any fun ps => partsMatch anyCase ps (plain s)
        .ok (.integer (if found then 1 else 0))
    | _, _ => .ok .null

/-- The truth of a match with a pattern of percent signs and underscores. -/
def likeResult (args : List Cell) : Except String Cell :=
  match args with
  | [pattern, s] => matchResult (fun cs => some (likeParts none cs)) true pattern s
  | [pattern, s, escape] =>
    match escape.text? with
    | none => .ok .null
    | some e =>
      match e.toList with
      | [c] => matchResult (fun cs => some (likeParts (some c) cs)) true pattern s
      | _ => .error "ESCAPE expression must be a single character"
  | _ => .ok .null

/-- The truth of a match with a pattern of stars, question marks and sets. -/
def globResult (args : List Cell) : Except String Cell :=
  match args with
  | [pattern, s] => matchResult (fun cs => globParts? cs.length cs) false pattern s
  | _ => .ok .null

/-! ## Texts -/

/-- The text of an argument; a null has none. -/
def textOf (args : List Cell) (i : Nat) : Option String := (args[i]?).bind Cell.text?

/-- What a function of the characters of a text gives; nothing for a null. -/
def mapText (f : List Char → List Char) (c : Cell) : Cell :=
  match c.text? with
  | some s => .text (String.ofList (f s.toList))
  | none => .null

/-- How long a cell is: the characters of a text, the bytes of bytes. -/
def lengthOf : Cell → Cell
  | .null => .null
  | .text s => .integer (s.toList.takeWhile (· ≠ '\x00')).length
  | .blob data => .integer data.length
  | c => .integer ((c.text?.getD "").length)

/-- The bytes of a cell. -/
def bytesOf : Cell → List UInt8
  | .blob data => data
  | c => (c.text?.getD "").toUTF8.toList

/-- The place where a list occurs in another, from one; zero if it does not. -/
def placeOf {α : Type} [BEq α] (part : List α) : List α → Nat → Nat
  | [], n => if part.isEmpty then n else 0
  | x :: rest, n => if part.isPrefixOf (x :: rest) then n else placeOf part rest (n + 1)

/-- Where a cell occurs in another. -/
def occurrence (c part : Cell) : Cell :=
  match c, part with
  | .null, _ | _, .null => .null
  | .blob data, .blob sub => .integer (placeOf sub data 1)
  | c, part =>
    .integer (placeOf (part.text?.getD "").toList (c.text?.getD "").toList 1)

/-- A list with a part replaced wherever it occurs. The fuel bounds the length. -/
def replaced (part new : List Char) : Nat → List Char → List Char
  | 0, cs => cs
  | _, [] => []
  | fuel + 1, c :: rest =>
    if part.isPrefixOf (c :: rest) then new ++ replaced part new fuel ((c :: rest).drop part.length)
    else c :: replaced part new fuel rest

/-- A text with a part replaced. -/
def replacedText (c part new : Cell) : Cell :=
  match c.text?, part.text?, new.text? with
  | some s, some part, some new =>
    if part.isEmpty then c
    else .text (String.ofList (replaced part.toList new.toList s.length s.toList))
  | _, _, _ => .null

/-- The part of a list from a place on, of a length; places count from one, and from behind the end
where they are negative. A negative length goes to what is before the place. -/
def partOf {α : Type} (items : List α) (start : Int) (length : Option Int) : List α :=
  let count : Int := items.length
  let size := (length.map fun n => (n.natAbs : Int)).getD (Int.pow 2 40)
  let backwards := length.any (· < 0)
  let (start, size) :=
    if start < 0 then
      if start + count < 0 then (0, max 0 (size + (start + count))) else (start + count, size)
    else if start > 0 then (start - 1, size)
    else if size > 0 then (0, size - 1) else (0, size)
  let (start, size) :=
    if backwards then
      if start - size < 0 then (0, start) else (start - size, size)
    else (start, size)
  (items.drop start.toNat).take size.toNat

/-- A cell as a number of thirty-two bits. -/
def shortInteger (c : Cell) : Int := Int.bmod c.toInteger (Nat.pow 2 32)

/-- A part of a text or of bytes. -/
def partOfCell (args : List Cell) : Cell :=
  match args with
  | c :: start :: rest =>
    if start.isNull || rest.any Cell.isNull then .null
    else
      let length := rest.head?.map shortInteger
      match c with
      | .null | .blob [] => .null
      | .blob data => .blob (partOf data (shortInteger start) length)
      | c => mapText (fun cs => partOf cs (shortInteger start) length) c
  | _ => .null

/-- A text without certain characters at its ends. -/
def trimmed (left right : Bool) (args : List Cell) : Cell :=
  match args with
  | [c] => cut c [' ']
  | [c, set] =>
    match set.text? with
    | some set => cut c set.toList
    | none => .null
  | _ => .null
where
  cut (c : Cell) (set : List Char) : Cell :=
    mapText (fun cs =>
      let cs := if left then Text.trimLeft set.contains cs else cs
      if right then Text.trimRight set.contains cs else cs) c

/-- The text of characters with given numbers. -/
def characters (args : List Cell) : Cell :=
  .text (String.ofList (args.map fun c =>
    let n := c.toInteger
    if n < 0 ∨ n > 0x10FFFF then '\uFFFD' else Char.ofNat n.toNat))

/-- The number of the first character. -/
def firstCharacter (c : Cell) : Cell :=
  match (c.text?.getD "").toList with
  | c :: _ => if c = '\x00' then .null else .integer c.toNat
  | [] => .null

/-- The name of a cell's class. -/
def className : Cell → String
  | .null => "null"
  | .integer _ => "integer"
  | .real _ => "real"
  | .text _ => "text"
  | .blob _ => "blob"

/-- Bytes as capital hexadecimal digits. -/
def capitalHex (data : List UInt8) : String := (Text.hexBytes data).map Char.toUpper

/-- A cell as a constant of a formula. -/
def constantText : Cell → String
  | .null => "NULL"
  | .integer n => toString n
  | .real x =>
    if (WrittenNumber.read x.briefText.toList).real = x then x.briefText
    else Place.realText { digits := some 20, exact := true } .exponential false x
  | .text s => "'" ++ String.ofList ((s.toList.takeWhile (· ≠ '\x00')).flatMap fun c =>
      if c = '\'' then [c, c] else [c]) ++ "'"
  | .blob data => "X'" ++ capitalHex data ++ "'"

/-- The class of consonants that a byte stands for; vowels and their like have none. Only the lower
seven bits count. -/
def consonantClass (b : UInt8) : Nat :=
  let classes := ["bfpv", "cgjkqsxz", "dt", "l", "mn", "r"]
  let c := (Char.ofNat (b.toNat % 128)).toLower
  ((classes.findIdx? fun letters => letters.toList.contains c).map (· + 1)).getD 0

/-- The classes of consonants of bytes, each once in a row. -/
def consonants : Nat → List UInt8 → List Nat
  | _, [] => []
  | before, b :: rest =>
    let class_ := consonantClass b
    if class_ > 0 && class_ != before then class_ :: consonants class_ rest
    else consonants class_ rest

/-- How a word sounds: its first letter and three classes of consonants. -/
def soundOf (s : String) : String :=
  match s.toUTF8.toList.dropWhile fun b => !(Char.ofNat b.toNat).isAlpha with
  | [] => "?000"
  | b :: rest =>
    let classes := (consonants (consonantClass b) rest).take 3
    let digits := (classes ++ List.replicate (3 - classes.length) 0).map fun n =>
      Char.ofNat (48 + n)
    String.ofList ((Char.ofNat b.toNat).toUpper :: digits)

/-! ## Numbers -/

/-- The number that an argument is; texts count as far as they are numbers throughout. -/
def numberOf? : Cell → Option Cell
  | .text s =>
    let w := WrittenNumber.read s.toList
    if !w.isNumber then none
    else if w.isPlain && Cell.fits w.integer then some (.integer w.integer)
    else some (Cell.ofReal w.real)
  | .integer n => some (.integer n)
  | .real x => some (.real x)
  | _ => none

/-- The size of a number. -/
def absolute (c : Cell) : Except String Cell :=
  match c with
  | .null => .ok .null
  | .integer n =>
    if n = Cell.leastInteger then .error "integer overflow" else .ok (.integer n.natAbs)
  | c =>
    let x := c.toReal
    .ok (Cell.ofReal (if Place.isBelowZero x then x.negate else x))

/-- The sign of a number. -/
def signOf (c : Cell) : Cell :=
  match numberOf? c with
  | none => .null
  | some c => .integer (match c.order (.integer 0) with
    | .lt => -1
    | .eq => 0
    | .gt => 1)

/-- Whether a double is so large that it has no places behind its point. -/
def isPlaceless (x : Binary64) : Bool :=
  (Binary64.compareRatio? x (-4503599627370496, 1)).any (·.isLT) ||
    (Binary64.compareRatio? x (4503599627370496, 1)).any (·.isGT)

/-- A number rounded to decimal places. -/
def roundedNumber (args : List Cell) : Cell :=
  match args with
  | c :: rest =>
    if c.isNull || rest.any Cell.isNull then .null
    else
      let places := (max 0 (min 30 ((rest.head?.getD .null).toInteger))).toNat
      let x := c.toReal
      if isPlaceless x then Cell.ofReal x
      else if places = 0 then
        let half := Binary64.ofRatio (Place.isBelowZero x) 1 2
        Cell.ofReal (Binary64.ofInt (((x.add half).truncate?).getD 0))
      else Cell.ofReal (Place.roundedTo places x)
  | [] => .null

/-- A whole number next to a number; whole numbers stay as they are. -/
def towards (step : Binary64 → Int) (c : Cell) : Cell :=
  match numberOf? c with
  | some (.real x) =>
    if x.isFinite then
      let n := step x
      Cell.ofReal (if n = 0 then Binary64.zero false else Binary64.ofInt n)
    else .real x
  | some c => c
  | none => .null

/-- The greatest whole number that is not above a double. -/
def floorOf (x : Binary64) : Int := (x.ratio?.map fun (n, d) => Int.fdiv n d).getD 0

/-- The least whole number that is not below a double. -/
def ceilingOf (x : Binary64) : Int := (x.ratio?.map fun (n, d) => -Int.fdiv (-n) d).getD 0

/-- A function of a number. -/
def ofReal (f : Binary64 → Binary64) (c : Cell) : Cell :=
  match numberOf? c with
  | some c => Cell.ofReal (f c.toReal)
  | none => .null

/-- A function of two numbers. -/
def ofReals (f : Binary64 → Binary64 → Binary64) (a b : Cell) : Cell :=
  match numberOf? a, numberOf? b with
  | some a, some b => Cell.ofReal (f a.toReal b.toReal)
  | _, _ => .null

/-- What is left of a double after whole parts of another are taken away. -/
def leftOver (x y : Binary64) : Binary64 :=
  match x.ratio?, y.ratio? with
  | some (n, d), some (m, e) =>
    if m = 0 then .nan
    else
      let left := Int.tmod (n * e) (m * d)
      Binary64.ofSigned left (d * e) (n < 0)
  | some _, none => if y = .nan then .nan else x
  | none, _ => .nan

/-- The ratio of the circumference to the diameter. -/
def pi : Binary64 := Binary64.ofDecimal false 3141592653589793116 (-18)

/-- A logarithm of a number above zero. -/
def logarithm (f : Float → Float) (c : Cell) : Cell :=
  match numberOf? c with
  | some c =>
    if (c.order (.integer 0)).isGT then Cell.ofReal (Binary64.throughMachine f c.toReal) else .null
  | none => .null

/-- The logarithm of a number to a base above one. -/
def logarithmTo (base c : Cell) : Cell :=
  match logarithm Float.log base with
  | .real b =>
    if Place.isBelowZero b || b.isZero then .null
    else
      let x := c.toReal
      if Place.isBelowZero x || x.isZero then .null
      else Cell.ofReal ((Binary64.throughMachine Float.log x).div b)
  | _ => .null

/-- The function of machine numbers with a name. -/
def machineFunction? : String → Option (Float → Float)
  | "acos" => some Float.acos
  | "acosh" => some Float.acosh
  | "asin" => some Float.asin
  | "asinh" => some Float.asinh
  | "atan" => some Float.atan
  | "atanh" => some Float.atanh
  | "cos" => some Float.cos
  | "cosh" => some Float.cosh
  | "exp" => some Float.exp
  | "sin" => some Float.sin
  | "sinh" => some Float.sinh
  | "sqrt" => some Float.sqrt
  | "tan" => some Float.tan
  | "tanh" => some Float.tanh
  | _ => none

/-- What a function of one or two numbers gives. -/
def numberResult? (function : String) (args : List Cell) : Option Cell :=
  match function, args with
  | "ceil", [c] | "ceiling", [c] => some (towards ceilingOf c)
  | "floor", [c] => some (towards floorOf c)
  | "trunc", [c] => some (towards (fun x => (x.truncate?).getD 0) c)
  | "mod", [a, b] => some (ofReals leftOver a b)
  | "pow", [a, b] | "power", [a, b] =>
    some (ofReals (Binary64.throughMachine₂ Float.pow) a b)
  | "atan2", [a, b] => some (ofReals (Binary64.throughMachine₂ Float.atan2) a b)
  | "pi", [] => some (.real pi)
  | "degrees", [c] => some (ofReal (fun x => x.mul ((Binary64.ofInt 180).div pi)) c)
  | "radians", [c] => some (ofReal (fun x => x.mul (pi.div (Binary64.ofInt 180))) c)
  | "ln", [c] => some (logarithm Float.log c)
  | "log", [c] | "log10", [c] => some (logarithm Float.log10 c)
  | "log2", [c] => some (logarithm Float.log2 c)
  | "log", [base, c] => some (logarithmTo base c)
  | function, [c] => (machineFunction? function).map fun f => ofReal (Binary64.throughMachine f) c
  | _, _ => none

/-! ## Moments -/

/-- What a function of moments gives. -/
def momentResult? (function : String) (args : List Cell) : Option Cell :=
  let shown := fun (f : Moment → Option String) =>
    (((Moment.ofArguments args).bind f).map Cell.text).getD .null
  let counted := fun (f : Int → Cell) =>
    (((Moment.ofArguments args).bind (·.count)).map f).getD .null
  match function with
  | "date" => some (shown (·.dateText))
  | "time" => some (shown (·.clockText))
  | "datetime" => some (shown fun m => do return (← m.dateText) ++ " " ++ (← m.clockText))
  | "julianday" => some (counted fun n => Cell.ofReal (Binary64.ofRatio false n.toNat 86400000))
  | "unixepoch" => some (counted fun n => .integer (Int.tdiv n 1000 - 210866760000))
  | "strftime" =>
    match args with
    | [] => some .null
    | layout :: rest =>
      some ((do
        let m ← Moment.ofArguments rest
        let s ← Moment.inLayout Place.generalText (← layout.text?) m
        return Cell.text s).getD .null)
  | "current_date" => some ((Moment.present.dateText.map Cell.text).getD .null)
  | "current_time" => some ((Moment.present.clockText.map Cell.text).getD .null)
  | "current_timestamp" =>
    some ((do return Cell.text ((← Moment.present.dateText) ++ " " ++
      (← Moment.present.clockText))).getD .null)
  | _ => none

/-- Whether a function is one of moments that arguments may ask the present of. -/
def isOfMoments (function : String) : Bool :=
  ["date", "time", "datetime", "julianday", "unixepoch", "strftime"].contains function

/-- Whether a call asks for the present. -/
def asksForPresent (function : String) (args : List Cell) : Bool :=
  isOfMoments function &&
    Moment.asksForPresent (if function = "strftime" then args.drop 1 else args)

/-! ## Documents -/

/-- A document that an argument is; a null is none. -/
def documentOf (c : Cell) : Except String (Option Document) :=
  match c.text? with
  | none => .ok none
  | some s =>
    match Document.ofText? s with
    | some d => .ok (some d)
    | none => .error Document.malformed

/-- A text that is JSON. -/
def jsonText (s : String) : Given := ⟨.text s, true⟩

/-- A document as a text that is JSON. -/
def shownDocument (d : Document) : Except String Given := do return jsonText (← d.render)

/-- The part of a document that a step without its sign leads to: a number is an item, another word
a member. -/
def shortPath (path : String) : String :=
  match path.toList with
  | '$' :: _ => path
  | '[' :: _ => "$" ++ path
  | c :: _ => if c.isDigit then "$[" ++ path ++ "]" else "$." ++ path
  | [] => "$."

/-- The part of a document at a short path, as JSON or as a cell. -/
def partAt (asJson : Bool) (c path : Cell) : Except String Given := do
  match ← documentOf c, path.text? with
  | some d, some path =>
    match ← d.at? (shortPath path) with
    | some part =>
      if asJson then shownDocument part
      else return ⟨(← part.toGiven).cell, false⟩
    | none => return ⟨.null, false⟩
  | _, _ => return ⟨.null, false⟩

/-- The parts of a document at some paths: a single one as it is, several as an array. -/
def partsAt (args : List Cell) : Except String Given := do
  match args with
  | c :: paths =>
    if paths.isEmpty then return ⟨.null, false⟩
    else match ← documentOf c with
      | none => return ⟨.null, false⟩
      | some d =>
        let parts ← paths.mapM fun path => match path.text? with
          | some path => d.at? path
          | none => .ok none
        match parts with
        | [part] => (part.map Document.toGiven).getD (.ok ⟨.null, false⟩)
        | parts => shownDocument (.array (parts.map fun p => p.getD (.word "null")))
  | [] => return ⟨.null, false⟩

/-- The part that the second argument leads to in a document, or the whole of it. -/
def partOrWhole (args : List Cell) : Except String (Option Document) := do
  match ← documentOf (args.head?.getD .null), args[1]? with
  | some d, some path =>
    match path.text? with
    | some path => d.at? path
    | none => return none
  | d, _ => return d

/-- The members of a new object. -/
def newMembers : List Given → Except String (List String)
  | key :: value :: rest => do
    match key.cell with
    | .text s =>
      let value ← Document.ofGiven value
      return (Document.quoted s ++ ":" ++ value) :: (← newMembers rest)
    | _ => .error "json_object() labels must be TEXT"
  | _ => .ok []

/-- A document changed at paths with values, one after the other. -/
def changedAt (replaces adds : Bool) : Document → List Given → Except String Document
  | d, path :: value :: rest => do
    match path.cell.text? with
    | none => changedAt replaces adds d rest
    | some path =>
      let d' ← d.change ⟨replaces, adds, some value⟩ path
      changedAt replaces adds (d'.getD d) rest
  | d, _ => .ok d

/-- The result of changing a document. -/
def changeResult (function : String) (replaces adds : Bool) (args : List Given) :
    Except String Given := do
  match args with
  | g :: rest =>
    if rest.length % 2 = 1 then .error (function ++ "() needs an odd number of arguments")
    else match ← documentOf g.cell with
      | none => return ⟨.null, false⟩
      | some d =>
        match ← changedAt replaces adds d rest with
        | .given g => return g
        | d => shownDocument d
  | [] => .error (function ++ "() needs an odd number of arguments")

/-- A document without the parts at paths. -/
def removedAt : Document → List Cell → Except String (Option Document)
  | d, [] => .ok (some d)
  | d, path :: rest =>
    match path.text? with
    | none => .ok none
    | some path => do
      match ← d.change ⟨true, false, none⟩ path with
      | some d => removedAt d rest
      | none => return none

/-- What a function of documents gives. -/
def documentResult? (function : String) (args : List Given) : Option (Except String Given) :=
  let cells := args.map (·.cell)
  let first := cells.head?.getD .null
  let shown := fun (d : Option Document) => match d with
    | some d => shownDocument d
    | none => .ok ⟨.null, false⟩
  match function with
  | "json" => some (do shown (← documentOf first))
  | "json_valid" => some (.ok ⟨match first.text? with
      | none => .null
      | some s => .integer (if (Document.ofText? s).isSome then 1 else 0), false⟩)
  | "json_quote" => some (do return jsonText (← Document.ofGiven (args.head?.getD default)))
  | "json_array" => some (do
      return jsonText ("[" ++ String.intercalate "," (← args.mapM Document.ofGiven) ++ "]"))
  | "json_object" => some (do
      if args.length % 2 = 1 then .error "json_object() requires an even number of arguments"
      else return jsonText ("\x7b" ++ String.intercalate "," (← newMembers args) ++ "\x7d"))
  | "json_type" => some (do
      return ⟨((← partOrWhole cells).map fun d => Cell.text d.typeName).getD .null, false⟩)
  | "json_array_length" => some (do
      return ⟨match ← partOrWhole cells with
        | some (.array items) => .integer items.length
        | some _ => .integer 0
        | none => .null, false⟩)
  | "json_extract" => some (partsAt cells)
  | "->" => some (partAt true first ((cells[1]?).getD .null))
  | "->>" => some (partAt false first ((cells[1]?).getD .null))
  | "json_insert" => some (changeResult function false true args)
  | "json_replace" => some (changeResult function true false args)
  | "json_set" => some (changeResult function true true args)
  | "json_remove" => some (do
      match ← documentOf first with
      | some d => shown (← removedAt d (cells.drop 1))
      | none => return ⟨.null, false⟩)
  | "json_patch" => some (do
      match ← documentOf first, ← documentOf ((cells[1]?).getD .null) with
      | some d, some patch => shownDocument (Document.merged patch d)
      | _, _ => return ⟨.null, false⟩)
  | _ => none

/-! ## All functions -/

/-- What a function takes: the least and the greatest number of arguments, and whether it gives the
same for the same. -/
structure Signature where
  function : String
  least : Nat
  most : Option Nat
  isPure : Bool := true
deriving Repr, Inhabited

/-- The functions of single rows. -/
def signatures : List Signature :=
  let exactly := fun (count : Nat) (functions : List String) =>
    functions.map fun f => Signature.mk f count (some count) true
  let any := fun (least : Nat) (functions : List String) =>
    functions.map fun f => Signature.mk f least none true
  exactly 0 ["pi"] ++
  exactly 1 ["abs", "hex", "length", "likely", "unlikely", "lower", "upper", "quote", "sign",
    "soundex", "typeof", "unicode", "zeroblob", "ceil", "ceiling", "floor", "trunc", "degrees",
    "radians", "ln", "log10", "log2", "acos", "acosh", "asin", "asinh", "atan", "atanh", "cos",
    "cosh", "exp", "sin", "sinh", "sqrt", "tan", "tanh", "json", "json_valid", "json_quote"] ++
  exactly 2 ["glob", "ifnull", "instr", "likelihood", "nullif", "mod", "pow", "power", "atan2",
    "->", "->>", "json_patch"] ++
  exactly 3 ["iif", "replace"] ++
  any 0 ["char", "date", "time", "datetime", "julianday", "unixepoch", "strftime", "format",
    "printf", "json_array", "json_object", "json_extract", "json_insert", "json_replace",
    "json_set", "json_remove"] ++
  any 2 ["coalesce", "max", "min"] ++
  [⟨"like", 2, some 3, true⟩, ⟨"log", 1, some 2, true⟩, ⟨"round", 1, some 2, true⟩,
    ⟨"substr", 2, some 3, true⟩, ⟨"substring", 2, some 3, true⟩, ⟨"trim", 1, some 2, true⟩,
    ⟨"ltrim", 1, some 2, true⟩, ⟨"rtrim", 1, some 2, true⟩, ⟨"json_type", 1, some 2, true⟩,
    ⟨"json_array_length", 1, some 2, true⟩, ⟨"current_date", 0, some 0, false⟩,
    ⟨"current_time", 0, some 0, false⟩, ⟨"current_timestamp", 0, some 0, false⟩,
    ⟨"random", 0, some 0, false⟩, ⟨"randomblob", 1, some 1, false⟩, ⟨"changes", 0, some 0, false⟩,
    ⟨"total_changes", 0, some 0, false⟩, ⟨"last_insert_rowid", 0, some 0, false⟩,
    ⟨"sqlite_version", 0, some 0, false⟩, ⟨"sqlite_source_id", 0, some 0, false⟩,
    ⟨"sqlite_compileoption_used", 1, some 1, false⟩,
    ⟨"sqlite_compileoption_get", 1, some 1, false⟩]

/-- Whether a function takes a number of arguments. -/
def Signature.takes (s : Signature) (count : Nat) : Bool :=
  s.least ≤ count && s.most.all (count ≤ ·)

/-- The signature of a function for a number of arguments. -/
def signature? (function : String) (count : Nat) : Option Signature :=
  signatures.find? fun s => s.function = function.map Char.toLower && s.takes count

/-- The greatest or the least of some cells; of equal ones the first is the greatest and the last
the least. -/
def extreme (k : Collation) (greatest : Bool) (args : List Cell) : Cell :=
  if args.any Cell.isNull then .null
  else match args with
    | [] => .null
    | c :: rest => rest.foldl (fun best c =>
        let o := k.order c best
        if (if greatest then o.isGT else o.isLE) then c else best) c

/-- What a function gives for its arguments, all of which are at hand. -/
def functionResult (k : Collation) (function : String) (args : List Given) :
    Except String Given :=
  let cells := args.map (·.cell)
  let first := cells.head?.getD .null
  let second := (cells[1]?).getD .null
  let plain := fun (c : Cell) => Except.ok (Given.mk c false)
  match function with
  | "abs" => do return ⟨← absolute first, false⟩
  | "char" => plain (characters cells)
  | "format" | "printf" =>
    plain (((cells.head?.bind Cell.text?).bind fun layout =>
      (Place.layoutText layout (cells.drop 1)).map Cell.text).getD .null)
  | "glob" => do return ⟨← globResult cells, false⟩
  | "like" => do return ⟨← likeResult cells, false⟩
  | "hex" => plain (.text (capitalHex (bytesOf first)))
  | "instr" => plain (occurrence first second)
  | "length" => plain (lengthOf first)
  | "likelihood" | "likely" | "unlikely" => .ok (args.head?.getD default)
  | "lower" => plain (mapText (·.map Char.toLower) first)
  | "upper" => plain (mapText (·.map Char.toUpper) first)
  | "trim" => plain (trimmed true true cells)
  | "ltrim" => plain (trimmed true false cells)
  | "rtrim" => plain (trimmed false true cells)
  | "max" => plain (extreme k true cells)
  | "min" => plain (extreme k false cells)
  | "nullif" => plain (if (k.order first second).isEq then .null else first)
  | "quote" => plain (.text (constantText first))
  | "replace" => plain (replacedText first second ((cells[2]?).getD .null))
  | "round" => plain (roundedNumber cells)
  | "sign" => plain (signOf first)
  | "soundex" => plain (.text (soundOf (first.text?.getD "")))
  | "substr" | "substring" => plain (partOfCell cells)
  | "typeof" => plain (.text (className first))
  | "unicode" => plain (firstCharacter first)
  | "zeroblob" | "randomblob" =>
    let count := first.toInteger.toNat
    if count > 1000000000 then .error "string or blob too big"
    else plain (.blob (List.replicate count 0))
  | "random" | "changes" | "total_changes" | "last_insert_rowid" | "sqlite_compileoption_used" =>
    plain (.integer 0)
  | "sqlite_version" => plain (.text "3.40.1")
  | "sqlite_source_id" | "sqlite_compileoption_get" => plain .null
  | function =>
    match numberResult? function cells, momentResult? function cells with
    | some c, _ | none, some c => plain c
    | none, none => (documentResult? function args).getD (plain .null)

end RelGraph.Store.Formula
