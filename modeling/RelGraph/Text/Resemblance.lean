import RelGraph.Text.LowerCase
/-!
Resemblance of names: how many characters have to be put in, taken out, changed, or exchanged with
their neighbour to turn one into the other. Names that differ in case only are one step apart.
-/
namespace RelGraph.Text

/-- The distances of one more character of a name from every beginning of another name: `before` and
`above` hold those of the name without its last two characters and without its last. -/
def nextRow (other : Array Char) (last : Option Char) (c : Char) (before above : Array Nat)
    (first : Nat) : Array Nat :=
  (List.range other.size).foldl (fun row j =>
    let at? := fun (cells : Array Nat) (i : Nat) => cells.getD i 0
    let d := other.getD j c
    let changed := at? above j + (if c = d then 0 else 1)
    let cell := min (min (at? above (j + 1) + 1) (at? row j + 1)) changed
    let crossed := 1 ≤ j && other[j - 1]? = some c && last = some d
    row.push (if crossed then min cell (at? before (j - 1) + 1) else cell)) #[first]

/-- The distance of two names, unless it is beyond a limit all the way. -/
def distanceWithin (limit : Nat) (other : Array Char) :
    List Char → Option Char → Array Nat → Array Nat → Nat → Option Nat
  | [], _, _, above, _ =>
    let found := above.getD other.size 0
    if found ≤ limit then some found else none
  | c :: rest, last, before, above, n =>
    let row := nextRow other last c before above (n + 1)
    if row.all (limit < ·) then none
    else distanceWithin limit other rest (some c) above row (n + 1)

/-- How far two names are apart, unless it is beyond a limit. -/
def distance? (limit : Nat) (a b : String) : Option Nat :=
  let x := (lower a).toList
  let y := (lower b).toList
  if a = b then some 0
  else if x = y then some 1
  else
    let (long, short) := if y.length < x.length then (x, y) else (y, x)
    if limit < long.length - short.length then none
    else distanceWithin limit short.toArray long none #[] (List.range (short.length + 1)).toArray 0

/-- The names that resemble a given one, the nearest first. -/
def resembling (name : String) (names : List String) : List String :=
  let limit := name.length * 2 / 5 + 1
  let near := names.filterMap fun other => (distance? limit name other).map (·, other)
  let inFront := fun (a b : Nat × String) => a.1 < b.1 || a.1 = b.1 && decide (a.2 ≤ b.2)
  (near.mergeSort inFront).map Prod.snd

/-- Names in quotes with a word before the last, five at most. -/
def alternatives (names : List String) : String :=
  let quoted := (names.take 5).map fun name => "'" ++ name ++ "'"
  match quoted.reverse with
  | [] => ""
  | [one] => one
  | [second, first] => first ++ " or " ++ second
  | last :: others => String.intercalate ", " others.reverse ++ ", or " ++ last

/-- The question whether one of some names was meant; nothing when there is none. -/
def question (kind : String) (names : List String) : String :=
  if names.isEmpty then "" else " Did you mean " ++ kind ++ alternatives names ++ "?"

end RelGraph.Text
