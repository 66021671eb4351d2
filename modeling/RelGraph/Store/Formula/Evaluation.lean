import RelGraph.Store.Formula.Function
import RelGraph.Store.Truth
/-!
The value of formulas. Names stand for cells of a row; a comparison gives its operands the affinity
of columns and casts, and compares texts in the order that one of them asks for. What is not needed
of a choice is not reckoned. A formula is first checked for functions and orders that nobody knows.
-/
namespace RelGraph.Store.Formula

/-- What a formula is about: the cells and the affinities of columns, and whether the value has to
be the same at all times. -/
structure Surroundings where
  cell : String → Cell := fun _ => .null
  affinity : String → Affinity := fun _ => .none
  isLasting : Bool := false
deriving Inhabited

/-- The affinity of a formula; only columns and casts have one. -/
def affinity (s : Surroundings) : Formula → Affinity
  | name column _ => s.affinity column
  | cast _ a => a
  | collate f _ => affinity s f
  | _ => .none

mutual

/-- The order of texts that a formula asks for anywhere, the leftmost. -/
def collation? : Formula → Option String
  | constant _ | wideNumber _ | truth _ | name _ _ => none
  | unary _ f | cast f _ => collation? f
  | collate _ k => some k
  | binary _ l r => (collation? l).or (collation? r)
  | between _ f l h => ((collation? f).or (collation? l)).or (collation? h)
  | among _ f items => (collation? f).or (firstCollation? items)
  | choice f branches otherwise =>
    (optionCollation? f).or ((branchCollation? branches).or (optionCollation? otherwise))
  | call _ args => firstCollation? args

/-- The leftmost order that some formulas ask for. -/
def firstCollation? : List Formula → Option String
  | [] => none
  | f :: rest => (collation? f).or (firstCollation? rest)

/-- The order that a formula asks for, if there is one. -/
def optionCollation? : Option Formula → Option String
  | none => none
  | some f => collation? f

/-- The leftmost order that branches ask for. -/
def branchCollation? : List (Formula × Formula) → Option String
  | [] => none
  | (c, v) :: rest => (collation? c).or ((collation? v).or (branchCollation? rest))

end

/-- The order of texts with a name; plain where none is asked for. -/
def collationOf (asked : Option String) : Collation :=
  (asked.bind Collation.ofName?).getD .binary

/-! ## Checking -/

/-- What is wrong with a call of a function that nobody knows. -/
def unknownFunction (function : String) (count : Nat) : Option String :=
  if (signature? function count).isSome then none
  else if function.map Char.toLower = "match" && count = 2 then
    some "unable to use function MATCH in the requested context"
  else some s!"unknown function: {function}()"

/-- What is wrong with an order of texts that nobody knows. -/
def unknownCollation (asked : Option String) : Option String :=
  asked.bind fun k =>
    if (Collation.ofName? k).isSome then none else some s!"no such collation sequence: {k}"

mutual

/-- What a formula cannot be reckoned for, if anything. -/
def flaw? : Formula → Option String
  | constant _ | truth _ | name _ _ => none
  | wideNumber s => some s!"hex literal too big: {s}"
  | unary _ f | cast f _ | collate f _ => flaw? f
  | binary (.relation _) l r =>
    ((flaw? l).or (flaw? r)).or (unknownCollation ((collation? l).or (collation? r)))
  | binary _ l r => (flaw? l).or (flaw? r)
  | between _ f l h =>
    (((flaw? f).or (flaw? l)).or (flaw? h)).or
      ((unknownCollation ((collation? f).or (collation? l))).or
        (unknownCollation ((collation? f).or (collation? h))))
  | among _ f items => ((flaw? f).or (firstFlaw? items)).or (unknownCollation (collation? f))
  | choice f branches otherwise =>
    (optionFlaw? f).or ((branchFlaw? branches).or (optionFlaw? otherwise))
  | call function args =>
    (unknownFunction function args.length).or (firstFlaw? args)

/-- The first flaw of some formulas. -/
def firstFlaw? : List Formula → Option String
  | [] => none
  | f :: rest => (flaw? f).or (firstFlaw? rest)

/-- The flaw of a formula, if there is one. -/
def optionFlaw? : Option Formula → Option String
  | none => none
  | some f => flaw? f

/-- The first flaw of branches. -/
def branchFlaw? : List (Formula × Formula) → Option String
  | [] => none
  | (c, v) :: rest => (flaw? c).or ((flaw? v).or (branchFlaw? rest))

end

/-! ## Reckoning -/

/-- A truth as a cell. -/
def cellOfTruth : Truth → Cell
  | some b => .integer (if b then 1 else 0)
  | none => .null

/-- What an operator with one operand gives. -/
def unaryResult (op : Unary) (c : Cell) : Cell :=
  match op with
  | .plus => c
  | .minus => if c.isNull then .null else Arithmetic.result .subtract (.integer 0) c
  | .complement => if c.isNull then .null else .integer (-c.toInteger - 1)
  | .not => cellOfTruth (Truth.negate c.isTrue?)
  | .isNull => cellOfTruth (some c.isNull)
  | .isNotNull => cellOfTruth (some (!c.isNull))
  | .isTruth value => cellOfTruth (some (c.isTrue? == some value))
  | .isNotTruth value => cellOfTruth (some (c.isTrue? != some value))

/-- Whether an order is what a relation asks for. -/
def Relation.holds (r : Relation) (o : Ordering) : Bool :=
  match r with
  | equal | same => o.isEq
  | unequal | different => !o.isEq
  | less => o.isLT
  | atMost => o.isLE
  | greater => o.isGT
  | atLeast => o.isGE

/-- What a relation gives for two cells with affinities. -/
def Relation.result (r : Relation) (k : Collation) (a b : Affinity) (x y : Cell) : Truth :=
  match r, x.isNull || y.isNull with
  | same, true => some (x.isNull && y.isNull)
  | different, true => some (!(x.isNull && y.isNull))
  | _, true => none
  | r, false =>
    let (x, y) := Affinity.meet a b x y
    some (r.holds (k.order x y))

/-- What a test for being among some cells gives. -/
def amongResult (k : Collation) (a : Affinity) (x : Cell) (items : List Cell) : Truth :=
  Truth.any (items.map fun y => Relation.result .equal k a .none x y)

/-- The opposite of a truth where it is to be negated. -/
def truthIf (negated : Bool) (t : Truth) : Truth := if negated then t.negate else t

/-- The functions that take the first of their arguments that serves. -/
def isLazy (function : String) : Bool :=
  ["coalesce", "ifnull", "iif"].contains (function.map Char.toLower)

/-- What is said of a function that is asked for the present where the value has to last. -/
def lastingFault (function : String) : String :=
  s!"non-deterministic use of {function.map Char.toLower}() in a generated column"

mutual

/-- The value of a formula. -/
def value (s : Surroundings) : Formula → Except String Given
  | constant c => .ok ⟨c, false⟩
  | wideNumber _ => .ok ⟨.null, false⟩
  | truth b => .ok ⟨.integer (if b then 1 else 0), false⟩
  | name column _ => .ok ⟨s.cell column, false⟩
  | unary .plus f => value s f
  | unary op f => do return ⟨unaryResult op (← value s f).cell, false⟩
  | binary op l r => do
    let x := (← value s l).cell
    let y := (← value s r).cell
    return ⟨match op with
      | .both => cellOfTruth (Truth.both x.isTrue? y.isTrue?)
      | .either => cellOfTruth (Truth.either x.isTrue? y.isTrue?)
      | .arithmetic op => op.result x y
      | .relation op =>
        cellOfTruth (op.result (collationOf ((collation? l).or (collation? r)))
          (affinity s l) (affinity s r) x y), false⟩
  | between negated f low high => do
    let x := (← value s f).cell
    let y := (← value s low).cell
    let z := (← value s high).cell
    let relate := fun (op : Relation) (g : Formula) (c : Cell) =>
      op.result (collationOf ((collation? f).or (collation? g))) (affinity s f) (affinity s g) x c
    return ⟨cellOfTruth (truthIf negated
      (Truth.both (relate .atLeast low y) (relate .atMost high z))), false⟩
  | among negated f items => do
    let x := (← value s f).cell
    let cells ← values s items
    return ⟨cellOfTruth (truthIf negated
      (amongResult (collationOf (collation? f)) (affinity s f) x (cells.map (·.cell)))), false⟩
  | choice none branches otherwise => do
    match ← chosenBranch s branches with
    | some g => return g
    | none => valueOrNull s otherwise
  | choice (some f) branches otherwise => do
    let x := (← value s f).cell
    let admits := fun (c : Formula) (y : Cell) =>
      (Relation.result .equal (collationOf ((collation? f).or (collation? c)))
        (affinity s f) (affinity s c) x y) == some true
    match ← matchedBranch s admits branches with
    | some g => return g
    | none => valueOrNull s otherwise
  | cast f a => do return ⟨((← value s f).cell).cast a, false⟩
  | collate f _ => value s f
  | call function args =>
    if isLazy function then firstServing s (function.map Char.toLower = "iif") args
    else do
      let given ← values s args
      if s.isLasting && asksForPresent (function.map Char.toLower) (given.map (·.cell)) then
        .error (lastingFault function)
      else functionResult (collationOf (firstCollation? args)) (function.map Char.toLower) given

/-- The values of formulas. -/
def values (s : Surroundings) : List Formula → Except String (List Given)
  | [] => .ok []
  | f :: rest => do
    let g ← value s f
    return g :: (← values s rest)

/-- The value of a formula; null if there is none. -/
def valueOrNull (s : Surroundings) : Option Formula → Except String Given
  | none => .ok ⟨.null, false⟩
  | some f => value s f

/-- The value of the first branch whose condition holds. -/
def chosenBranch (s : Surroundings) : List (Formula × Formula) → Except String (Option Given)
  | [] => .ok none
  | (c, v) :: rest => do
    if (← value s c).cell.isTrue? == some true then return some (← value s v)
    else chosenBranch s rest

/-- The value of the first branch whose condition is what is compared. -/
def matchedBranch (s : Surroundings) (admits : Formula → Cell → Bool) :
    List (Formula × Formula) → Except String (Option Given)
  | [] => .ok none
  | (c, v) :: rest => do
    if admits c (← value s c).cell then return some (← value s v)
    else matchedBranch s admits rest

/-- The value of the first argument that serves: that is not null, or the one that a condition
before the others chooses. -/
def firstServing (s : Surroundings) (byCondition : Bool) : List Formula → Except String Given
  | [] => .ok ⟨.null, false⟩
  | f :: rest => do
    let g ← value s f
    if byCondition then
      match rest with
      | [yes, no] => if g.cell.isTrue? == some true then value s yes else value s no
      | _ => return ⟨.null, false⟩
    else if g.cell.isNull then firstServing s false rest
    else return g

end

end RelGraph.Store.Formula
