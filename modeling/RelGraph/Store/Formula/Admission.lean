import RelGraph.Sql.Fragment
import RelGraph.Store.Formula.Evaluation
import RelGraph.Store.Formula.Reader
/-!
Which formulas a table takes. The default of a column speaks of no column; its functions are not
looked at before it is needed. What a column is computed by may speak of the columns of the table,
and calls functions that are known and give the same at all times.
-/
namespace RelGraph.Store.Formula

mutual

/-- The names that a formula speaks of. -/
def names : Formula → List String
  | constant _ | wideNumber _ | truth _ => []
  | name s _ => [s]
  | unary _ f | cast f _ | collate f _ => names f
  | binary _ l r => names l ++ names r
  | between _ f l h => names f ++ names l ++ names h
  | among _ f items => names f ++ namesOfAll items
  | choice f branches otherwise => namesIn f ++ namesOfBranches branches ++ namesIn otherwise
  | call _ args => namesOfAll args

/-- The names that some formulas speak of. -/
def namesOfAll : List Formula → List String
  | [] => []
  | f :: rest => names f ++ namesOfAll rest

/-- The names that a formula speaks of, if there is one. -/
def namesIn : Option Formula → List String
  | none => []
  | some f => names f

/-- The names that branches speak of. -/
def namesOfBranches : List (Formula × Formula) → List String
  | [] => []
  | (c, v) :: rest => names c ++ names v ++ namesOfBranches rest

end

/-- Whether two names are the same, the case of plain letters aside. -/
def sameName (a b : String) : Bool := a.map Char.toLower == b.map Char.toLower

/-- What a name stands for among columns: a column, or a text if it is between double quotes. -/
def placed? (columns : List String) (s : String) (doubleQuoted : Bool) : Option Formula :=
  match columns.find? (sameName s) with
  | some column => some (name column false)
  | none => if doubleQuoted then some (constant (.text s)) else none

/-- A test whether an operand is a truth, which does not compare it. -/
def truthTest (op : Binary) (l r : Formula) : Formula :=
  match op, r with
  | .relation .same, truth b => unary (.isTruth b) l
  | .relation .different, truth b => unary (.isNotTruth b) l
  | op, r => binary op l r

/-- Whether a call is one that gives the same at all times. -/
def isLastingCall (function : String) (args : List Formula) : Bool :=
  (signature? function args.length).any (·.isPure) &&
    (function.map Char.toLower != "likelihood" ||
      match args with
      | [_, constant (.real x)] => (Binary64.compareRatio? x (0, 1)).any (·.isGE) &&
          (Binary64.compareRatio? x (1, 1)).any (·.isLE)
      | _ => false)

mutual

/-- A formula about columns, if it is one that can compute a column. -/
def resolved? (columns : List String) : Formula → Option Formula
  | constant c => some (constant c)
  | wideNumber _ => none
  | truth b => some (truth b)
  | name s doubleQuoted => placed? columns s doubleQuoted
  | unary op f => (resolved? columns f).map (unary op)
  | binary op l r => do return truthTest op (← resolved? columns l) (← resolved? columns r)
  | between negated f l h => do
    return between negated (← resolved? columns f) (← resolved? columns l) (← resolved? columns h)
  | among negated f items => do
    return among negated (← resolved? columns f) (← resolvedAll? columns items)
  | choice f branches otherwise => do
    return choice (← resolvedOption? columns f) (← resolvedBranches? columns branches)
      (← resolvedOption? columns otherwise)
  | cast f a => (resolved? columns f).map (cast · a)
  | collate f k => (resolved? columns f).map (collate · k)
  | call function args =>
    if isLastingCall function args then (resolvedAll? columns args).map (call function) else none

/-- Formulas about columns. -/
def resolvedAll? (columns : List String) : List Formula → Option (List Formula)
  | [] => some []
  | f :: rest => do return (← resolved? columns f) :: (← resolvedAll? columns rest)

/-- A formula about columns, if there is one. -/
def resolvedOption? (columns : List String) : Option Formula → Option (Option Formula)
  | none => some none
  | some f => (resolved? columns f).map some

/-- Branches about columns. -/
def resolvedBranches? (columns : List String) :
    List (Formula × Formula) → Option (List (Formula × Formula))
  | [] => some []
  | (c, v) :: rest => do
    return (← resolved? columns c, ← resolved? columns v) :: (← resolvedBranches? columns rest)

end

/-- The formula of the default of a column, if it is one that a table takes. -/
def default? (written : String) : Option Formula :=
  (ofDefault? (Sql.fragmentText written)).filter fun f => (names f).isEmpty

/-- The formula that a column is computed by, if it is one that a table takes. -/
def computed? (columns : List String) (written : String) : Option Formula :=
  (ofText? ("(" ++ Sql.fragmentText written ++ ")")).bind (resolved? columns)

end RelGraph.Store.Formula
