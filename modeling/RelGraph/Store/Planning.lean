import RelGraph.Sql.Fetch
import RelGraph.Store.Estimate
import RelGraph.Store.Route
/-!
Which route a statement takes through the rows of a table. Every column or group of columns whose
values may not repeat has an index. The tests that all rows have to meet, the order that is asked
for and the columns that are read decide what each way through each index would cost; the cheapest
is taken, the first of those that cost the same.

Whichever route it is, the statement gives the same rows; only rows that no sort key tells apart
change places.
-/
namespace RelGraph.Store

open Sql

namespace Planning

/-! ## What rows are tested for -/

/-- What an index knows of a row: its number, or the cell of a column. -/
inductive Place
  | number
  | column (name : String)
deriving DecidableEq, Repr

/-- The place of a column; the number of a row is none. -/
def placeOf (t : Table) (c : Column) : Place :=
  if isRowNumber t c then .number else .column c.declaration.name

/-- Whether a column may hold no value. -/
def mayBeNull (t : Table) (c : Column) : Bool := c.declaration.nullable && !isRowNumber t c

/-- A test that an index can look rows up by: for one value, which may be written out, for one of
several, for none, for any, or for values above or below one. -/
inductive Test
  | equal (isWritten : Bool)
  | among (count : Nat)
  | null
  | any
  | above
  | below
deriving DecidableEq, Repr

/-- Whether a test leaves the cells of a place apart. -/
def Test.isBound : Test → Bool
  | .any | .above | .below => true
  | _ => false

/-- A condition that all rows have to meet: one that is about no row, one about a place, which may
be such that an index can look rows up by it, or a choice between conditions, each with the terms
that it consists of. -/
inductive Term
  | constant
  | single (place : Place) (test : Option Test)
  | choice (ways : List (Condition × List Term))
deriving Repr, Inhabited

/-- The term of a comparison. -/
def comparisonTerm (t : Table) (c : Column) (op : Operator) (v : Value) : Term :=
  let place := placeOf t c
  let items := v.items?.getD []
  match op with
  | .eq => .single place (some (.equal (v matches .bool _)))
  | .lt | .lte => .single place (some .below)
  | .gt | .gte => .single place (some .above)
  | .inArray =>
    if listsRows c items then .single place none
    else if items.length ≤ 1 then .single place (some (.equal false))
    else .single place (some (.among items.length))
  | .isNull => if mayBeNull t c then .single place (some .null) else .constant
  | .isNotNull => if mayBeNull t c then .single place (some .any) else .constant
  | _ => .single place none

/-- Ways with one more for each that tests for any value alone: it is taken for a lower bound that
no row is above. -/
def withEmptyWays (ways : List (Condition × List Term)) : List (Condition × List Term) :=
  ways ++ ways.reverse.filterMap fun (_, own) =>
    match own with
    | [.single place (some .any)] => some (.any [], [.single place (some .any)])
    | _ => none

mutual

/-- The terms of a condition. -/
def conditionTerms (t : Table) : Condition → List Term
  | .compare c op v => [comparisonTerm t c op v]
  | .all items => conjunctTerms t items
  | .any [c] => conditionTerms t c
  | .any items => [.choice (withEmptyWays (disjunctWays t items))]

/-- The terms of conditions that all have to be met. -/
def conjunctTerms (t : Table) : List Condition → List Term
  | [] => []
  | c :: rest => conditionTerms t c ++ conjunctTerms t rest

/-- The conditions that a condition is a choice between. -/
def conditionWays (t : Table) : Condition → List (Condition × List Term)
  | .compare c op v => [(.compare c op v, [comparisonTerm t c op v])]
  | .any items => disjunctWays t items
  | .all [c] => conditionWays t c
  | .all items => [(.all items, conjunctTerms t items)]

/-- The conditions of which one has to be met. -/
def disjunctWays (t : Table) : List Condition → List (Condition × List Term)
  | [] => []
  | c :: rest => conditionWays t c ++ disjunctWays t rest

end

/-- The term of a join condition. A column that keeps no numbers cannot be looked up by one. -/
def joinTerm (t : Table) (j : Join) : Term :=
  let isApart := (affinityOf j.outer).isNumeric && !(affinityOf j.own).isNumeric
  .single (placeOf t j.own) (if isApart then none else some (.equal false))

mutual

/-- The places that a term is about. -/
def Term.places : Term → List Place
  | .constant => []
  | .single place _ => [place]
  | .choice ways => wayPlaces ways

/-- The places that conditions are about. -/
def wayPlaces : List (Condition × List Term) → List Place
  | [] => []
  | (_, terms) :: rest => termPlaces terms ++ wayPlaces rest

/-- The places that terms are about. -/
def termPlaces : List Term → List Place
  | [] => []
  | term :: rest => term.places ++ termPlaces rest

end

/-- Whether one value is tested for in a place. -/
def Term.isEqualIn (place : Place) : Term → Bool
  | .single other (some (.equal _)) => other = place
  | _ => false

/-- Whether one value is tested for. -/
def Term.isEqual (term : Term) : Bool := term.places.any term.isEqualIn

/-- What an index can look rows up by for a term: its test, or the values of one place that it is a
choice between. -/
def Term.lookup? : Term → Option (Place × Test)
  | .single place test => test.map (place, ·)
  | .choice ((c, [.single place (some (.equal isWritten))]) :: rest) =>
    let ways := (c, [Term.single place (some (.equal isWritten))]) :: rest
    if ways.all fun (_, own) => own.length = 1 && own.all (Term.isEqualIn place) then
      some (place, .among ways.length)
    else none
  | _ => none

/-- Whether a term is a choice. -/
def Term.isChoice : Term → Bool
  | .choice _ => true
  | _ => false

/-- Whether a term is a test by itself. -/
def Term.isTest : Term → Bool
  | .single _ (some test) => test != .any
  | _ => false

/-- Whether an index might be of use for every way of a choice. -/
def areTests (ways : List (Condition × List Term)) : Bool :=
  ways.all fun (_, own) => own.any (·.lookup?.isSome)

/-! ## Indexes -/

/-- An index: its columns, the places by which it orders rows, and what is known of it. -/
structure Index where
  columns : List Column
  places : List Place
  nullable : List Place := []
  isNumber : Bool := false
  isKey : Bool := false
  isCovering : Bool := false
  width : Estimate
deriving Repr, Inhabited

namespace Index

/-- How many columns an index has, the number of the row aside. -/
def size (i : Index) : Nat := i.columns.length

/-- The places by which rows can be looked up: in the index of the key, not by their numbers. -/
def searched (i : Index) : List Place := if i.isKey then i.places.take i.size else i.places

/-- How many rows agree in so many places. -/
def rowsAfter (i : Index) (n : Nat) : Estimate :=
  if n = 0 then Estimate.tableRows
  else if i.isNumber || i.size ≤ n then 0
  else [33, 32, 30, 28, 27].getD (n - 1) 23

end Index

/-- How wide cells of a type are taken to be. -/
def cellWidth (type : ColumnType) : Nat :=
  match type.storage with
  | .text true | .binary true => 5
  | .uuid false => 9
  | .choice _ stored => min 255 ((stored.map String.length).foldl max 0 / 4 + 1)
  | _ => 1

/-- How wide rows of columns are, with places for numbers beside them. -/
def rowWidth (columns : List Column) (numbers : Nat) : Estimate :=
  Estimate.ofCount (4 * columns.foldl (fun width c => width + cellWidth c.declaration.type) numbers)

/-- How wide the rows of a table are. -/
def tableWidth (t : Table) : Estimate :=
  rowWidth t.columns (if t.columns.any (isRowNumber t) then 0 else 1)

/-- The places that a statement reads of a table: a computed cell needs all. -/
def readPlaces (t : Table) (columns : List Column) : List Place :=
  let read := if columns.any (·.declaration.computed.isSome) then t.columns else columns
  read.map (placeOf t)

/-- The indexes of a table for a statement that reads some columns. -/
def indexes (t : Table) (read : List Column) : List Index :=
  let needed := (readPlaces t read).filter (· ≠ .number)
  let groups := (uniqueGroups t).filter fun group =>
    !(group.any (isRowNumber t) && group.length = 1)
  { columns := [], places := [.number], isNumber := true, isCovering := true,
    width := tableWidth t } ::
  groups.map fun group =>
    let places := group.map (placeOf t)
    { columns := group
      places := places ++ [.number]
      nullable := (group.filter (mayBeNull t)).map (placeOf t)
      isKey := group.all (·.declaration.primary)
      isCovering := needed.all places.contains
      width := rowWidth group 1 }

/-! ## Ways through an index -/

/-- A term by which rows may be looked up: its own number, that of the term it follows from, its
place and test. -/
structure Lookup where
  number : Nat
  source : Nat
  place : Place
  test : Test
deriving DecidableEq, Repr

/-- A way through the rows: along an index, with the terms that it looks rows up by, or by a choice.
`sorting` tells apart the indexes that might help with the order. -/
structure Loop where
  index : Option Index := none
  lookups : List Lookup := []
  ways : List (Condition × List Term) := []
  sorting : Nat := 0
  cost : Estimate
  rows : Estimate
deriving Repr, Inhabited

namespace Loop

/-- Whether the rows come along an index beside the table. -/
def isIndexed (l : Loop) : Bool :=
  match l.index with
  | some i => !i.isNumber
  | none => false

/-- Whether all that is needed stands in such an index. -/
def isCovering (l : Loop) : Bool :=
  match l.index with
  | some i => !i.isNumber && i.isCovering
  | none => false

/-- The tests for one value, for several or for none that come first: how many places they settle.
-/
def settled (l : Loop) : List Test := (l.lookups.map (·.test)).filter (!·.isBound)

end Loop

/-- The terms of a statement or of a way of a choice: its own, and those of what the choice stands
in. -/
structure Terms where
  own : List Term
  outer : List Term := []
deriving Repr, Inhabited

namespace Terms

/-- All terms, the own ones first. -/
def all (terms : Terms) : List Term := terms.own ++ terms.outer

/-- The lookups of terms from a number on. Those of terms that are no tests by themselves come last,
under further numbers. -/
def lookupsOf (start : Nat) (terms : List Term) (further : Nat) : List Lookup :=
  let (tests, others) := (terms.zipIdx start).partition fun (term, _) => term.isTest
  let lookup := fun (offset : Nat) ((term, n) : Term × Nat) =>
    term.lookup?.map fun (place, test) => Lookup.mk (offset + n) n place test
  tests.filterMap (lookup 0) ++ others.reverse.filterMap (lookup further)

/-- All lookups. -/
def lookups (terms : Terms) : List Lookup :=
  let count := terms.all.length
  lookupsOf 0 terms.own count ++ lookupsOf terms.own.length terms.outer count

/-- The rows that remain of some when the own terms that are not looked up by are tested, too. -/
def remaining (terms : Terms) (used : List Lookup) (rows : Estimate) : Estimate :=
  let unused := terms.own.zipIdx.filter fun (term, n) =>
    !term.places.isEmpty && !used.any (·.source = n)
  let cut : Int := (unused.map fun (term, _) =>
    match term with
    | .single _ (some (.equal isWritten)) => if isWritten then 10 else 20
    | _ => (0 : Int)).foldl max 0
  min (rows - unused.length) (Estimate.tableRows - cut)

end Terms

/-- The cost of reading some rows of an index. -/
def readingCost (width : Estimate) (i : Index) (rows : Estimate) : Estimate :=
  rows + 1 + 15 * i.width / width

/-- The cost of looking rows up in an index. -/
def lookupCost (width : Estimate) (i : Index) (rows : Estimate) : Estimate :=
  let found := Estimate.plus (Estimate.depth Estimate.tableRows) (readingCost width i rows)
  if i.isCovering then found else Estimate.plus found (rows + 16)

/-- The rows between bounds. A test for any value leaves out no rows by itself. -/
def boundedRows (rows : Estimate) (bounds : List Test) : Estimate :=
  let fewer := rows - 20 * (bounds.filter (· ≠ .any)).length - (if bounds.length = 2 then 20 else 0)
  min (rows - bounds.length) (max fewer 10)

/-- The place of a table with its terms, for which ways are looked for. -/
structure Setting where
  width : Estimate
  indexes : List Index
  order : List (Place × Direction) := []
deriving Repr, Inhabited

/-- Whether an index might help with the order. -/
def Setting.mayOrder (s : Setting) (i : Index) : Bool :=
  s.order.any fun (place, _) => place = .number || i.places.contains place

/-- The loops that look rows up by further places of an index, some of which are settled. -/
def searches (s : Setting) (terms : Terms) (i : Index) (sorting : Nat) (used : List Lookup)
    (rows factor : Estimate) : Nat → List Place → List Loop
  | _, [] => []
  | settled, place :: rest =>
    let loop := fun (used : List Lookup) (rows factor : Estimate) =>
      { index := some i, lookups := used, sorting := sorting
        cost := lookupCost s.width i rows + factor
        rows := terms.remaining used (rows + factor) : Loop }
    let here := terms.lookups.filter (·.place = place)
    here.flatMap fun l =>
      match l.test with
      | .any | .above =>
        loop (used ++ [l]) (boundedRows rows [l.test]) factor ::
          (here.filter (·.test = .below)).map fun upper =>
            loop (used ++ [l, upper]) (boundedRows rows [l.test, .below]) factor
      | .below => [loop (used ++ [l]) (boundedRows rows [.below]) factor]
      | .null | .equal _ | .among _ =>
        let found := rows + (i.rowsAfter (settled + 1) - i.rowsAfter settled) +
          (if l.test = .null then 10 else 0)
        let factor := factor + match l.test with
          | .among n => Estimate.ofCount n
          | _ => 0
        loop (used ++ [l]) found factor ::
          searches s terms i sorting (used ++ [l]) found factor (settled + 1) rest

/-- The cost of coming by all rows of the table along an index: rows that leading terms leave out
need not be looked up. -/
def scanCost (s : Setting) (terms : Terms) (i : Index) : Estimate :=
  let reading := readingCost s.width i Estimate.tableRows
  let covered := terms.own.takeWhile fun term => term.places.all i.places.contains
  let saved := covered.foldl (fun (n : Int) term => n + if term.isEqual then 20 else 1) 0
  if i.isCovering then reading else Estimate.plus reading (Estimate.tableRows + 16 - saved)

/-- The loop over all rows of the table along an index, if it may be of use. -/
def scan? (s : Setting) (terms : Terms) (i : Index) (sorting : Nat) : Option Loop :=
  let rows := terms.remaining [] Estimate.tableRows
  if i.isNumber then
    some { index := some i, sorting := sorting, cost := Estimate.tableRows + 16, rows := rows }
  else if s.mayOrder i || (i.isCovering && i.width < s.width) then
    some { index := some i, sorting := sorting, cost := scanCost s terms i, rows := rows }
  else none

/-- The loops along the indexes. -/
def indexLoops (s : Setting) (terms : Terms) : List Loop :=
  s.indexes.zipIdx.flatMap fun (i, n) =>
    let sorting := if s.mayOrder i then n + 1 else 0
    (scan? s terms i sorting).toList ++
      searches s terms i sorting [] Estimate.tableRows 0 0 i.searched

/-- The cheaper of two ways; the fewest rows that either way gives are taken for it. -/
def cheaper (best : Option (Estimate × Estimate)) (l : Loop) : Option (Estimate × Estimate) :=
  match best with
  | none => some (l.cost, l.rows)
  | some (cost, rows) => if l.cost ≤ cost then some (l.cost, min rows l.rows) else best

mutual

/-- The loops that go by choices among the own terms. -/
def choiceLoops (s : Setting) (terms : Terms) : Nat → List Loop
  | 0 => []
  | depth + 1 => terms.own.zipIdx.filterMap fun (term, n) =>
    match term with
    | .choice ways =>
      if areTests ways then
        (choiceCost s terms.all depth none ways).map fun (cost, rows) =>
          { lookups := [⟨n, n, .number, .null⟩], ways := ways, cost := cost + 1, rows := rows }
      else none
    | _ => none
termination_by depth => (depth, 0)

/-- The cost of going by all ways of a choice after others, and the rows that they give. -/
def choiceCost (s : Setting) (outer : List Term) (depth : Nat)
    (before : Option (Estimate × Estimate)) :
    List (Condition × List Term) → Option (Estimate × Estimate)
  | [] => before
  | (_, own) :: rest =>
    let terms : Terms := ⟨own, outer⟩
    let loops := (indexLoops s terms).filter (!·.lookups.isEmpty) ++ choiceLoops s terms depth
    match loops.foldl cheaper none, before with
    | none, _ => none
    | some best, none => choiceCost s outer depth (some best) rest
    | some (cost, rows), some (sum, others) =>
      choiceCost s outer depth (some (Estimate.plus sum cost, Estimate.plus others rows)) rest
termination_by ways => (depth, ways.length + 1)

end

/-! ## The choice of a loop -/

/-- Whether a loop is cheaper than another one that looks rows up by more terms. -/
def isCheaperPart (a b : Loop) : Bool :=
  a.lookups.length < b.lookups.length &&
    !(b.cost < a.cost && b.rows < a.rows) &&
    a.lookups.all (fun l => b.lookups.any (·.number = l.number)) &&
    (!a.isCovering || b.isCovering)

/-- A loop whose estimates fit to those of loops that look rows up by fewer or more terms. -/
def adjusted (loops : List Loop) (l : Loop) : Loop :=
  if l.isIndexed then
    (loops.filter Loop.isIndexed).foldl (fun l other =>
      if isCheaperPart other l then
        { l with cost := min other.cost l.cost, rows := min (other.rows - 1) l.rows }
      else if isCheaperPart l other then
        { l with cost := max other.cost l.cost, rows := max (other.rows + 1) l.rows }
      else l) l
  else l

/-- Whether a loop is at least as good as another in all respects. -/
def isAsGood (a b : Loop) : Bool :=
  a.sorting = b.sorting && a.cost ≤ b.cost && a.rows ≤ b.rows

/-- Loops with one more, unless there is one that is as good; it takes the place of the first that
it is as good as, and the others go. -/
def withLoop (loops : List Loop) (l : Loop) : List Loop :=
  let l := adjusted loops l
  if loops.any fun other => isAsGood other l then loops
  else
    let kept := loops.takeWhile fun other => !isAsGood l other
    kept ++ l :: (loops.drop kept.length).filter fun other => !isAsGood l other

/-- How far a loop comes by the rows in the order that is asked for. -/
structure Progress where
  met : List Bool
  reversed : Option Bool := none
  isDistinct : Bool := true
  hasNumber : Bool := false
deriving Repr, Inhabited

/-- The sort keys of which the cells are the same for all rows. With `fixing`, values among several
that rows are looked up by count as one. -/
def fixedKeys (order : List (Place × Direction)) (terms : Terms) (l : Loop) (fixing : Bool) :
    List Bool :=
  order.map fun (place, _) => terms.lookups.any fun t =>
    t.place = place && match t.test with
      | .equal _ | .null => true
      | .among _ => fixing && l.lookups.contains t
      | _ => false

/-- Goes on along the places of an index, with the tests that settle the first of them. -/
def follow (order : List (Place × Direction)) (i : Index) (fixing : Bool) :
    Nat → List Test → List Place → Progress → Progress
  | _, _, [], p => p
  | n, tests, place :: rest, p =>
    let isFixed := match tests.head? with
      | some (.equal _) | some .null => true
      | some (.among _) => fixing
      | _ => false
    if isFixed then
      let p := if tests.head? = some .null then { p with isDistinct := false } else p
      follow order i fixing (n + 1) tests.tail rest p
    else
      let p := if tests.isEmpty && i.nullable.contains place then { p with isDistinct := false }
        else p
      match p.met.findIdx? (!·) with
      | some k =>
        match order[k]? with
        | some (wanted, direction) =>
          let backwards := direction == .desc
          if wanted = place && (p.reversed.all (· == backwards)) then
            follow order i fixing (n + 1) tests.tail rest
              { p with met := p.met.set k true, reversed := some backwards,
                       hasNumber := p.hasNumber || place = .number }
          else if n = 0 || n < i.size then { p with isDistinct := false }
          else p
        | none => p
      | none => if n = 0 || n < i.size then { p with isDistinct := false } else p

/-- How many of the sort keys the loop meets, and whether it goes backwards for that. -/
def orderMet (order : List (Place × Direction)) (terms : Terms) (l : Loop) (fixing : Bool) :
    Nat × Bool :=
  match l.index with
  | none => (0, false)
  | some i =>
    let p := follow order i fixing 0 l.settled i.places { met := fixedKeys order terms l fixing }
    let reversed := p.reversed.getD false
    if p.hasNumber || p.isDistinct || p.met.all id then (order.length, reversed)
    else ((p.met.takeWhile id).length, reversed)

/-- The cost of sorting rows by keys of which the first ones are met. -/
def sortingCost (rows : Estimate) (keys met : Nat) : Estimate :=
  let part := if met = 0 then 0 else Estimate.ofCount ((keys - met) * 100 / keys) - 66
  rows + 10 + part + Estimate.depth rows

/-- The cost of a loop with the sorting that is left, for rows of which there are some. -/
def orderedCost (order : List (Place × Direction)) (terms : Terms) (rows : Estimate) (l : Loop) :
    Estimate :=
  let met := (orderMet order terms l false).1
  if met < order.length then Estimate.plus l.cost (sortingCost rows order.length met) + 3
  else l.cost

/-- Whether a loop is to be preferred to another: it costs less, or gives fewer rows at the same
cost, or costs less before sorting if all else is the same. -/
def isPreferred (cost : Loop → Estimate) (a b : Loop) : Bool :=
  ((compare (cost a) (cost b)).then (compare a.rows b.rows)).then (compare a.cost b.cost) == .lt

/-- The first of the loops to which no other is to be preferred. -/
def least (cost : Loop → Estimate) (loops : List Loop) : Option Loop :=
  loops.foldl (fun best l => if best.all (isPreferred cost l) then some l else best) none

/-- The cheapest loop. -/
def cheapest (s : Setting) (terms : Terms) (loops : List Loop) : Option Loop := do
  let first ← least (·.cost) loops
  if s.order.isEmpty then return first
  else least (orderedCost s.order terms (first.rows + 1)) loops

/-- Whether a loop goes backwards. -/
def isReversed (order : List (Place × Direction)) (terms : Terms) (l : Loop) : Bool :=
  let (met, reversed) := orderMet order terms l false
  let looksUpNumbers := match l.index with
    | some i => i.isNumber && l.lookups.any fun t => (t.test matches .among _)
    | none => false
  if met = 0 && !looksUpNumbers then
    let (met, backwards) := orderMet order terms l true
    if met = order.length then backwards else reversed
  else reversed

/-- The route to the rows that meet terms. A choice is gone through way by way, each together with
the other terms that might be of use. -/
def route (s : Setting) : Nat → List Term → Route
  | 0, _ => .byNumber false
  | depth + 1, own =>
    let terms : Terms := { own := own }
    let loops := (indexLoops s terms ++ choiceLoops s terms (depth + 1)).foldl withLoop []
    match cheapest s terms loops with
    | none => .byNumber false
    | some l =>
      match l.index with
      | some i =>
        let reversed := isReversed s.order terms l
        if i.isNumber then .byNumber reversed else .along i.columns reversed
      | none =>
        let chosen := l.lookups.map (·.number)
        let others := (own.zipIdx.filter fun (term, n) => !chosen.contains n &&
          (term.isChoice || term.isTest)).map Prod.fst
        .byCondition (l.ways.map fun (c, terms) =>
          (c, route { s with order := [] } depth (terms ++ others)))

mutual

/-- How many conditions a condition is made of. -/
def conditionSize : Condition → Nat
  | .compare .. => 1
  | .all items | .any items => conditionsSize items + 1

/-- How many conditions there are, with all that they are made of. -/
def conditionsSize : List Condition → Nat
  | [] => 0
  | c :: rest => conditionSize c + conditionsSize rest

end

mutual

/-- The columns that a condition is about. -/
def conditionColumns : Condition → List Column
  | .compare c _ _ => [c]
  | .all items | .any items => conditionsColumns items

/-- The columns that conditions are about. -/
def conditionsColumns : List Condition → List Column
  | [] => []
  | c :: rest => conditionColumns c ++ conditionsColumns rest

end

end Planning

/-- The route to rows of which some columns are shown. -/
def Rows.route (r : Rows) (shown : List Column) : Route :=
  let t := r.table
  let joins := if r.above.isSome then r.joins else []
  let terms := joins.map (Planning.joinTerm t) ++
    (r.condition.elim [] (Planning.conditionTerms t))
  let read := shown ++ joins.map (·.own) ++ r.condition.elim [] Planning.conditionColumns ++
    r.orderBy.map (·.column)
  let setting : Planning.Setting :=
    { width := Planning.tableWidth t
      indexes := Planning.indexes t read
      order := r.orderBy.map fun k => (Planning.placeOf t k.column, k.direction) }
  Planning.route setting ((r.condition.map Planning.conditionSize).getD 0 + 1) terms

end RelGraph.Store
