import RelGraph.Schema.Declaration
/-!
Relationships of mapped classes. The foreign keys between two tables say how a relationship joins
them: exactly one key has to fit, in either direction, and a list of referring columns may pick it.
A relationship leads to one row where its owner refers, and to many rows where the other table does;
a table that refers to itself leads to many rows unless the referred column is said to be the far
side. All classes are looked at together, so a relationship that cannot be joined spoils them all.
-/
namespace RelGraph

/-- How many rows stand on either side of a relationship. -/
inductive JoinDirection
  | manyToOne
  | oneToMany
  | manyToMany
deriving DecidableEq, Repr, Inhabited

/-- A relationship with the way in which it joins two tables: pairs of own and far column. -/
structure JoinedRelationship where
  owner : TableDeclaration
  target : TableDeclaration
  relationship : Relationship
  direction : JoinDirection
  pairs : List (String × String)
deriving Repr, Inhabited

namespace JoinedRelationship

/-- Whether the relationship leads to many rows. -/
def toMany (j : JoinedRelationship) : Bool :=
  j.direction != .manyToOne && j.relationship.toMany.getD true

end JoinedRelationship

/-- One way to join two tables: pairs of referred and referring column, with all referring columns
of the foreign key behind them. -/
structure JoinWay where
  pairs : List (ColumnRef × ColumnRef)
  referring : List ColumnRef
deriving DecidableEq, Repr, Inhabited

/-- One side of a comparison of columns: whether it refers, and whether it is the far one. -/
structure JoinSide where
  column : ColumnRef
  refers : Bool := false
  isFar : Bool := false
deriving DecidableEq, Repr, Inhabited

namespace Relationship

/-- The pairs of a foreign key in the order of the referring columns. -/
def inColumnOrder (t : TableDeclaration) (k : ForeignKey) : List (String × Reference) :=
  t.columns.flatMap fun c => k.pairs.filter (·.1 = c.key)

/-- The pair that a reference makes towards a table, if it leads there. -/
def pairTo (holder other : TableDeclaration) (p : String × Reference) :
    Attempt (Option (ColumnRef × ColumnRef)) :=
  match p.2 with
  | .column ref =>
    .ok (if ref.table = other.name then some (ref, ⟨holder.name, p.1⟩) else none)
  | .missingColumn table => do
    if table = other.name then let _ ← p.2.resolve
    return none
  | .missingTable => .ok none

/-- The ways in which a table refers to another, by the referring columns that are picked; all are
when none is. -/
def waysFrom (picked : List ColumnRef) (holder other : TableDeclaration) :
    Attempt (List JoinWay) := do
  let ways ← holder.keys.mapM fun k => do
    let admitted := (inColumnOrder holder k).filter fun p =>
      picked.isEmpty || picked.contains ⟨holder.name, p.1⟩
    let pairs ← admitted.mapM (pairTo holder other)
    return JoinWay.mk pairs.reduceOption (k.pairs.map fun p => ⟨holder.name, p.1⟩)
  return ways.filter (!·.pairs.isEmpty)

/-- The ways to join two tables, in either direction. -/
def ways (picked : List ColumnRef) (owner target : TableDeclaration) : Attempt (List JoinWay) := do
  let there ← waysFrom picked target owner
  let here ← if owner.name = target.name then pure [] else waysFrom picked owner target
  return there ++ here

/-- Whether two lists hold the same columns. -/
def sameColumns (a b : List ColumnRef) : Bool := a.all (b.contains ·) && b.all (a.contains ·)

/-- The only way among several: those whose referring columns are just the picked ones count, and
equal ways count once. -/
def onlyWay (picked : List ColumnRef) (found : List JoinWay) :
    Attempt (List (ColumnRef × ColumnRef)) :=
  match found with
  | [] => Attempt.mishap (.misdeclared .joinMissing)
  | [way] => .ok way.pairs
  | several =>
    let kept := if picked.isEmpty then several
      else several.filter fun w => sameColumns w.referring picked
    match (kept.map (·.pairs)).eraseDups with
    | [pairs] => .ok pairs
    | _ => Attempt.mishap (.misdeclared .joinAmbiguous)

/-- Whether a column refers to another; what it refers to is looked up until one does. -/
def refersTo (d : Declarations) (a b : ColumnRef) : Attempt Bool :=
  let references := ((d.table? a.table).map (·.referencesOf a.column)).getD []
  references.foldlM (fun found r => do
    if found then return true else return (← r.resolve) = b) false

/-- The two sides of a compared pair, with the one that refers. -/
def sides (d : Declarations) (picked : List ColumnRef) (p : ColumnRef × ColumnRef) :
    Attempt (JoinSide × JoinSide) := do
  if !picked.isEmpty then
    return ({ column := p.1, refers := picked.contains p.1 },
      { column := p.2, refers := picked.contains p.2 })
  else if ← refersTo d p.1 p.2 then
    return ({ column := p.1, refers := true }, { column := p.2 })
  else return ({ column := p.1 }, { column := p.2, refers := true })

/-- The sides with the far one marked: as it is said, else where a table refers to itself the side
that refers, else the side of the other table. -/
def markFar (rel : Relationship) (owner target : TableDeclaration) (p : JoinSide × JoinSide) :
    JoinSide × JoinSide :=
  let circular := owner.name = target.name
  let far := fun (s : JoinSide) =>
    if !rel.remoteSide.isEmpty then rel.remoteSide.contains s.column
    else if circular then s.refers
    else s.column.table = target.name
  let secondToo := !circular || p.1.column ≠ p.2.column
  ({ p.1 with isFar := far p.1 }, { p.2 with isFar := far p.2 && secondToo })

/-- The pairs of near and far column. -/
def nearAndFar (ps : List (JoinSide × JoinSide)) : List (String × String) :=
  (ps.filterMap fun (a, b) =>
    if b.isFar && !a.isFar then some (a.column.column, b.column.column)
    else if a.isFar && !b.isFar then some (b.column.column, a.column.column)
    else none).eraseDups

/-- The direction of a join: the side that refers is the side of many rows. -/
def direction (owner target : TableDeclaration) (ps : List (JoinSide × JoinSide)) :
    Attempt JoinDirection :=
  let sides := ps.flatMap fun (a, b) => [a, b]
  let referring := sides.filter (·.refers)
  match referring.any (·.column.table = target.name),
      referring.any (·.column.table = owner.name) with
  | true, false => .ok .oneToMany
  | false, true => .ok .manyToOne
  | false, false => Attempt.mishap (.misdeclared .directionUnknown)
  | true, true =>
    let columns := fun (ss : List JoinSide) => ss.map (·.column)
    let there := columns (referring.filter (·.isFar))
    let here := columns (referring.filter (!·.isFar))
    let near := columns (sides.filter (!·.isFar))
    let both := (columns (sides.filter (·.isFar))).filter (near.contains ·)
    let mixed := !there.isEmpty && !here.isEmpty
    let left := fun (cs : List ColumnRef) => if mixed then cs.filter (!both.contains ·) else cs
    match (left there).isEmpty, (left here).isEmpty with
    | false, true => .ok .oneToMany
    | true, false => .ok .manyToOne
    | _, _ => Attempt.mishap (.misdeclared .directionUnknown)

/-- The join of a relationship between two tables. -/
def joinDirectly (d : Declarations) (rel : Relationship) (owner target : TableDeclaration) :
    Attempt JoinedRelationship := do
  let pairs ← onlyWay rel.foreignKeys (← ways rel.foreignKeys owner target)
  let ps ← pairs.mapM (sides d rel.foreignKeys)
  let ps := ps.map (markFar rel owner target)
  let direction ← direction owner target ps
  match nearAndFar ps with
  | [] => Attempt.mishap (.misdeclared .directionUnknown)
  | joined => return ⟨owner, target, rel, direction, joined⟩

/-- The join of a relationship through a third table, which has to be joined to both. -/
def joinThrough (rel : Relationship) (owner target through : TableDeclaration) :
    Attempt JoinedRelationship := do
  let _ ← onlyWay rel.foreignKeys (← ways rel.foreignKeys target through)
  let _ ← onlyWay rel.foreignKeys (← ways rel.foreignKeys owner through)
  return ⟨owner, target, rel, .manyToMany, []⟩

/-- The join of a relationship. -/
def join (d : Declarations) (owner : TableDeclaration) (rel : Relationship) :
    Attempt JoinedRelationship := do
  let target ← d.relatedTable rel.target
  match rel.through.bind d.table? with
  | none => joinDirectly d rel owner target
  | some through => joinThrough rel owner target through

/-- Checks that the inverse of a relationship is a relationship back; one that is known to lead in
the same direction is none. -/
def checkInverse (d : Declarations) (known : List JoinedRelationship) (j : JoinedRelationship) :
    Attempt Unit :=
  match j.relationship.inverse with
  | none => .ok ()
  | some name =>
    match j.target.relationships.find? (·.name = name) with
    | none => Attempt.mishap (.misdeclared .inverseUnknown)
    | some other => do
      let back ← d.relatedTable other.target
      let sameWay := known.any fun k => k.owner.name = j.target.name &&
        k.relationship.name = name && k.direction = j.direction
      if back.name ≠ j.owner.name || (sameWay && j.direction ≠ .manyToMany) then
        Attempt.mishap (.misdeclared .inverseUnfit)

end Relationship

/-- The joins of all relationships of all classes, in the order of their declaration. -/
def Declarations.joinedRelationships (d : Declarations) : Attempt (List JoinedRelationship) :=
  (d.tables.filter (·.model.isSome)).foldlM (fun known t =>
    t.relationships.foldlM (fun known rel => do
      let j ← Relationship.join d t rel
      Relationship.checkInverse d (known ++ [j]) j
      return known ++ [j]) known) []

end RelGraph
