import RelGraph.Schema.Registry
import RelGraph.Schema.Dependency
import RelGraph.Schema.Relationship
import RelGraph.Value.Display
/-!
Loading a schema. The source is first sorted into tables, relation sets, mapped classes and entries
that are none of these; each table gets one name, the first under which it is met. Then relations
are added: those of mapped classes, the declared to-one relations, and last the declared to-many
relations, which may be completed from a to-one relation in the other direction.
-/
namespace RelGraph.Loading

/-- A table that takes part, with its name and the class it is mapped to. -/
structure NamedTable where
  name : String
  declaration : TableDeclaration
  model : Option String
deriving Inhabited

/-- A source sorted by what its entries are. -/
structure Sorted where
  tables : List NamedTable := []
  relationSets : List RelationSet := []
  mapped : List TableDeclaration := []
  ignored : List String := []
deriving Inhabited

namespace Sorted

/-- The name that a table was given. -/
def nameOf? (s : Sorted) (table : String) : Option String :=
  (s.tables.find? (·.declaration.name = table)).map (·.name)

/-- Adds a table unless it is known; a class is filled in later too. -/
def addTable (s : Sorted) (name : String) (t : TableDeclaration) (model : Option String) : Sorted :=
  if (s.nameOf? t.name).isSome then
    match model with
    | none => s
    | some _ =>
      { s with tables := s.tables.map fun n =>
          if n.declaration.name = t.name then { n with model := model } else n }
  else { s with tables := s.tables ++ [⟨name, t, model⟩] }

/-- Adds a mapped class with its table. -/
def addMapped (s : Sorted) (name : Option String) (t : TableDeclaration) : Sorted :=
  let s := s.addTable ((name.filter (!·.isEmpty)).getD t.name) t t.model
  if s.mapped.any (·.name = t.name) then s else { s with mapped := s.mapped ++ [t] }

/-- Adds an entry that is nothing known: it is remembered by its name, or by how it shows. -/
def addOther (s : Sorted) (name : Option String) (v : Value) : Sorted :=
  { s with ignored := s.ignored ++ [(name.filter (!·.isEmpty)).getD v.literal] }

mutual

/-- Sorts a plain value: lists and objects are looked into. -/
def addValue (s : Sorted) (name : Option String) : Value → Sorted
  | .list items => addItems s items
  | .tuple items => addItems s items
  | .object members => addMembers s members
  | v => s.addOther name v

/-- Sorts the items of a plain list. -/
def addItems (s : Sorted) : List Value → Sorted
  | [] => s
  | v :: rest => addItems (addValue s none v) rest

/-- Sorts the members of a plain object. -/
def addMembers (s : Sorted) : List (String × Value) → Sorted
  | [] => s
  | (k, v) :: rest => addMembers (addValue s (some k) v) rest

end

mutual

/-- Sorts a source. -/
def add (d : Declarations) (s : Sorted) (name : Option String) : SchemaSource → Attempt Sorted
  | .mapping entries => addEntries d s entries
  | .listing entries => addListing d s entries
  | .table table =>
    match d.table? table with
    | some t => .ok (s.addTable ((name.filter (!·.isEmpty)).getD t.name) t none)
    | none => .ok s
  | .model model =>
    match d.modelTable? model with
    | some t => .ok (s.addMapped name t)
    | none => .ok s
  | .allTables => do
    return (← d.byDependency).foldl (fun s t => s.addTable t.name t none) s
  | .mappedBase =>
    .ok (d.tables.foldl (fun s t =>
      if t.model.isSome then s.addMapped none t else s.addTable t.name t none) s)
  | .relations index =>
    match d.relationSets[index]? with
    | some set => .ok { s with relationSets := s.relationSets ++ [set] }
    | none => .ok s
  | .other v => .ok (s.addValue name v)

/-- Sorts named entries. -/
def addEntries (d : Declarations) (s : Sorted) : List (String × SchemaSource) → Attempt Sorted
  | [] => .ok s
  | (key, source) :: rest => do addEntries d (← add d s (some key) source) rest

/-- Sorts entries without names. -/
def addListing (d : Declarations) (s : Sorted) : List SchemaSource → Attempt Sorted
  | [] => .ok s
  | source :: rest => do addListing d (← add d s none source) rest

end

end Sorted

/-- How a target shows in messages. -/
def shown : Target → String
  | .table name => Text.quoted name
  | .model name => s!"<class 'spec.{name}'>"
  | .name text => Text.quoted text

/-- The name under which a target takes part. A plain name is first taken as such and then as the
name of a table. -/
def resolve (d : Declarations) (s : Sorted) (r : Registry) (owner : String) (target : Target) :
    Attempt String :=
  let found := match target with
    | .table table => s.nameOf? table
    | .model model => (d.modelTable? model).bind fun t => s.nameOf? t.name
    | .name text => if (r.table? text).isSome then some text else s.nameOf? text
  match found with
  | some name => .ok name
  | none => Attempt.fault (.relationTargetMissing owner (shown target))

/-- Adds a relation to its source table; its columns must exist and its name must be free. -/
def addRelation (r : Registry) (rel : Relation) : Attempt Registry := do
  let source ← r.table rel.source
  let target ← r.table rel.target
  match rel.pairs.find? fun p => !source.hasColumn p.1 || !target.hasColumn p.2 with
  | some (f, c) =>
    Attempt.fault (.relationColumnsUnknown rel.source rel.name f rel.target c)
  | none =>
    if source.hasColumn rel.name then Attempt.fault (.relationNameTaken rel.source rel.name)
    else
      let source := { source with relations := Members.put source.relations rel.name rel }
      return { r with tables := Members.put r.tables rel.source source }

/-- Adds the relationships of a mapped class; those through a third table are left out. -/
def addRelationships (d : Declarations) (s : Sorted) (joined : List JoinedRelationship)
    (r : Registry) (t : TableDeclaration) : Attempt Registry :=
  (joined.filter (·.owner.name = t.name)).foldlM (fun r j => do
    if j.direction = .manyToMany then return r
    let owner := (s.nameOf? t.name).getD t.name
    let target ← resolve d s r owner (.table j.target.name)
    addRelation r {
      name := j.relationship.name
      toMany := j.toMany
      source := owner
      target := target
      fields := j.pairs.map Prod.fst
      references := j.pairs.map Prod.snd }) r

/-- Explicit pairs, when both lists are given and neither is empty. -/
def RelationDeclaration.explicit? (rel : RelationDeclaration) :
    Option (List String × List String) :=
  match rel.fields, rel.references with
  | some fields, some references =>
    if fields.isEmpty || references.isEmpty then none else some (fields, references)
  | _, _ => none

/-- The foreign keys from one registered table to another. -/
def keysBetween (r : Registry) (child parent : String) : Attempt (List (String × String)) :=
  match r.table? child, r.table? parent with
  | some c, some p => c.declaration.keysTo p.declaration.name
  | _, _ => .ok []

/-- Completes a to-one relation: by its own pairs, by the only foreign key of the owner, or by the
only one of the target. -/
def resolveOne (d : Declarations) (s : Sorted) (r : Registry) (owner : String)
    (rel : RelationDeclaration) : Attempt Relation := do
  let target ← resolve d s r owner rel.target
  match RelationDeclaration.explicit? rel with
  | some (fields, references) => return ⟨rel.name, false, owner, target, fields, references⟩
  | none =>
    let own ← keysBetween r owner target
    let pairs ← if own.isEmpty then do pure ((← keysBetween r target owner).map Prod.swap)
      else pure own
    match pairs with
    | [(field, reference)] => return ⟨rel.name, false, owner, target, [field], [reference]⟩
    | _ => Attempt.fault (.joinUnresolved owner rel.name target)

/-- Completes a to-many relation: by its own pairs, by the only to-one relation in the other
direction, or by the only foreign key of the target. -/
def resolveMany (d : Declarations) (s : Sorted) (r : Registry) (toOne : Members (Members Relation))
    (owner : String) (rel : RelationDeclaration) : Attempt Relation := do
  let target ← resolve d s r owner rel.target
  match RelationDeclaration.explicit? rel with
  | some (fields, references) => return ⟨rel.name, true, owner, target, fields, references⟩
  | none =>
    let back := (Members.values ((Members.get? toOne target).getD [])).filter (·.target = owner)
    match back with
    | [one] => return ⟨rel.name, true, owner, target, one.references, one.fields⟩
    | _ =>
      match ← keysBetween r target owner with
      | [(child, parent)] => return ⟨rel.name, true, owner, target, [parent], [child]⟩
      | _ => Attempt.fault (.joinUnresolved owner rel.name target)

/-- The owner named in messages about a relation set whose own table is missing. -/
def setOwner : String := "<relations>"

/-- Completes the to-one relations of all sets, by owner and name. -/
def collectOnes (d : Declarations) (s : Sorted) (r : Registry) :
    Attempt (Members (Members Relation)) :=
  s.relationSets.foldlM (fun acc set => do
    let owner ← resolve d s r setOwner set.owner
    set.toOne.foldlM (fun acc rel => do
      let one ← resolveOne d s r owner rel
      let ones := Members.put ((Members.get? acc owner).getD []) rel.name one
      return Members.put acc owner ones) acc) []

/-- The tables of a sorted source, before relations. -/
def tablesOf (s : Sorted) : Attempt Registry := do
  let tables ← s.tables.foldlM (fun acc n => do
    return Members.put acc n.name (← Table.ofDeclaration n.name n.declaration n.model)) []
  return ⟨tables⟩

/-- Adds all relations of a sorted source. -/
def addRelations (d : Declarations) (s : Sorted) (r : Registry) : Attempt Registry := do
  let joined ← if s.mapped.isEmpty then pure [] else d.joinedRelationships
  let r ← s.mapped.foldlM (addRelationships d s joined) r
  let ones ← collectOnes d s r
  let r ← (Members.values ones).foldlM
    (fun r rels => (Members.values rels).foldlM addRelation r) r
  s.relationSets.foldlM (fun r set => do
    let owner ← resolve d s r setOwner set.owner
    set.toMany.foldlM (fun r rel => do addRelation r (← resolveMany d s r ones owner rel)) r) r

/-- A loaded schema: the registry and the entries that were ignored. -/
structure Loaded where
  registry : Registry
  ignored : List String
deriving Inhabited

/-- Loads a schema. -/
def load (d : Declarations) (source : SchemaSource) : Attempt Loaded := do
  let s ← Sorted.add d {} none source
  let registry ← addRelations d s (← tablesOf s)
  return ⟨registry, s.ignored⟩

/-! ## Overrides -/

/-- A value of an override where it counts as given, and else what was there before. -/
def givenElse (v before : Value) : Value := if v.truthy then v else before

/-- A column with one entry of an override applied. -/
def overrideColumn (o : Override) (v : Value) (c : ColumnDeclaration) : ColumnDeclaration :=
  if o.withDescriptions then
    { c with
      typeOverride := givenElse (v.field "type") c.typeOverride
      descriptionOverride := givenElse (v.field "description") c.descriptionOverride }
  else { c with typeOverride := v }

/-- Applies an override; entries for columns that the table lacks give a warning each, and where
descriptions are given too, every other entry has to be an object. -/
def applyOverride (d : Declarations) (o : Override) : Attempt (Declarations × List String) :=
  let named := match o.target with
    | .table name => d.table? name
    | .model name => d.modelTable? name
    | .name _ => none
  match named with
  | none => Attempt.mishap (.badKind s!"Expected a Table or mapped class, got {shown o.target}")
  | some t =>
    let (known, unknown) := o.entries.partition fun e => (t.column? e.1).isSome
    let change := fun (c : ColumnDeclaration) =>
      match Members.get? known c.key with
      | some v => overrideColumn o v c
      | none => c
    let changed := { t with columns := t.columns.map change }
    match known.find? fun e => o.withDescriptions && e.2.members?.isNone with
    | some e => Attempt.mishap (.attributeMissing e.2.kindName "get")
    | none => .ok (
      { d with tables := d.tables.map fun u => if u.name = t.name then changed else u },
      unknown.map fun e => s!"{t.name} has no column {e.1}; override ignored")

/-- Applies overrides in order. -/
def applyOverrides (d : Declarations) (os : List Override) :
    Attempt (Declarations × List String) :=
  os.foldlM (fun (d, warnings) o => do
    let (d, more) ← applyOverride d o
    return (d, warnings ++ more)) (d, [])

end RelGraph.Loading
