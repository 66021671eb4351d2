import RelGraph.Proofs.Typing
/-!
What is assembled for a schema: which names and members its definitions have, and which book is
left. Definitions are made table by table and column by column with one book, so what the steps do
to it is proved of every step and carried through the runs.
-/
namespace RelGraph.Sdl

open Outcome
open Naming (Operation typeName rootField)

/-! ## Tables that pass -/

/-- What a table is like that can be named. -/
structure Admitted (r : Registry) (t : Table) : Prop where
  unreserved : typeName t.name ∉ reservedTypeNames
  columns : t.columns ≠ []
  targets : ∀ rel ∈ Members.values t.relations, ∃ target, r.table? rel.target = some target

section Checks

variable {r : Registry} {t : Table} {seen seen' : Members String}

theorem checkTable_eq_ok (h : checkTable r seen t = .ok seen') :
    Admitted r t ∧ typeName t.name ∉ Members.names seen ∧
      seen' = Members.put seen (typeName t.name) t.name := by
  dsimp only [checkTable] at h
  split at h
  · cases h
  · rename_i hunreserved
    split at h
    · cases h
    · rename_i hnew
      split at h
      · cases h
      · rename_i hcolumns
        split at h
        · cases h
        · rename_i htargets
          refine ⟨⟨by simpa using hunreserved, by simpa using hcolumns, fun rel hrel => ?_⟩,
            Members.get?_eq_none.mp hnew, (Except.ok.inj h).symm⟩
          refine Option.ne_none_iff_exists'.mp ?_
          simpa using List.find?_eq_none.mp htargets rel hrel

/-- Tables that pass can be named, and have names of types that are all apart, also from those that
were there. -/
theorem nodup_of_foldlM_checkTable {ts : List Table}
    (h : ts.foldlM (checkTable r) seen = .ok seen') :
    (ts.map fun t => typeName t.name).Nodup ∧
      ∀ t ∈ ts, Admitted r t ∧ typeName t.name ∉ Members.names seen := by
  induction ts generalizing seen with
  | nil => simp
  | cons t ts ih =>
    rw [List.foldlM_cons] at h
    obtain ⟨next, hnext, h⟩ := bind_eq_ok.mp h
    obtain ⟨hadmitted, hnew, rfl⟩ := checkTable_eq_ok hnext
    obtain ⟨hnodup, hrest⟩ := ih h
    simp only [Members.mem_names_put, not_or] at hrest
    refine ⟨?_, ?_⟩
    · rw [List.map_cons, List.nodup_cons]
      refine ⟨fun hmem => ?_, hnodup⟩
      obtain ⟨other, hother, hsame⟩ := List.mem_map.mp hmem
      exact absurd hsame (hrest other hother).2.2
    · intro other hother
      rcases List.mem_cons.mp hother with rfl | hother
      · exact ⟨hadmitted, hnew⟩
      · exact ⟨(hrest other hother).1, (hrest other hother).2.1⟩

end Checks

/-! ## Running with a book -/

section Runs

variable {α β γ : Type} {f : TypeBook → α → β × TypeBook} {l : List α}

theorem extends_mapBook (hstep : ∀ b : TypeBook, ∀ x ∈ l, b.Extends (f b x).2) (b : TypeBook) :
    b.Extends (mapBook f b l).2 := by
  induction l generalizing b with
  | nil => exact .refl b
  | cons x l ih =>
    have hrest := ih (fun b y hy => hstep b y (List.mem_cons_of_mem _ hy)) (f b x).2
    exact (hstep b x List.mem_cons_self).trans hrest

/-- What the steps make of what they are given, whatever the book, the run makes of the list. -/
theorem map_mapBook {g : β → γ} {k : α → γ} (h : ∀ b x, g (f b x).1 = k x) (b : TypeBook) :
    (mapBook f b l).1.map g = l.map k := by
  induction l generalizing b with
  | nil => rfl
  | cons x l ih => exact congrArg₂ List.cons (h b x) (ih (f b x).2)

end Runs

/-! ## Tables -/

variable {b : TypeBook} {t : Table} {position : TypePosition}

theorem extends_columnFields (t : Table) (position : TypePosition) (b : TypeBook) :
    b.Extends (columnFields t position b).2 := by
  refine extends_mapBook (fun b c _ => ?_) b
  exact extends_baseType

theorem extends_objectType (t : Table) (b : TypeBook) : b.Extends (objectType t b).2 :=
  extends_columnFields t .output b

/-- The field of a column in the filter input of a table. -/
def filterField (t : Table) (b : TypeBook) (c : Column) : Field × TypeBook :=
  let base := baseType b t.name c
  let filter := base.2.filterName base.1
  ({ name := c.name, type := .named filter.1 }, filter.2)

theorem filtersInput_eq (t : Table) (b : TypeBook) : filtersInput t b =
    (.input (filtersName t.name) ((mapBook (filterField t) b t.columns).1 ++
      [{ name := "OR", type := branches (filtersName t.name) }]),
      (mapBook (filterField t) b t.columns).2) := rfl

theorem extends_filterField (t : Table) (b : TypeBook) (c : Column) :
    b.Extends (filterField t b c).2 :=
  extends_baseType.trans TypeBook.extends_filterName

theorem extends_filtersInput (t : Table) (b : TypeBook) : b.Extends (filtersInput t b).2 :=
  extends_mapBook (fun b c _ => extends_filterField t b c) b

/-- The definitions of a table are made one after the other, each with the book that the one before
it leaves. -/
theorem tableDefinitions_eq (b : TypeBook) (t : Table) :
    ∃ b₁ b₂ b₃, b₁ = (objectType t b).2 ∧ b₂ = (columnFields t .insertInput b₁).2 ∧
      b₃ = (columnFields t .updateInput b₂).2 ∧
      tableDefinitions b t = ([(objectType t b).1,
        .input (insertInputName t.name) (columnFields t .insertInput b₁).1,
        .input (updateInputName t.name) (columnFields t .updateInput b₂).1,
        (filtersInput t b₃).1, orderByInput t], (filtersInput t b₃).2) :=
  ⟨_, _, _, rfl, rfl, rfl, rfl⟩

theorem extends_tableDefinitions (b : TypeBook) (t : Table) :
    b.Extends (tableDefinitions b t).2 := by
  obtain ⟨b₁, b₂, b₃, h₁, h₂, h₃, heq⟩ := tableDefinitions_eq b t
  have hobject : b.Extends b₁ := h₁ ▸ extends_objectType t b
  have hinserts : b₁.Extends b₂ := h₂ ▸ extends_columnFields t .insertInput b₁
  have hupdates : b₂.Extends b₃ := h₃ ▸ extends_columnFields t .updateInput b₂
  rw [heq]
  exact ((hobject.trans hinserts).trans hupdates).trans (extends_filtersInput t b₃)

/-- The names of the members of a definition. -/
def Definition.members : Definition → List String
  | .scalar _ => []
  | .enum _ values => values
  | .input _ fields | .object _ fields _ => fields.map Field.name

/-- The names that a definition gives. -/
def Definition.shape (d : Definition) : String × List String := (d.name, d.members)

/-- The names of a table's columns. -/
def columnNames (t : Table) : List String := t.columns.map Column.name

/-- The names of a table's relations. -/
def relationNames (t : Table) : List String := (Members.values t.relations).map Relation.name

theorem names_columnFields (t : Table) (position : TypePosition) (b : TypeBook) :
    (columnFields t position b).1.map Field.name = columnNames t :=
  map_mapBook (g := Field.name) (k := Column.name) (fun _ _ => rfl) b

/-- The names that a table's definitions give. -/
def tableShapes (t : Table) : List (String × List String) :=
  [(typeName t.name, columnNames t ++ relationNames t), (insertInputName t.name, columnNames t),
    (updateInputName t.name, columnNames t), (filtersName t.name, columnNames t ++ ["OR"]),
    (orderByName t.name, columnNames t)]

theorem name_relationField (rel : Relation) : (relationField rel).name = rel.name := by
  rw [relationField]
  split <;> rfl

theorem members_objectType (t : Table) (b : TypeBook) :
    (objectType t b).1.members = columnNames t ++ relationNames t := by
  show ((columnFields t .output b).1 ++ (Members.values t.relations).map relationField).map
    Field.name = _
  rw [List.map_append, names_columnFields, List.map_map, relationNames]
  congr 2
  exact funext name_relationField

theorem members_filtersInput (t : Table) (b : TypeBook) :
    (filtersInput t b).1.members = columnNames t ++ ["OR"] := by
  rw [filtersInput_eq]
  show List.map Field.name (_ ++ _) = _
  rw [List.map_append, map_mapBook (k := Column.name) fun _ _ => rfl]
  rfl

theorem shapes_tableDefinitions (b : TypeBook) (t : Table) :
    (tableDefinitions b t).1.map Definition.shape = tableShapes t := by
  obtain ⟨b₁, b₂, b₃, -, -, -, heq⟩ := tableDefinitions_eq b t
  have hobject : (objectType t b).1.shape = _ :=
    congrArg (typeName t.name, ·) (members_objectType t b)
  have hfilters : (filtersInput t b₃).1.shape = _ :=
    congrArg (filtersName t.name, ·) (members_filtersInput t b₃)
  have horders : (orderByInput t).shape = (orderByName t.name, columnNames t) :=
    congrArg (orderByName t.name, ·) List.map_map
  simp only [heq, List.map_cons, List.map_nil, hobject, hfilters, horders, tableShapes]
  simp only [Definition.shape, Definition.name, Definition.members, names_columnFields]

/-! ## The whole schema -/

variable {r : Registry} {config : Config} {a : Assembled}

/-- The operations of the root type that reads. -/
def readOperations : List Operation := [.findMany, .findFirst]

/-- The operations of the root type that writes. -/
def writeOperations : List Operation := [.insertMany, .updateMany, .deleteMany]

/-- The names of root fields, for certain operations on every table. -/
def rootNames (r : Registry) (ops : List Operation) : List String :=
  r.all.flatMap fun t => ops.map (rootField t.name)

/-- Root fields have names that are all apart when the types of the tables have. -/
theorem nodup_rootNames {ops : List Operation} (hops : ops.Nodup)
    (htypes : (r.all.map fun t => typeName t.name).Nodup) : (rootNames r ops).Nodup := by
  refine List.nodup_flatMap.mpr ⟨fun t _ => ?_, ?_⟩
  · exact hops.map fun op op' h => (Naming.rootField_inj.mp h).2
  · refine (List.pairwise_map.mp htypes).imp fun hne name hname hname' => hne ?_
    obtain ⟨op, -, rfl⟩ := List.mem_map.mp hname
    obtain ⟨op', -, hsame⟩ := List.mem_map.mp hname'
    exact (Naming.rootField_inj.mp hsame).1.symm

theorem names_queryFields :
    (r.all.flatMap queryFields).map Field.name = rootNames r readOperations :=
  List.map_flatMap

theorem names_mutationFields :
    (r.all.flatMap mutationFields).map Field.name = rootNames r writeOperations :=
  List.map_flatMap

/-- The definitions that tables share: those of what a book introduces, and those for orders. -/
def sharedDefinitions (b : TypeBook) : List Definition :=
  (b.scalars.mergeSort fun s s' => decide (s ≤ s')).map .scalar ++
    (Members.values b.enums).map EnumType.definition ++ [orderDirection, innerOrder] ++
    (Members.values b.filterNames).map (fun known => filterInput known.2 known.1)

/-- The definitions of a schema, with the definitions of its tables and the book that they leave. -/
def definitionsOf (r : Registry) (config : Config) (tables : List Definition) (b : TypeBook) :
    List Definition :=
  sharedDefinitions b ++ tables ++ [.object "Query" (r.all.flatMap queryFields) none] ++
    (if config.offersWrites then [.object "Mutation" (r.all.flatMap mutationFields) none] else [])

/-- What is assembled comes from tables that can be named and whose types are called differently. -/
theorem assemble_eq_ok (h : assemble r config = .ok a) :
    (r.all.map fun t => typeName t.name).Nodup ∧ (∀ t ∈ r.all, Admitted r t) ∧
      ∃ b, adoptForeignKeyTypes r {} = .ok b ∧ a.book = (mapBook tableDefinitions b r.all).2 ∧
        a.definitions =
          definitionsOf r config (mapBook tableDefinitions b r.all).1.flatten a.book := by
  obtain ⟨_, hcheck, h⟩ := bind_eq_ok.mp h
  obtain ⟨seen, hseen, -⟩ := bind_eq_ok.mp hcheck
  obtain ⟨b, hb, h⟩ := bind_eq_ok.mp h
  obtain rfl := pure_eq_ok.mp h
  obtain ⟨hnodup, htables⟩ := nodup_of_foldlM_checkTable hseen
  exact ⟨hnodup, fun t ht => (htables t ht).1, b, hb, rfl, rfl⟩

/-- The book that is left adds to one that only has adopted overrides, and is in order. -/
theorem book_of_assemble (h : assemble r config = .ok a) : a.book.Tidy := by
  obtain ⟨-, -, b, hb, hbook, -⟩ := assemble_eq_ok h
  obtain ⟨adopted, rfl, -⟩ := onlyAdopts_of_adoptForeignKeyTypes hb
  rw [hbook]
  exact (extends_mapBook (fun b t _ => extends_tableDefinitions b t) _).tidy
    (TypeBook.tidy_empty.adopt adopted)

/-- The names of the members of a filter input for a base type. -/
def filterMembers : List String :=
  comparisonOperators ++ patternOperators ++ ["inArray", "notInArray", "isNull", "isNotNull", "OR"]

/-- The names that a schema's definitions give, by the book that they leave. -/
def shapesOf (r : Registry) (config : Config) (b : TypeBook) : List (String × List String) :=
  (b.scalars.mergeSort fun s s' => decide (s ≤ s')).map (·, []) ++
    (Members.values b.enums).map (fun e => (e.name, Members.names e.values)) ++
    [("OrderByDirection", ["asc", "desc"]), ("InnerOrder", ["direction", "priority"])] ++
    b.filterInputs.map (·, filterMembers) ++ r.all.flatMap tableShapes ++
    [("Query", rootNames r readOperations)] ++
    (if config.offersWrites then [("Mutation", rootNames r writeOperations)] else [])

theorem shapes_of_assemble (h : assemble r config = .ok a) :
    a.definitions.map Definition.shape = shapesOf r config a.book := by
  obtain ⟨-, -, b, -, -, heq⟩ := assemble_eq_ok h
  have htables : (mapBook tableDefinitions b r.all).1.flatten.map Definition.shape =
      r.all.flatMap tableShapes := by
    rw [List.map_flatten, map_mapBook shapes_tableDefinitions, List.flatMap_def]
  rw [heq, definitionsOf, sharedDefinitions, shapesOf, TypeBook.filterInputs]
  simp only [List.map_append, List.map_map, htables, apply_ite (List.map Definition.shape),
    List.map_cons, List.map_nil]
  simp only [Definition.shape, Definition.name, Definition.members, names_queryFields,
    names_mutationFields]
  rfl

/-! ## Names of definitions -/

/-- The names of the types of tables. -/
def tableTypes (r : Registry) : List String := r.all.map fun t => typeName t.name

/-- The endings of the inputs of a table. -/
def inputEndings : List String := ["InsertInput", "UpdateInput", "Filters", "OrderBy"]

/-- The names of the inputs of all tables. -/
def tableInputs (r : Registry) : List String :=
  r.all.flatMap fun t => inputEndings.map (typeName t.name ++ ·)

/-- The names of what every schema defines. -/
def fixedNames (config : Config) : List String :=
  ["OrderByDirection", "InnerOrder", "Query"] ++ if config.offersWrites then ["Mutation"] else []

/-- The names that say what they are. -/
def tellingNames (r : Registry) (config : Config) (b : TypeBook) : List String :=
  b.enumNames ++ (b.filterInputs ++ (tableInputs r ++ fixedNames config))

theorem names_shapesOf : ((shapesOf r config b).map Prod.fst).Perm
    (b.scalars ++ (tableTypes r ++ tellingNames r config b)) := by
  have hscalars := List.mergeSort_perm b.scalars fun s s' => decide (s ≤ s')
  have htables :
      ((r.all.flatMap tableShapes).map Prod.fst).Perm (tableTypes r ++ tableInputs r) := by
    rw [List.map_flatMap, tableTypes, List.map_eq_flatMap]
    exact (List.flatMap_append_perm r.all (fun t => [typeName t.name])
      fun t => inputEndings.map (typeName t.name ++ ·)).symm
  have henums : (Members.values b.enums).map (fun e => e.name) = b.enumNames := rfl
  refine List.perm_iff_count.mpr fun n => ?_
  have hscalars := hscalars.count_eq n
  have htables := htables.count_eq n
  rw [List.count_append] at htables
  rw [shapesOf, tellingNames, fixedNames]
  cases config.offersWrites
  all_goals
    simp only [List.map_append, List.map_map, Function.comp_def, List.map_id', List.count_append,
      List.map_cons, List.map_nil, if_true, if_false, Bool.false_eq_true, List.count_cons,
      List.count_nil, henums, hscalars, htables]
    omega

theorem names_of_assemble (h : assemble r config = .ok a) :
    (a.definitions.map Definition.name).Perm
      (a.book.scalars ++ (tableTypes r ++ tellingNames r config a.book)) := by
  have hnames : a.definitions.map Definition.name = (shapesOf r config a.book).map Prod.fst := by
    rw [← shapes_of_assemble h, List.map_map]
    rfl
  exact hnames ▸ names_shapesOf

end RelGraph.Sdl
