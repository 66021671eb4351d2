import RelGraph.Proofs.Sdl.Assembly
import RelGraph.Proofs.Schema.Relations
/-!
When the names of a schema's definitions are apart. Scalars and the types of tables can be called
anything; every other name ends in a text that says what it is, or is fixed, so that names of two
kinds never meet. What is checked before a schema is assembled keeps the types of tables apart from
each other and from what is fixed, but not from scalars, enums and inputs, nor scalars from
anything; and it does not see that the filter input of a table has a member of its own beside those
for the columns.
-/
namespace RelGraph.Sdl

open Naming (EndsIn Apart typeName)

variable {r : Registry} {config : Config} {a : Assembled} {b : TypeBook}

/-! ## Kinds of names -/

/-- Whether the names of all definitions are apart: those of scalars and of the types of tables from
each other and from all others, and those of filter inputs by their marks. -/
structure NamesApart (r : Registry) (config : Config) (b : TypeBook) : Prop where
  scalars : b.scalars.Disjoint (tableTypes r ++ tellingNames r config b)
  tables : (tableTypes r).Disjoint (b.enumNames ++ (b.filterInputs ++ tableInputs r))
  marks : b.MarksApart

theorem disjoint_of_endsIn {l l' es es' : List String} (hl : ∀ n ∈ l, ∃ e ∈ es, EndsIn n e)
    (hl' : ∀ n ∈ l', ∃ e ∈ es', EndsIn n e) (hapart : ∀ e ∈ es, ∀ e' ∈ es', Apart e e') :
    l.Disjoint l' := by
  intro n hn hn'
  obtain ⟨e, he, hends⟩ := hl n hn
  obtain ⟨e', he', hends'⟩ := hl' n hn'
  exact (hapart e he e' he').not_both hends hends'

theorem nodup_tableInputs (h : (tableTypes r).Nodup) : (tableInputs r).Nodup := by
  have hends : ∀ e ∈ inputEndings, ∀ e' ∈ inputEndings, e = e' ∨ Apart e e' := by decide
  refine List.nodup_flatMap.mpr ⟨fun t _ => ?_, ?_⟩
  · refine List.Nodup.map_on (fun e he e' he' heq => ?_) (by decide)
    exact (Naming.append_inj heq (hends e he e' he')).2
  · refine (List.pairwise_map.mp h).imp fun hne name hname hname' => hne ?_
    obtain ⟨e, he, rfl⟩ := List.mem_map.mp hname
    obtain ⟨e', he', heq⟩ := List.mem_map.mp hname'
    exact (Naming.append_inj heq.symm (hends e he e' he')).1

/-- Names that say what they are are apart just when the filter inputs are. -/
theorem nodup_tellingNames (hb : b.Tidy) (htypes : (tableTypes r).Nodup) :
    (tellingNames r config b).Nodup ↔ b.MarksApart := by
  have henums : ∀ n ∈ b.enumNames, ∃ e ∈ ["Enum"], EndsIn n e :=
    fun n hn => ⟨_, List.mem_singleton_self _, hb.endsIn_of_mem_enumNames hn⟩
  have hfilters : ∀ n ∈ b.filterInputs, ∃ e ∈ ["FieldFilter"], EndsIn n e :=
    fun n hn => ⟨_, List.mem_singleton_self _, hb.endsIn_of_mem_filterInputs hn⟩
  have hinputs : ∀ n ∈ tableInputs r, ∃ e ∈ inputEndings, EndsIn n e := by
    intro n hn
    obtain ⟨t, -, hn⟩ := List.mem_flatMap.mp hn
    obtain ⟨e, he, rfl⟩ := List.mem_map.mp hn
    exact ⟨e, he, Naming.endsIn_append _ _⟩
  -- A fixed name ends in itself.
  have hfixed : ∀ n ∈ fixedNames config, ∃ e ∈ reservedTypeNames, EndsIn n e := by
    rw [fixedNames]
    cases config.offersWrites <;> decide
  have hunique : (fixedNames config).Nodup := by
    rw [fixedNames]
    cases config.offersWrites <;> decide
  have hef := disjoint_of_endsIn henums hfilters (by decide)
  have hei := disjoint_of_endsIn henums hinputs (by decide)
  have hex := disjoint_of_endsIn henums hfixed (by decide)
  have hfi := disjoint_of_endsIn hfilters hinputs (by decide)
  have hfx := disjoint_of_endsIn hfilters hfixed (by decide)
  have hix := disjoint_of_endsIn hinputs hfixed (by decide)
  have henumNames : b.enumNames.Nodup := hb.enumNames_eq ▸ hb.enums
  rw [tellingNames, ← hb.nodup_filterInputs]
  simp only [List.nodup_append', List.disjoint_append_right, henumNames, nodup_tableInputs htypes,
    hunique, hef, hei, hex, hfi, hfx, hix, and_true, true_and]

/-! ## Names of definitions -/

/-- The types of tables meet no fixed name, since those are reserved. -/
theorem disjoint_fixedNames (h : ∀ t ∈ r.all, Admitted r t) :
    (tableTypes r).Disjoint (fixedNames config) := by
  intro n hn hfixed
  obtain ⟨t, ht, rfl⟩ := List.mem_map.mp hn
  have hreserved : fixedNames config ⊆ reservedTypeNames := by
    rw [fixedNames]
    cases config.offersWrites <;> decide
  exact (h t ht).unreserved (hreserved hfixed)

theorem nodup_names_iff (h : assemble r config = .ok a) :
    (a.definitions.map Definition.name).Nodup ↔ NamesApart r config a.book := by
  obtain ⟨htypes, hadmitted, -⟩ := assemble_eq_ok h
  have hbook := book_of_assemble h
  have hfixed : (tableTypes r).Disjoint (fixedNames config) := disjoint_fixedNames hadmitted
  rw [(names_of_assemble h).nodup_iff, List.nodup_append', List.nodup_append',
    nodup_tellingNames hbook htypes]
  constructor
  · rintro ⟨-, ⟨-, hmarks, htables⟩, hscalars⟩
    refine ⟨hscalars, ?_, hmarks⟩
    simp only [tellingNames, List.disjoint_append_right] at htables ⊢
    exact ⟨htables.1, htables.2.1, htables.2.2.1⟩
  · rintro ⟨hscalars, htables, hmarks⟩
    refine ⟨hbook.scalars, ⟨htypes, hmarks, ?_⟩, hscalars⟩
    simp only [tellingNames, List.disjoint_append_right] at htables ⊢
    exact ⟨htables.1, htables.2.1, htables.2.2, hfixed⟩

/-! ## Names of members -/

/-- Every definition has members that are called differently just when in every table the columns
and relations are, and no column is called as the member that a filter input has beside them. -/
theorem nodup_members_iff (h : assemble r config = .ok a) :
    (∀ d ∈ a.definitions, d.members.Nodup) ↔
      ∀ t ∈ r.all, (columnNames t ++ relationNames t).Nodup ∧ "OR" ∉ columnNames t := by
  obtain ⟨htypes, -, -⟩ := assemble_eq_ok h
  have hbook := book_of_assemble h
  have hmembers : (∀ d ∈ a.definitions, d.members.Nodup) ↔
      ∀ s ∈ shapesOf r config a.book, s.2.Nodup := by
    rw [← shapes_of_assemble h, List.forall_mem_map]
    rfl
  have henums : ∀ e ∈ Members.values a.book.enums, (Members.names e.values).Nodup := by
    intro e he
    obtain ⟨kv, hkv, rfl⟩ := List.mem_map.mp he
    exact (hbook.enum kv hkv).2.2
  have hquery : (rootNames r readOperations).Nodup := nodup_rootNames (by decide) htypes
  have hmutation : (rootNames r writeOperations).Nodup := nodup_rootNames (by decide) htypes
  have htable : ∀ t : Table, (∀ s ∈ tableShapes t, s.2.Nodup) ↔
      (columnNames t ++ relationNames t).Nodup ∧ "OR" ∉ columnNames t := by
    intro t
    simp only [tableShapes, List.forall_mem_cons, List.nodup_append', List.disjoint_singleton,
      List.nodup_singleton, List.not_mem_nil, false_imp_iff, implies_true, and_true, true_and]
    tauto
  rw [hmembers, shapesOf]
  simp only [List.forall_mem_append, List.forall_mem_map, List.forall_mem_flatMap, htable]
  refine ⟨fun hall => hall.1.1.2, fun hall => ⟨⟨⟨⟨⟨⟨?_, henums⟩, ?_⟩, ?_⟩, hall⟩, ?_⟩, ?_⟩⟩
  · exact fun _ _ => .nil
  · decide
  · exact fun _ _ => by decide
  · exact List.forall_mem_singleton.mpr hquery
  · split
    · exact List.forall_mem_singleton.mpr hmutation
    · simp

/-- Of what is assembled, the definitions are called differently just when scalars, the types of
tables and the marks of filter inputs keep clear of the other names; and each has members that are
called differently just when in every table the columns and relations are, none of the columns as
the member for alternatives. -/
theorem distinct_iff_of_assemble (h : assemble r config = .ok a) :
    ((a.definitions.map Definition.name).Nodup ↔ NamesApart r config a.book) ∧
      ((∀ d ∈ a.definitions, d.members.Nodup) ↔
        ∀ t ∈ r.all, (columnNames t ++ relationNames t).Nodup ∧ "OR" ∉ columnNames t) :=
  ⟨nodup_names_iff h, nodup_members_iff h⟩

/-! ## Loaded schemas -/

section Loaded

open Loading Outcome

variable {d : Declarations} {source : SchemaSource} {loaded : Loaded} {r' : Registry} {t : Table}

theorem nodup_relations_addRelation {rel : Relation} (h : addRelation r rel = .ok r')
    (hr : ∀ t ∈ r.all, (Members.names t.relations).Nodup) :
    ∀ t ∈ r'.all, (Members.names t.relations).Nodup := by
  obtain ⟨source, -, hsource, -, -, -, rfl⟩ := addRelation_eq_ok.mp h
  intro t ht
  obtain ⟨kv, hkv, rfl⟩ := List.mem_map.mp ht
  rcases Members.mem_put hkv with rfl | hbefore
  · exact Members.nodup_names_put
      (hr source (List.mem_map_of_mem (Members.mem_of_get? hsource)))
  · exact hr kv.2 (List.mem_map_of_mem hbefore)

/-- In a loaded schema the fields of a table's type are called differently when its columns are. -/
theorem nodup_fields_of_load (h : load d source = .ok loaded) (ht : t ∈ loaded.registry.all)
    (hcolumns : (columnNames t).Nodup) : (columnNames t ++ relationNames t).Nodup := by
  have hkeys : (Members.names t.relations).Nodup := by
    obtain ⟨s, -, h⟩ := bind_eq_ok.mp h
    obtain ⟨before, htables, h⟩ := bind_eq_ok.mp h
    obtain ⟨registry, hrelations, h⟩ := bind_eq_ok.mp h
    obtain rfl := pure_eq_ok.mp h
    refine addRelations_induction (P := fun r => ∀ t ∈ r.all, (Members.names t.relations).Nodup)
      hrelations (fun _ _ _ _ hadd => nodup_relations_addRelation hadd) ?_ t ht
    intro t ht
    obtain ⟨kv, hkv, rfl⟩ := List.mem_map.mp ht
    rw [relations_tablesOf htables kv hkv]
    exact .nil
  obtain ⟨s, -, hall⟩ := allStand_of_load h
  obtain ⟨entry, hentry, rfl⟩ := List.mem_map.mp ht
  have hstands := hall entry hentry
  have hnames : relationNames entry.2 = Members.names entry.2.relations := by
    rw [relationNames, Members.values, List.map_map, Members.names]
    exact List.map_congr_left fun named hnamed => (hstands named hnamed).name
  refine List.nodup_append'.mpr ⟨hcolumns, hnames ▸ hkeys, fun name hcolumn hrelation => ?_⟩
  rw [hnames] at hrelation
  obtain ⟨named, hnamed, rfl⟩ := List.mem_map.mp hrelation
  obtain ⟨c, hc, hname⟩ := List.mem_map.mp hcolumn
  have hfree := (hstands named hnamed).free
  rw [(hstands named hnamed).name, Table.hasColumn, Table.column?, ← Bool.not_eq_true,
    List.find?_isSome] at hfree
  exact hfree ⟨c, hc, by simpa using hname⟩

end Loaded

/-! ## Users and their filters -/

namespace Filters

open Loading

/-- A table that is known by a number, with further columns. -/
def numbered (name : String) (columns : List (String × ColumnType)) : TableDeclaration where
  name := name
  columns := { key := "id", name := "id", type := .integer, primary := true, nullable := false } ::
    columns.map fun c => { key := c.1, name := c.1, type := c.2 }

/-- All of two tables under their own names. -/
def both (name name' : String) : SchemaSource :=
  .mapping [(name, .table name), (name', .table name')]

/-- Users with a column for alternatives, and the filters that users have saved. -/
def clashing : Declarations where
  tables := [numbered "user" [("OR", .integer)], numbered "user_filters" []]

/-- The same under other names, with the day of birth and the standing of a user. -/
def clear : Declarations where
  tables := [numbered "user" [("either", .integer), ("born", .date),
      ("standing", .choice "standing" ["guest", "member"])],
    numbered "saved_filter" []]

theorem clear_distinct : ∃ loaded a, load clear (both "user" "saved_filter") = .ok loaded ∧
    assemble loaded.registry {} = .ok a ∧ (a.definitions.map Definition.name).Nodup ∧
    ∀ d ∈ a.definitions, d.members.Nodup := by
  obtain ⟨loaded, hloaded⟩ : ∃ loaded, load clear (both "user" "saved_filter") = .ok loaded :=
    ⟨_, rfl⟩
  obtain ⟨a, ha⟩ : ∃ a, assemble loaded.registry {} = .ok a := by
    cases hloaded
    exact ⟨_, rfl⟩
  obtain ⟨hnames, hmembers⟩ := distinct_iff_of_assemble ha
  have hscalars : a.book.scalars = ["Date"] := by
    cases hloaded
    cases ha
    rfl
  have henums : a.book.enumNames = ["UserStandingEnum"] := by
    cases hloaded
    cases ha
    rfl
  have hfilters : a.book.filterInputs =
      ["IntFieldFilter", "DateFieldFilter", "UserStandingEnumFieldFilter"] := by
    cases hloaded
    cases ha
    rfl
  have htypes : tableTypes loaded.registry = ["User", "SavedFilter"] := by
    cases hloaded
    rfl
  have hinputs : tableInputs loaded.registry = ["User", "SavedFilter"].flatMap fun name =>
      inputEndings.map (name ++ ·) := by
    rw [← htypes, tableTypes, List.flatMap_map]
    rfl
  refine ⟨loaded, a, hloaded, ha, hnames.mpr ⟨?_, ?_, ?_⟩, hmembers.mpr ?_⟩
  · rw [tellingNames, hscalars, henums, hfilters, htypes, hinputs, List.disjoint_left]
    decide
  · rw [henums, hfilters, htypes, hinputs, List.disjoint_left]
    decide
  · rw [← (book_of_assemble ha).nodup_filterInputs, hfilters]
    decide
  · cases hloaded
    decide

/-- The filter input of one table is called as the type of the other, and has a member twice. -/
theorem clashing_not_distinct : ∃ loaded a,
    load clashing (both "user" "user_filters") = .ok loaded ∧
    assemble loaded.registry {} = .ok a ∧ loaded.registry.all ≠ [] ∧
    (∀ t ∈ loaded.registry.all, ∀ name ∈ columnNames t ++ relationNames t,
      Naming.isName name = true) ∧
    ¬ (a.definitions.map Definition.name).Nodup ∧ ¬ ∀ d ∈ a.definitions, d.members.Nodup := by
  obtain ⟨loaded, hloaded⟩ : ∃ loaded, load clashing (both "user" "user_filters") = .ok loaded :=
    ⟨_, rfl⟩
  obtain ⟨a, ha⟩ : ∃ a, assemble loaded.registry {} = .ok a := by
    cases hloaded
    exact ⟨_, rfl⟩
  have hor : "UserFilters" ∈ tableTypes loaded.registry ∧
      "UserFilters" ∈ tableInputs loaded.registry ∧
      ¬ ∀ t ∈ loaded.registry.all, (columnNames t ++ relationNames t).Nodup ∧
        "OR" ∉ columnNames t := by
    cases hloaded
    decide
  have hvalid : loaded.registry.all ≠ [] ∧ ∀ t ∈ loaded.registry.all,
      ∀ name ∈ columnNames t ++ relationNames t, Naming.isName name = true := by
    cases hloaded
    decide
  refine ⟨loaded, a, hloaded, ha, hvalid.1, hvalid.2, fun hnames => ?_, fun hmembers => ?_⟩
  · have hapart := (nodup_names_iff ha).mp hnames
    exact hapart.tables hor.1 (by simp [hor.2.1])
  · exact hor.2.2 ((nodup_members_iff ha).mp hmembers)

end Filters

end RelGraph.Sdl
