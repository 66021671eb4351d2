import RelGraph.Proofs.Schema.Dependency
import RelGraph.Proofs.Schema.Registry
/-!
Registration: which tables a source brings into the registry, and under which names. Sorting a
source only ever adds to what is recorded, a table with the first name under which it is met, so
every table that the source mentions is recorded once. The registry has the recorded names, each
once, and under each the table that was recorded last with it. So every table is found under its
name precisely where no two tables are recorded under one.
-/
namespace RelGraph

open Outcome

/-- A source has a table among its entries, at any depth. -/
inductive SchemaSource.Mentions (d : Declarations) : SchemaSource → TableDeclaration → Prop
  | table {name : String} {t : TableDeclaration} :
      d.table? name = some t → Mentions d (.table name) t
  | model {name : String} {t : TableDeclaration} :
      d.modelTable? name = some t → Mentions d (.model name) t
  | allTables {t : TableDeclaration} : t ∈ d.tables → Mentions d .allTables t
  | mappedBase {t : TableDeclaration} : t ∈ d.tables → Mentions d .mappedBase t
  | mapping {entries : List (String × SchemaSource)} {key : String} {source : SchemaSource}
      {t : TableDeclaration} :
      (key, source) ∈ entries → Mentions d source t → Mentions d (.mapping entries) t
  | listing {entries : List SchemaSource} {source : SchemaSource} {t : TableDeclaration} :
      source ∈ entries → Mentions d source t → Mentions d (.listing entries) t

namespace SchemaSource

variable {d : Declarations} {source : SchemaSource} {t : TableDeclaration}

theorem Mentions.mem_tables (h : source.Mentions d t) : t ∈ d.tables := by
  induction h with
  | table hfound => exact List.mem_of_find?_eq_some hfound
  | model hfound => exact List.mem_reverse.mp (List.mem_of_find?_eq_some hfound)
  | allTables hmem => exact hmem
  | mappedBase hmem => exact hmem
  | mapping _ _ ih => exact ih
  | listing _ _ ih => exact ih

theorem mentions_mapping_cons {key : String} {entries : List (String × SchemaSource)} :
    (mapping ((key, source) :: entries)).Mentions d t ↔
      source.Mentions d t ∨ (mapping entries).Mentions d t := by
  constructor
  · intro h
    cases h with
    | mapping hmem h =>
      rcases List.mem_cons.mp hmem with heq | hrest
      · cases heq
        exact .inl h
      · exact .inr (.mapping hrest h)
  · rintro (h | h)
    · exact .mapping (List.mem_cons_self ..) h
    · cases h with
      | mapping hmem h => exact .mapping (List.mem_cons_of_mem _ hmem) h

theorem mentions_listing_cons {entries : List SchemaSource} :
    (listing (source :: entries)).Mentions d t ↔
      source.Mentions d t ∨ (listing entries).Mentions d t := by
  constructor
  · intro h
    cases h with
    | listing hmem h =>
      rcases List.mem_cons.mp hmem with rfl | hrest
      · exact .inl h
      · exact .inr (.listing hrest h)
  · rintro (h | h)
    · exact .listing (List.mem_cons_self ..) h
    · cases h with
      | listing hmem h => exact .listing (List.mem_cons_of_mem _ hmem) h

end SchemaSource

namespace Loading.Sorted

variable {d : Declarations} {s s' : Sorted} {t : TableDeclaration} {name table : String}

/-! ## What is recorded -/

/-- The tables in the order in which they were met, with the names that they were given. -/
def recorded (s : Sorted) : List (TableDeclaration × String) :=
  s.tables.map fun n => (n.declaration, n.name)

/-- The names by which the recorded tables know themselves. -/
def knownTables (s : Sorted) : List String := s.recorded.map (·.1.name)

theorem knownTables_eq : s.knownTables = s.tables.map (·.declaration.name) := by
  simp [knownTables, recorded]

theorem isSome_nameOf? : (s.nameOf? table).isSome ↔ table ∈ s.knownTables := by
  simp [nameOf?, knownTables_eq]

/-- A table that is met again keeps its place and its name; a new one comes last. -/
theorem recorded_addTable {model : Option String} :
    (s.addTable name t model).recorded =
      if t.name ∈ s.knownTables then s.recorded else s.recorded ++ [(t, name)] := by
  unfold addTable
  by_cases hknown : t.name ∈ s.knownTables
  · rw [if_pos (isSome_nameOf?.mpr hknown), if_pos hknown]
    cases model with
    | none => rfl
    | some model =>
      simp only [recorded, List.map_map]
      refine List.map_congr_left fun n _ => ?_
      by_cases hn : n.declaration.name = t.name <;> simp [hn]
  · rw [if_neg fun h => hknown (isSome_nameOf?.mp h), if_neg hknown]
    simp [recorded]

/-- What sorting further entries does that mention certain tables: it records those of them that
were not known, each once and behind the others. -/
structure Grows (mentioned : TableDeclaration → Prop) (s s' : Sorted) : Prop where
  behind : ∃ more, s'.recorded = s.recorded ++ more ∧ ∀ entry ∈ more, mentioned entry.1
  once : s.knownTables.Nodup → s'.knownTables.Nodup
  known : ∀ t, mentioned t → t.name ∈ s'.knownTables

namespace Grows

variable {mentioned others : TableDeclaration → Prop} {s'' : Sorted}

/-- Where nothing is mentioned, the same tables are recorded. -/
theorem none (h : s'.recorded = s.recorded) (hnone : ∀ t, ¬ mentioned t) :
    Grows mentioned s s' where
  behind := ⟨[], by simpa using h, by simp⟩
  once := by simp [knownTables, h]
  known := fun t ht => absurd ht (hnone t)

theorem known_of_known (h : Grows mentioned s s') (hs : table ∈ s.knownTables) :
    table ∈ s'.knownTables := by
  obtain ⟨more, heq, -⟩ := h.behind
  rw [knownTables, heq, List.map_append]
  exact List.mem_append_left _ hs

theorem trans (h : Grows mentioned s s') (h' : Grows others s' s'') :
    Grows (fun t => mentioned t ∨ others t) s s'' := by
  obtain ⟨more, heq, hmore⟩ := h.behind
  obtain ⟨more', heq', hmore'⟩ := h'.behind
  refine ⟨⟨more ++ more', by rw [heq', heq, List.append_assoc], fun entry hentry => ?_⟩,
    h'.once ∘ h.once, ?_⟩
  · exact (List.mem_append.mp hentry).imp (hmore entry) (hmore' entry)
  · rintro t (ht | ht)
    · exact h'.known_of_known (h.known t ht)
    · exact h'.known t ht

theorem congr (h : Grows mentioned s s') (hiff : ∀ t, mentioned t ↔ others t) :
    Grows others s s' := by
  obtain rfl : mentioned = others := funext fun t => propext (hiff t)
  exact h

/-- All else than the tables may change. -/
theorem of_recorded (h : Grows mentioned s s') (heq : s''.recorded = s'.recorded) :
    Grows mentioned s s'' where
  behind := heq ▸ h.behind
  once := by simpa only [knownTables, heq] using h.once
  known := by simpa only [knownTables, heq] using h.known

theorem addTable {model : Option String} : Grows (· = t) s (s.addTable name t model) := by
  refine ⟨?_, fun hnodup => ?_, ?_⟩
  · rw [recorded_addTable]
    split
    · exact ⟨[], by simp, by simp⟩
    · exact ⟨[(t, name)], rfl, by simp⟩
  · rw [knownTables, recorded_addTable]
    split
    · exact hnodup
    · rename_i hnew
      rw [List.map_append]
      exact hnodup.append (by simp) (by simpa using hnew)
  · rintro _ rfl
    rw [knownTables, recorded_addTable]
    split
    · rename_i hknown
      exact hknown
    · simp

theorem addMapped {name : Option String} : Grows (· = t) s (s.addMapped name t) := by
  rw [Sorted.addMapped]
  split
  · exact addTable
  · exact addTable.of_recorded rfl

theorem foldl {f : Sorted → TableDeclaration → Sorted} {ts : List TableDeclaration}
    (hf : ∀ s t, Grows (· = t) s (f s t)) : Grows (· ∈ ts) s (ts.foldl f s) := by
  induction ts generalizing s with
  | nil => exact none rfl (by simp)
  | cons t ts ih => exact ((hf s t).trans ih).congr (by simp)

end Grows

mutual

/-- Plain values add no tables. -/
theorem tables_addValue (s : Sorted) (name : Option String) (v : Value) :
    (s.addValue name v).tables = s.tables := by
  cases v with
  | list items => exact tables_addItems s items
  | tuple items => exact tables_addItems s items
  | object members => exact tables_addMembers s members
  | _ => rfl

theorem tables_addItems (s : Sorted) (items : List Value) :
    (s.addItems items).tables = s.tables := by
  cases items with
  | nil => rfl
  | cons v rest => exact (tables_addItems (s.addValue none v) rest).trans (tables_addValue s none v)

theorem tables_addMembers (s : Sorted) (members : List (String × Value)) :
    (s.addMembers members).tables = s.tables := by
  match members with
  | [] => rfl
  | (k, v) :: rest =>
    exact (tables_addMembers (s.addValue (some k) v) rest).trans (tables_addValue s (some k) v)

end

mutual

/-- Sorting a source records the tables that it mentions. -/
theorem grows_add {s' : Sorted} (hd : (d.tables.map (·.name)).Nodup) (s : Sorted)
    (name : Option String) (source : SchemaSource) (h : add d s name source = .ok s') :
    Grows (source.Mentions d) s s' := by
  cases source with
  | mapping entries => exact grows_addEntries hd s entries h
  | listing entries => exact grows_addListing hd s entries h
  | table table =>
    rw [add] at h
    split at h
    · rename_i t ht
      obtain rfl := Except.ok.inj h
      refine Grows.addTable.congr fun u => ⟨?_, fun hu => ?_⟩
      · rintro rfl
        exact .table ht
      · cases hu with
        | table hu => exact Option.some.inj (hu.symm.trans ht)
    · rename_i hnone
      obtain rfl := Except.ok.inj h
      refine Grows.none rfl fun u hu => ?_
      cases hu with
      | table hu => cases hnone.symm.trans hu
  | model model =>
    rw [add] at h
    split at h
    · rename_i t ht
      obtain rfl := Except.ok.inj h
      refine Grows.addMapped.congr fun u => ⟨?_, fun hu => ?_⟩
      · rintro rfl
        exact .model ht
      · cases hu with
        | model hu => exact Option.some.inj (hu.symm.trans ht)
    · rename_i hnone
      obtain rfl := Except.ok.inj h
      refine Grows.none rfl fun u hu => ?_
      cases hu with
      | model hu => cases hnone.symm.trans hu
  | allTables =>
    rw [add] at h
    obtain ⟨ts, hts, h⟩ := bind_eq_ok.mp h
    obtain rfl := pure_eq_ok.mp h
    refine (Grows.foldl fun s t => Grows.addTable).congr fun u => ?_
    rw [Declarations.mem_byDependency hd hts]
    refine ⟨.allTables, fun hu => ?_⟩
    cases hu with
    | allTables hu => exact hu
  | mappedBase =>
    rw [add] at h
    obtain rfl := Except.ok.inj h
    refine (Grows.foldl fun s t => ?_).congr fun u => ⟨.mappedBase, fun hu => ?_⟩
    · split
      · exact Grows.addMapped
      · exact Grows.addTable
    · cases hu with
      | mappedBase hu => exact hu
  | relations index =>
    rw [add] at h
    split at h
    all_goals
      obtain rfl := Except.ok.inj h
      exact Grows.none rfl fun u => nofun
  | other v =>
    rw [add] at h
    obtain rfl := Except.ok.inj h
    exact Grows.none (by rw [recorded, tables_addValue, recorded]) fun u => nofun

theorem grows_addEntries {s' : Sorted} (hd : (d.tables.map (·.name)).Nodup) (s : Sorted)
    (entries : List (String × SchemaSource)) (h : addEntries d s entries = .ok s') :
    Grows ((SchemaSource.mapping entries).Mentions d) s s' := by
  match entries with
  | [] =>
    obtain rfl := Except.ok.inj h
    refine Grows.none rfl fun u hu => ?_
    cases hu with
    | mapping hmem _ => simp at hmem
  | (key, source) :: rest =>
    rw [addEntries] at h
    obtain ⟨next, hnext, h⟩ := bind_eq_ok.mp h
    have hfirst := grows_add hd s (some key) source hnext
    exact (hfirst.trans (grows_addEntries hd next rest h)).congr
      fun u => SchemaSource.mentions_mapping_cons.symm

theorem grows_addListing {s' : Sorted} (hd : (d.tables.map (·.name)).Nodup) (s : Sorted)
    (entries : List SchemaSource) (h : addListing d s entries = .ok s') :
    Grows ((SchemaSource.listing entries).Mentions d) s s' := by
  match entries with
  | [] =>
    obtain rfl := Except.ok.inj h
    refine Grows.none rfl fun u hu => ?_
    cases hu with
    | listing hmem _ => simp at hmem
  | source :: rest =>
    rw [addListing] at h
    obtain ⟨next, hnext, h⟩ := bind_eq_ok.mp h
    have hfirst := grows_add hd s none source hnext
    exact (hfirst.trans (grows_addListing hd next rest h)).congr
      fun u => SchemaSource.mentions_listing_cons.symm

end

/-! ## The names of tables -/

/-- The table that was recorded last under a name. -/
def lastNamed? (s : Sorted) (name : String) : Option NamedTable :=
  s.tables.reverse.find? (·.name = name)

/-- The registry has a table under the name that is recorded for it. -/
def Finds (s : Sorted) (r : Registry) (t : TableDeclaration) : Prop :=
  ∃ name table, s.nameOf? t.name = some name ∧ r.table? name = some table ∧ table.declaration = t

theorem nameOf?_of_mem {n : NamedTable} (hs : s.knownTables.Nodup) (hn : n ∈ s.tables) :
    s.nameOf? n.declaration.name = some n.name := by
  rw [knownTables_eq] at hs
  obtain ⟨found, hfound⟩ : ∃ found, s.tables.find?
      (fun m => decide (m.declaration.name = n.declaration.name)) = some found :=
    Option.isSome_iff_exists.mp (List.find?_isSome.mpr ⟨n, hn, by simp⟩)
  have hsame : found.declaration.name = n.declaration.name := by
    simpa using List.find?_some hfound
  rw [nameOf?, hfound, List.inj_on_of_nodup_map hs (List.mem_of_find?_eq_some hfound) hn hsame]
  rfl

theorem mem_of_lastNamed? {n : NamedTable} (h : s.lastNamed? name = some n) :
    n ∈ s.tables ∧ n.name = name :=
  ⟨List.mem_reverse.mp (List.mem_of_find?_eq_some h), by simpa using List.find?_some h⟩

theorem isSome_lastNamed? : (s.lastNamed? name).isSome ↔ name ∈ s.tables.map (·.name) := by
  simp [lastNamed?]

/-- Where no two tables share a name, each is the last under its own. -/
theorem lastNamed?_of_mem {n : NamedTable} (hs : (s.tables.map (·.name)).Nodup)
    (hn : n ∈ s.tables) : s.lastNamed? n.name = some n := by
  obtain ⟨last, hlast⟩ := Option.isSome_iff_exists.mp
    (isSome_lastNamed?.mpr (List.mem_map_of_mem (f := (·.name)) hn))
  obtain ⟨hmem, hname⟩ := mem_of_lastNamed? hlast
  rw [hlast, List.inj_on_of_nodup_map hs hmem hn hname]

end Sorted

/-! ## The registry -/

/-- A registered table is a recorded one, with relations. -/
def NamedTable.Describes (n : NamedTable) (table : Table) : Prop :=
  ∃ made, Table.ofDeclaration n.name n.declaration n.model = .ok made ∧ made.WithRelations table

theorem NamedTable.Describes.eq {n : NamedTable} {table : Table} (h : n.Describes table) :
    table.name = n.name ∧ table.declaration = n.declaration := by
  obtain ⟨made, hmade, relations, rfl⟩ := h
  obtain ⟨columns, -, hmade⟩ := bind_eq_ok.mp hmade
  obtain rfl := pure_eq_ok.mp hmade
  exact ⟨rfl, rfl⟩

variable {d : Declarations} {s : Sorted} {r : Registry}

/-- Of what is put under one name the last stays. -/
theorem get?_registered {ns : List NamedTable} {tables : Members Table}
    (h : ns.foldlM (fun acc n => do
      return Members.put acc n.name (← Table.ofDeclaration n.name n.declaration n.model)) [] =
        .ok tables) (name : String) :
    (Members.names tables).Nodup ∧ Option.Rel NamedTable.Describes
      (ns.reverse.find? (·.name = name)) (Members.get? tables name) := by
  induction ns using List.reverseRecOn generalizing tables with
  | nil =>
    obtain rfl := pure_eq_ok.mp h
    exact ⟨List.nodup_nil, .none⟩
  | append_singleton ns n ih =>
    rw [List.foldlM_append] at h
    obtain ⟨before, hbefore, h⟩ := bind_eq_ok.mp h
    rw [List.foldlM_cons] at h
    obtain ⟨after, hafter, h⟩ := bind_eq_ok.mp h
    obtain rfl := pure_eq_ok.mp h
    obtain ⟨made, hmade, hafter⟩ := bind_eq_ok.mp hafter
    obtain rfl := pure_eq_ok.mp hafter
    obtain ⟨hnodup, hrel⟩ := ih hbefore
    refine ⟨Members.nodup_names_put hnodup, ?_⟩
    rw [List.reverse_append, List.reverse_singleton, List.singleton_append, List.find?_cons]
    by_cases hname : n.name = name
    · subst hname
      rw [Members.get?_put_self]
      simpa using ⟨made, hmade, made.relations, rfl⟩
    · rw [Members.get?_put_of_ne _ _ (Ne.symm hname)]
      simpa [hname] using hrel

/-- Before there are relations, every name has the table that was recorded last under it. -/
theorem table?_tablesOf (h : tablesOf s = .ok r) (name : String) :
    (Members.names r.tables).Nodup ∧
      Option.Rel NamedTable.Describes (s.lastNamed? name) (r.table? name) := by
  obtain ⟨tables, htables, h⟩ := bind_eq_ok.mp h
  obtain rfl := pure_eq_ok.mp h
  exact get?_registered htables name

theorem describes_trans {x : Option NamedTable} {y z : Option Table}
    (hxy : Option.Rel NamedTable.Describes x y) (hyz : Option.Rel Table.WithRelations y z) :
    Option.Rel NamedTable.Describes x z := by
  cases hxy with
  | none => exact by cases hyz; exact .none
  | some hab =>
    obtain ⟨made, hmade, relations, rfl⟩ := hab
    cases hyz with
    | some hbc =>
      obtain ⟨others, rfl⟩ := hbc
      exact .some ⟨made, hmade, others, rfl⟩

/-- A loaded registry has each recorded name once, with the table recorded last under it. -/
theorem table?_of_load {source : SchemaSource} {loaded : Loaded} (h : load d source = .ok loaded) :
    ∃ s, Sorted.add d {} none source = .ok s ∧ (Members.names loaded.registry.tables).Nodup ∧
      ∀ name, Option.Rel NamedTable.Describes (s.lastNamed? name)
        (loaded.registry.table? name) := by
  obtain ⟨s, hs, h⟩ := bind_eq_ok.mp h
  obtain ⟨r, htables, h⟩ := bind_eq_ok.mp h
  obtain ⟨registry, hrelations, h⟩ := bind_eq_ok.mp h
  obtain rfl := pure_eq_ok.mp h
  refine ⟨s, hs, ?_, fun name => ?_⟩
  · rw [names_addRelations hrelations]
    exact (table?_tablesOf htables "").1
  · exact describes_trans (table?_tablesOf htables name).2 (table?_addRelations hrelations name)

/-- In a loaded schema every table is found under its own name. -/
theorem namesTables_of_load {source : SchemaSource} {loaded : Loaded}
    (h : load d source = .ok loaded) : loaded.registry.NamesTables := by
  obtain ⟨s, -, hnodup, hall⟩ := table?_of_load h
  intro t ht
  obtain ⟨⟨key, t⟩, hmem, rfl⟩ := List.mem_map.mp ht
  have hfound : loaded.registry.table? key = some t := Members.get?_of_mem hnodup hmem
  have hrel := hall key
  rw [hfound] at hrel
  cases hlast : s.lastNamed? key with
  | none => simp [hlast] at hrel
  | some n =>
    rw [hlast] at hrel
    cases hrel with
    | some hdescribes =>
      rw [hdescribes.eq.1, (Sorted.mem_of_lastNamed? hlast).2]
      exact hfound

/-- The tables that a source mentions are the recorded ones, and each of them is recorded once. -/
theorem Sorted.mentions_iff {source : SchemaSource} (hd : (d.tables.map (·.name)).Nodup)
    (h : Sorted.add d {} none source = .ok s) : s.knownTables.Nodup ∧
      ∀ t, source.Mentions d t ↔ ∃ n ∈ s.tables, n.declaration = t := by
  have hgrows := Sorted.grows_add hd {} none source h
  obtain ⟨more, heq, hmore⟩ := hgrows.behind
  have hmentioned : ∀ n ∈ s.tables, source.Mentions d n.declaration := by
    intro n hn
    refine hmore (n.declaration, n.name) ?_
    rw [show more = s.recorded from heq.symm]
    exact List.mem_map_of_mem (f := fun n : NamedTable => (n.declaration, n.name)) hn
  refine ⟨hgrows.once List.nodup_nil, fun t => ⟨fun ht => ?_, ?_⟩⟩
  · have hknown := hgrows.known t ht
    rw [Sorted.knownTables_eq] at hknown
    obtain ⟨n, hn, hname⟩ := List.mem_map.mp hknown
    exact ⟨n, hn, List.inj_on_of_nodup_map hd (hmentioned n hn).mem_tables ht.mem_tables hname⟩
  · rintro ⟨n, hn, rfl⟩
    exact hmentioned n hn

/-- Loading a schema brings each table that the source mentions, once, under the first name under
which it is met; the registry has these names, each once, and no table stands under a name other
than its own. Of several tables that are recorded under one name the last stands there, so all
mentioned tables are found under their names precisely where no two share one. -/
theorem registers_of_load {source : SchemaSource} {loaded : Loaded}
    (hd : (d.tables.map (·.name)).Nodup) (h : load d source = .ok loaded) :
    ∃ s, Sorted.add d {} none source = .ok s ∧
      (s.knownTables.Nodup ∧ ∀ t, source.Mentions d t ↔ ∃ n ∈ s.tables, n.declaration = t) ∧
      (Members.names loaded.registry.tables).Nodup ∧
      (∀ name, Option.Rel NamedTable.Describes (s.lastNamed? name)
        (loaded.registry.table? name)) ∧
      (∀ name table, loaded.registry.table? name = some table →
        table.name = name ∧ s.nameOf? table.declaration.name = some name) ∧
      ((∀ t, source.Mentions d t → s.Finds loaded.registry t) ↔
        (s.tables.map (·.name)).Nodup) := by
  obtain ⟨s, hs, hnodup, hlast⟩ := table?_of_load h
  have hrecorded := Sorted.mentions_iff hd hs
  have hknown := hrecorded.1
  have hdeclarations : (s.tables.map (·.declaration.name)).Nodup := Sorted.knownTables_eq ▸ hknown
  refine ⟨s, hs, hrecorded, hnodup, hlast, fun name table htable => ?_, fun hall => ?_, ?_⟩
  · have hrel := hlast name
    rw [htable] at hrel
    cases hn : s.lastNamed? name with
    | none => simp [hn] at hrel
    | some n =>
      rw [hn] at hrel
      cases hrel with
      | some hdescribes =>
        obtain ⟨hmem, rfl⟩ := Sorted.mem_of_lastNamed? hn
        obtain ⟨hname, hdeclaration⟩ := hdescribes.eq
        exact ⟨hname, hdeclaration ▸ Sorted.nameOf?_of_mem hknown hmem⟩
  · -- Two tables under one name are both the one that is found there.
    refine (List.Nodup.of_map _ hdeclarations).map_on fun n hn m hm hnm => ?_
    have hfound (k : NamedTable) (hk : k ∈ s.tables) :
        ∃ table, loaded.registry.table? k.name = some table ∧
          table.declaration = k.declaration := by
      obtain ⟨name, table, hname, htable, heq⟩ :=
        hall k.declaration ((hrecorded.2 _).mpr ⟨k, hk, rfl⟩)
      obtain rfl := Option.some.inj ((Sorted.nameOf?_of_mem hknown hk).symm.trans hname)
      exact ⟨table, htable, heq⟩
    obtain ⟨there, hthere, hn'⟩ := hfound n hn
    obtain ⟨here, hhere, hm'⟩ := hfound m hm
    obtain rfl := Option.some.inj (hthere.symm.trans (hnm ▸ hhere))
    exact List.inj_on_of_nodup_map hdeclarations hn hm (by rw [← hn', hm'])
  · intro hnames t ht
    obtain ⟨n, hn, rfl⟩ := (hrecorded.2 t).mp ht
    have hrel := hlast n.name
    rw [Sorted.lastNamed?_of_mem hnames hn] at hrel
    cases htable : loaded.registry.table? n.name with
    | none => simp [htable] at hrel
    | some table =>
      rw [htable] at hrel
      cases hrel with
      | some hdescribes =>
        exact ⟨n.name, table, Sorted.nameOf?_of_mem hknown hn, htable, hdescribes.eq.2⟩

/-! ## Two tables and their names -/

namespace Namesakes

/-- A table that is known by a number. -/
def numbered (name : String) (model : Option String) (keys : List ForeignKey) :
    TableDeclaration where
  name := name
  columns := [{ key := "id", name := "id", type := .integer, primary := true, nullable := false }]
  keys := keys
  model := model

/-- Books, which are known by the number of their author. -/
def books : TableDeclaration := numbered "books" none [⟨[("id", .column ⟨"authors", "id"⟩)]⟩]

/-- Books and the authors that they refer to, who have a class. -/
def declared : Declarations where
  tables := [books, numbered "authors" (some "Author") []]

/-- The books under a name within a name, all tables, and the authors once more. -/
def library : SchemaSource :=
  .mapping [("shelf", .mapping [("works", .table "books")]), ("base", .mappedBase),
    ("writers", .model "Author")]

/-- Both tables under one name, in two mappings. -/
def shelves : SchemaSource :=
  .listing [.mapping [("x", .table "books")], .mapping [("x", .table "authors")]]

theorem library_registered : ∃ loaded s, (declared.tables.map (·.name)).Nodup ∧
    load declared library = .ok loaded ∧ Sorted.add declared {} none library = .ok s ∧
    s.tables.map (·.name) = ["works", "authors"] ∧
    ∀ t, library.Mentions declared t → s.Finds loaded.registry t := by
  obtain ⟨loaded, hloaded⟩ : ∃ loaded, load declared library = .ok loaded := ⟨_, rfl⟩
  have hnodup : (declared.tables.map (·.name)).Nodup := by decide
  obtain ⟨s, hs, -, -, -, -, hfinds⟩ := registers_of_load hnodup hloaded
  have hnames : s.tables.map (·.name) = ["works", "authors"] := by
    cases hs
    rfl
  exact ⟨loaded, s, hnodup, hloaded, hs, hnames, hfinds.mpr (by rw [hnames]; decide)⟩

/-- The second table under a name takes the place of the first, which is then found nowhere. -/
theorem first_replaced : ∃ loaded s, load declared shelves = .ok loaded ∧
    Sorted.add declared {} none shelves = .ok s ∧ shelves.Mentions declared books ∧
    s.nameOf? "books" = some "x" ∧ ¬ s.Finds loaded.registry books := by
  refine ⟨_, _, rfl, rfl, ?_, rfl, ?_⟩
  · exact .listing (List.mem_cons_self ..) (.mapping (List.mem_singleton_self _) (.table rfl))
  · rintro ⟨name, table, hname, htable, hbooks⟩
    obtain rfl : "x" = name := Option.some.inj hname
    cases htable
    have hsame := congrArg TableDeclaration.name hbooks
    exact absurd hsame (by decide)

end Namesakes

end Loading
end RelGraph
