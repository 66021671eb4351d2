import RelGraph.Schema.Loading
import RelGraph.Proofs.Members
import RelGraph.Proofs.Outcome
/-!
Looking up tables and columns, and what holds of the registry of every schema that loads: tables are
made from their declarations, and relations, which are added afterwards, leave the columns alone.
Every relation is added by one and the same step, wherever it comes from, so that what this step
keeps holds of the whole.
-/
namespace RelGraph

open Outcome

theorem Table.column_eq_ok {t : Table} {name : String} {c : Column} :
    t.column name = .ok c ↔ t.column? name = some c := by
  unfold Table.column
  cases t.column? name <;> simp [Attempt.mishap]

theorem Table.column?_name {t : Table} {name : String} {c : Column} (h : t.column? name = some c) :
    c.name = name := by
  simpa using List.find?_some h

theorem Registry.table_eq_ok {r : Registry} {name : String} {t : Table} :
    r.table name = .ok t ↔ r.table? name = some t := by
  unfold Registry.table
  cases r.table? name <;> simp [Attempt.mishap]

/-! ## Kinds -/

/-- Every column is of the kind of its declared type. -/
def Table.KindsDeclared (t : Table) : Prop := ∀ c ∈ t.columns, c.kind = c.declaration.type.kind

/-- Every column of every table is of the kind of its declared type. -/
def Registry.KindsDeclared (r : Registry) : Prop := ∀ entry ∈ r.tables, entry.2.KindsDeclared

theorem Registry.KindsDeclared.table? {r : Registry} (h : r.KindsDeclared) {name : String}
    {t : Table} (ht : r.table? name = some t) : t.KindsDeclared :=
  h (name, t) (Members.mem_of_get? ht)

theorem Registry.KindsDeclared.column? {r : Registry} (h : r.KindsDeclared) {table name : String}
    {t : Table} {c : Column} (ht : r.table? table = some t) (hc : t.column? name = some c) :
    c.kind = c.declaration.type.kind :=
  h.table? ht c (List.mem_of_find?_eq_some hc)

/-- A table that is made from its declaration is known by the declared key, and has the columns that
are declared, each under its own name and of the kind of its type. -/
theorem Table.columns_ofDeclaration {name : String} {t : TableDeclaration} {model : Option String}
    {table : Table} (h : Table.ofDeclaration name t model = .ok table) :
    table.declaration = t ∧ table.rowKey = t.rowKey? ∧
      t.columns = table.columns.map (·.declaration) ∧
      ∀ c ∈ table.columns, c.name = c.declaration.key ∧ c.kind = c.declaration.type.kind := by
  obtain ⟨columns, hcolumns, h⟩ := bind_eq_ok.mp h
  obtain rfl := pure_eq_ok.mp h
  have hmade : List.Forall₂ (fun declaration c => c.declaration = id declaration ∧
      c.name = c.declaration.key ∧ c.kind = c.declaration.type.kind) t.columns columns := by
    refine (mapM_eq_ok.mp hcolumns).imp fun declaration c hc => ?_
    obtain ⟨filled, -, hc⟩ := bind_eq_ok.mp hc
    obtain rfl := pure_eq_ok.mp hc
    exact ⟨rfl, rfl, rfl⟩
  refine ⟨rfl, rfl, ?_, fun c hc => ?_⟩
  · simpa using map_eq_of_forall₂ (hmade.imp fun _ _ h => h.1)
  · obtain ⟨declaration, -, -, hboth⟩ := exists_of_forall₂ hmade.flip hc
    exact hboth

/-- Columns that are declared under names of their own have them. -/
theorem Table.nodup_names_ofDeclaration {name : String} {t : TableDeclaration}
    {model : Option String} {table : Table} (h : Table.ofDeclaration name t model = .ok table)
    (hkeys : (t.columns.map (·.key)).Nodup) : (table.columns.map (·.name)).Nodup := by
  obtain ⟨-, -, hdeclared, hcolumns⟩ := columns_ofDeclaration h
  rw [hdeclared, List.map_map] at hkeys
  rwa [List.map_congr_left fun c hc => (hcolumns c hc).1]

theorem Table.kindsDeclared_ofDeclaration {name : String} {t : TableDeclaration}
    {model : Option String} {table : Table}
    (h : Table.ofDeclaration name t model = .ok table) : table.KindsDeclared :=
  fun c hc => ((columns_ofDeclaration h).2.2.2 c hc).2

/-- Every table of a registry is found under its own name. -/
def Registry.NamesTables (r : Registry) : Prop := ∀ t ∈ r.all, r.table? t.name = some t

/-! ## Relations apart -/

/-- A table is another one with relations of its own. -/
def Table.WithRelations (t t' : Table) : Prop :=
  ∃ relations, t' = { t with relations := relations }

theorem Table.WithRelations.hasColumn {t t' : Table} (h : t.WithRelations t') (name : String) :
    t'.hasColumn name = t.hasColumn name := by
  obtain ⟨relations, rfl⟩ := h
  rfl

theorem Registry.withRelations_refl (r : Registry) (name : String) :
    Option.Rel Table.WithRelations (r.table? name) (r.table? name) := by
  cases r.table? name with
  | none => exact .none
  | some t => exact .some ⟨t.relations, rfl⟩

theorem Registry.withRelations_trans {x y z : Option Table}
    (hxy : Option.Rel Table.WithRelations x y) (hyz : Option.Rel Table.WithRelations y z) :
    Option.Rel Table.WithRelations x z := by
  cases hxy with
  | none => exact hyz
  | some hab =>
    obtain ⟨relations, rfl⟩ := hab
    cases hyz with
    | some hbc =>
      obtain ⟨others, rfl⟩ := hbc
      exact .some ⟨others, rfl⟩

/-! ## Keys -/

/-- A column is the only key column of a table, by which its rows are known, and is given its
values. -/
structure Table.KeyColumn (t : Table) (c : Column) : Prop where
  only : t.columns.filter (·.declaration.primary) = [c]
  key : t.rowKey = some c.name
  found : t.column? c.name = some c
  stored : ∀ other ∈ t.columns, other.declaration.name = c.declaration.name → other = c
  given : c.declaration.computed = none
  kind : c.kind = c.declaration.type.kind

theorem Table.KeyColumn.mem {t : Table} {c : Column} (h : t.KeyColumn c) : c ∈ t.columns :=
  List.mem_of_find?_eq_some h.found

/-- A table that is declared with one key column has it. -/
theorem Table.keyColumn_ofDeclaration {name : String} {t : TableDeclaration}
    {model : Option String} {table : Table} {key : ColumnDeclaration}
    (h : Table.ofDeclaration name t model = .ok table) (hkey : t.primaryColumns = [key])
    (hgiven : key.computed = none) (hkeys : (t.columns.map (·.key)).Nodup)
    (hstored : (t.columns.map (·.name)).Nodup) :
    ∃ c, table.KeyColumn c ∧ c.declaration = key := by
  obtain ⟨-, hrowKey, hdeclared, hcolumns⟩ := columns_ofDeclaration h
  have hprimary := hkey
  rw [TableDeclaration.primaryColumns, hdeclared, List.filter_map] at hprimary
  obtain ⟨c, hc, rfl⟩ := List.map_eq_singleton_iff.mp hprimary
  have hmem : c ∈ table.columns := List.mem_of_mem_filter (hc ▸ List.mem_singleton_self c)
  obtain ⟨hname, hkind⟩ := hcolumns c hmem
  have hcells : (table.columns.map (·.declaration.name)).Nodup := by
    rwa [hdeclared, List.map_map] at hstored
  have honly (other : Column) (hother : other ∈ table.columns)
      (hsame : other.declaration.name = c.declaration.name) : other = c :=
    List.inj_on_of_nodup_map hcells hother hmem hsame
  refine ⟨c, ⟨hc, ?_, ?_, honly, hgiven, hkind⟩, rfl⟩
  · rw [hrowKey, TableDeclaration.rowKey?, hkey, hname]
  · obtain ⟨other, hother⟩ : ∃ other, table.column? c.name = some other :=
      Option.isSome_iff_exists.mp (List.find?_isSome.mpr ⟨c, hmem, by simp⟩)
    have hsame : other.name = c.name := by simpa using List.find?_some hother
    rw [hother, List.inj_on_of_nodup_map (nodup_names_ofDeclaration h hkeys)
      (List.mem_of_find?_eq_some hother) hmem hsame]

namespace Loading

variable {d : Declarations} {s : Sorted} {r r' : Registry}

theorem kindsDeclared_put {tables : Members Table} {name : String} {t : Table}
    (h : Registry.KindsDeclared ⟨tables⟩) (ht : t.KindsDeclared) :
    Registry.KindsDeclared ⟨Members.put tables name t⟩ := by
  intro entry hentry
  rcases Members.mem_put hentry with rfl | hbefore
  · exact ht
  · exact h entry hbefore

theorem kindsDeclared_tablesOf (h : tablesOf s = .ok r) : r.KindsDeclared := by
  obtain ⟨tables, htables, h⟩ := bind_eq_ok.mp h
  obtain rfl := pure_eq_ok.mp h
  refine foldlM_induction (P := fun tables => Registry.KindsDeclared ⟨tables⟩) htables ?_ ?_
  · intro tables n _ more hmore hkinds
    obtain ⟨t, ht, hmore⟩ := bind_eq_ok.mp hmore
    obtain rfl := pure_eq_ok.mp hmore
    exact kindsDeclared_put hkinds (Table.kindsDeclared_ofDeclaration ht)
  · simp [Registry.KindsDeclared]

/-! ## Relations -/

/-- A relation is added where its tables are there, its pairs are columns of theirs and its name is
free; it is then one of its source. -/
theorem addRelation_eq_ok {rel : Relation} :
    addRelation r rel = .ok r' ↔ ∃ source target, r.table? rel.source = some source ∧
      r.table? rel.target = some target ∧
      (∀ p ∈ rel.pairs, source.hasColumn p.1 = true ∧ target.hasColumn p.2 = true) ∧
      source.hasColumn rel.name = false ∧
      r' = ⟨Members.put r.tables rel.source
        { source with relations := Members.put source.relations rel.name rel }⟩ := by
  have hfind (source target : Table) :
      (rel.pairs.find? fun p => !source.hasColumn p.1 || !target.hasColumn p.2) = none ↔
        ∀ p ∈ rel.pairs, source.hasColumn p.1 = true ∧ target.hasColumn p.2 = true := by
    simp
  simp only [addRelation, bind_eq_ok, Registry.table_eq_ok]
  refine exists_congr fun source => ?_
  constructor
  · rintro ⟨hsource, target, htarget, h⟩
    refine ⟨target, hsource, htarget, ?_⟩
    split at h
    · cases h
    · rename_i hnone
      split at h
      · cases h
      · rename_i hfree
        exact ⟨(hfind source target).mp hnone, by simpa using hfree, (pure_eq_ok.mp h).symm⟩
  · rintro ⟨target, hsource, htarget, hpairs, hfree, rfl⟩
    refine ⟨hsource, target, htarget, ?_⟩
    simp only [(hfind source target).mpr hpairs, hfree]
    rfl

/-- Where a relation comes from: from a relationship of mapped classes that are joined directly,
from a declared to-one relation, or from a declared to-many relation that may be completed from the
to-one relations. -/
inductive Origin (d : Declarations) (s : Sorted) (rel : Relation) : Prop
  | mapped {joined : List JoinedRelationship} {j : JoinedRelationship} :
      d.joinedRelationships = .ok joined → j ∈ joined → j.direction ≠ .manyToMany →
      rel.fields = j.pairs.map Prod.fst → rel.references = j.pairs.map Prod.snd → Origin d s rel
  | toOne {r : Registry} {owner : String} {set : RelationSet} {declared : RelationDeclaration} :
      set ∈ s.relationSets → declared ∈ set.toOne →
      resolveOne d s r owner declared = .ok rel → Origin d s rel
  | toMany {before r : Registry} {ones : Members (Members Relation)} {owner : String}
      {set : RelationSet} {declared : RelationDeclaration} :
      collectOnes d s before = .ok ones → set ∈ s.relationSets → declared ∈ set.toMany →
      resolveMany d s r ones owner declared = .ok rel → Origin d s rel

/-- Every collected to-one relation completes a declared one. -/
theorem exists_of_mem_collectOnes {ones : Members (Members Relation)} {rels : Members Relation}
    {rel : Relation} (h : collectOnes d s r = .ok ones) (hrels : rels ∈ Members.values ones)
    (hrel : rel ∈ Members.values rels) : ∃ owner, ∃ set ∈ s.relationSets, ∃ declared ∈ set.toOne,
      resolveOne d s r owner declared = .ok rel := by
  let Completed (rel : Relation) : Prop := ∃ owner, ∃ set ∈ s.relationSets,
    ∃ declared ∈ set.toOne, resolveOne d s r owner declared = .ok rel
  have hall : ∀ entry ∈ ones, ∀ one ∈ entry.2, Completed one.2 := by
    refine foldlM_induction (P := fun ones : Members (Members Relation) =>
      ∀ entry ∈ ones, ∀ one ∈ entry.2, Completed one.2) h ?_ (by simp)
    intro acc set hset acc' hstep hacc
    obtain ⟨owner, -, hstep⟩ := bind_eq_ok.mp hstep
    refine foldlM_induction (P := fun ones : Members (Members Relation) =>
      ∀ entry ∈ ones, ∀ one ∈ entry.2, Completed one.2) hstep ?_ hacc
    intro acc declared hdeclared acc' hstep hacc
    obtain ⟨one, hone, hstep⟩ := bind_eq_ok.mp hstep
    obtain rfl := pure_eq_ok.mp hstep
    intro entry hentry kv hkv
    rcases Members.mem_put hentry with rfl | hbefore
    · rcases Members.mem_put hkv with rfl | hown
      · exact ⟨owner, set, hset, declared, hdeclared, hone⟩
      · cases hown' : Members.get? acc owner with
        | none => simp [hown'] at hown
        | some known =>
          rw [hown', Option.getD_some] at hown
          exact hacc _ (Members.mem_of_get? hown') _ hown
    · exact hacc entry hbefore kv hkv
  obtain ⟨entry, hentry, rfl⟩ := List.mem_map.mp hrels
  obtain ⟨one, hone, rfl⟩ := List.mem_map.mp hrel
  exact hall entry hentry one hone

/-- What every relation that is added keeps, adding all relations keeps. -/
theorem addRelations_induction {P : Registry → Prop} (h : addRelations d s r = .ok r')
    (hstep : ∀ r rel r', Origin d s rel → addRelation r rel = .ok r' → P r → P r') (hr : P r) :
    P r' := by
  unfold addRelations at h
  extract_lets addAll at h
  -- The same passes add the relations, whether or not there are joined relationships to mind.
  have hall (joined : List JoinedRelationship)
      (hjoined : ∀ j ∈ joined, ∃ all, d.joinedRelationships = .ok all ∧ j ∈ all)
      (h : addAll joined = .ok r') : P r' := by
    obtain ⟨withMapped, hmapped, h⟩ := bind_eq_ok.mp h
    obtain ⟨ones, hones, h⟩ := bind_eq_ok.mp h
    obtain ⟨withOnes, haddOnes, hmany⟩ := bind_eq_ok.mp h
    have hmapped : P withMapped := by
      refine foldlM_induction hmapped (fun r t _ r' ht hr => ?_) hr
      refine foldlM_induction ht (fun r j hj r' hstep' hr => ?_) hr
      obtain ⟨all, hall, hmem⟩ := hjoined j (List.mem_of_mem_filter hj)
      dsimp only at hstep'
      split at hstep'
      · obtain rfl := pure_eq_ok.mp hstep'
        exact hr
      · rename_i hdirect
        obtain ⟨target, -, hadd⟩ := bind_eq_ok.mp hstep'
        exact hstep _ _ _ (.mapped hall hmem hdirect rfl rfl) hadd hr
    have hwithOnes : P withOnes := by
      refine foldlM_induction haddOnes (fun r rels hrels r' hadd hr => ?_) hmapped
      refine foldlM_induction hadd (fun r rel hrel r' hadd hr => ?_) hr
      obtain ⟨owner, set, hset, declared, hdeclared, hone⟩ :=
        exists_of_mem_collectOnes hones hrels hrel
      exact hstep _ _ _ (.toOne hset hdeclared hone) hadd hr
    refine foldlM_induction hmany (fun r set hset r' hadd hr => ?_) hwithOnes
    obtain ⟨owner, -, hadd⟩ := bind_eq_ok.mp hadd
    refine foldlM_induction hadd (fun r declared hdeclared r' hadd hr => ?_) hr
    obtain ⟨rel, hrel, hadd⟩ := bind_eq_ok.mp hadd
    exact hstep _ _ _ (.toMany hones hset hdeclared hrel) hadd hr
  split at h
  · exact hall [] (by simp) h
  · obtain ⟨joined, hjoined, h⟩ := bind_eq_ok.mp h
    exact hall joined (fun j hj => ⟨joined, hjoined, hj⟩) h

/-! ### What relations leave alone -/

theorem names_addRelation {rel : Relation} (h : addRelation r rel = .ok r') :
    Members.names r'.tables = Members.names r.tables := by
  obtain ⟨source, -, hsource, -, -, -, rfl⟩ := addRelation_eq_ok.mp h
  have hhas : Members.has r.tables rel.source = true := Option.isSome_iff_exists.mpr ⟨_, hsource⟩
  rw [Members.names_put, if_pos hhas]

/-- A relation that is added changes no table but for its relations. -/
theorem table?_addRelation {rel : Relation} (h : addRelation r rel = .ok r') (name : String) :
    Option.Rel Table.WithRelations (r.table? name) (r'.table? name) := by
  obtain ⟨source, -, hsource, -, -, -, rfl⟩ := addRelation_eq_ok.mp h
  by_cases hname : name = rel.source
  · subst hname
    rw [hsource]
    show Option.Rel _ _ (Members.get? (Members.put _ _ _) _)
    rw [Members.get?_put_self]
    exact .some ⟨_, rfl⟩
  · show Option.Rel _ _ (Members.get? (Members.put _ _ _) _)
    rw [Members.get?_put_of_ne _ _ hname]
    exact Registry.withRelations_refl r name

theorem names_addRelations (h : addRelations d s r = .ok r') :
    Members.names r'.tables = Members.names r.tables :=
  addRelations_induction (P := fun r' => Members.names r'.tables = Members.names r.tables) h
    (fun _ _ _ _ hadd hnames => (names_addRelation hadd).trans hnames) rfl

theorem table?_addRelations (h : addRelations d s r = .ok r') (name : String) :
    Option.Rel Table.WithRelations (r.table? name) (r'.table? name) :=
  addRelations_induction
    (P := fun r' => Option.Rel Table.WithRelations (r.table? name) (r'.table? name)) h
    (fun _ _ _ _ hadd hsame => Registry.withRelations_trans hsame (table?_addRelation hadd name))
    (Registry.withRelations_refl r name)

/-- A relation that is added leaves the columns of all tables as they were. -/
theorem kindsDeclared_addRelation {rel : Relation} (h : addRelation r rel = .ok r')
    (hkinds : r.KindsDeclared) : r'.KindsDeclared := by
  obtain ⟨source, -, hsource, -, -, -, rfl⟩ := addRelation_eq_ok.mp h
  have hcolumns := hkinds.table? hsource
  exact kindsDeclared_put hkinds hcolumns

theorem kindsDeclared_addRelations (h : addRelations d s r = .ok r') (hkinds : r.KindsDeclared) :
    r'.KindsDeclared :=
  addRelations_induction h (fun _ _ _ _ => kindsDeclared_addRelation) hkinds

/-- In the registry of a schema every column is of the kind of its declared type. -/
theorem kindsDeclared_of_load {source : SchemaSource} {loaded : Loaded}
    (h : load d source = .ok loaded) : loaded.registry.KindsDeclared := by
  obtain ⟨s, -, h⟩ := bind_eq_ok.mp h
  obtain ⟨r, htables, h⟩ := bind_eq_ok.mp h
  obtain ⟨registry, hrelations, h⟩ := bind_eq_ok.mp h
  obtain rfl := pure_eq_ok.mp h
  exact kindsDeclared_addRelations hrelations (kindsDeclared_tablesOf htables)

end Loading
end RelGraph
