import RelGraph.Proofs.Schema.Registry
/-!
The relations of a loaded schema. Each stands under its own name with its source, its target is
there, every pair of its columns is checked against both tables, and it has columns on both sides.
The pairs end where the shorter list of columns does, so a relation joins its tables column by
column precisely where both lists are of one length; only lists that were declared so are not.
-/
namespace RelGraph

open Outcome

/-- A relation joins two tables column by column: both are there, every field is a column of the
source with a reference that is a column of the target, and no column of the source has its name. -/
structure Relation.Joins (r : Registry) (rel : Relation) (here there : Table) : Prop where
  source : r.table? rel.source = some here
  target : r.table? rel.target = some there
  fields : rel.fields ≠ []
  references : rel.references ≠ []
  even : rel.fields.length = rel.references.length
  field : ∀ f ∈ rel.fields, here.hasColumn f = true
  reference : ∀ c ∈ rel.references, there.hasColumn c = true
  free : here.hasColumn rel.name = false

/-! ## Relationships of classes -/

namespace Relationship

variable {d : Declarations} {owner : TableDeclaration} {rel : Relationship}
  {j : JoinedRelationship}

/-- A join that does not lead through a third table has columns to join by. -/
theorem pairs_ne_nil_of_join (h : join d owner rel = .ok j) (hj : j.direction ≠ .manyToMany) :
    j.pairs ≠ [] := by
  obtain ⟨target, -, h⟩ := bind_eq_ok.mp h
  split at h
  · obtain ⟨ways, -, h⟩ := bind_eq_ok.mp h
    obtain ⟨pairs, -, h⟩ := bind_eq_ok.mp h
    obtain ⟨sides, -, h⟩ := bind_eq_ok.mp h
    obtain ⟨direction, -, h⟩ := bind_eq_ok.mp h
    split at h
    · cases h
    · rename_i hjoined
      obtain rfl := pure_eq_ok.mp h
      exact fun hnil => hjoined hnil
  · obtain ⟨_, -, h⟩ := bind_eq_ok.mp h
    obtain ⟨_, -, h⟩ := bind_eq_ok.mp h
    obtain ⟨_, -, h⟩ := bind_eq_ok.mp h
    obtain ⟨_, -, h⟩ := bind_eq_ok.mp h
    obtain rfl := pure_eq_ok.mp h
    exact absurd rfl hj

end Relationship

theorem Declarations.pairs_ne_nil_of_joined {d : Declarations} {joined : List JoinedRelationship}
    {j : JoinedRelationship} (h : d.joinedRelationships = .ok joined) (hmem : j ∈ joined)
    (hj : j.direction ≠ .manyToMany) : j.pairs ≠ [] := by
  let HavePairs (known : List JoinedRelationship) : Prop :=
    ∀ j ∈ known, j.direction ≠ .manyToMany → j.pairs ≠ []
  have hall : HavePairs joined := by
    refine foldlM_induction h (fun known t _ known' ht hknown => ?_) (by simp [HavePairs])
    refine foldlM_induction ht (fun known rel _ known' hrel hknown => ?_) hknown
    obtain ⟨new, hnew, hrel⟩ := bind_eq_ok.mp hrel
    obtain ⟨_, -, hrel⟩ := bind_eq_ok.mp hrel
    obtain rfl := pure_eq_ok.mp hrel
    intro k hk hdirect
    rcases List.mem_append.mp hk with hbefore | hlast
    · exact hknown k hbefore hdirect
    · obtain rfl := List.mem_singleton.mp hlast
      exact Relationship.pairs_ne_nil_of_join hnew hdirect
  exact hall j hmem hj

namespace Loading

variable {d : Declarations} {s : Sorted} {r r' : Registry} {rel : Relation} {source : SchemaSource}

/-! ## Lists of columns -/

theorem RelationDeclaration.explicit?_eq_some {declared : RelationDeclaration}
    {fields references : List String}
    (h : RelationDeclaration.explicit? declared = some (fields, references)) :
    declared.fields = some fields ∧ declared.references = some references ∧
      fields ≠ [] ∧ references ≠ [] := by
  unfold RelationDeclaration.explicit? at h
  split at h
  · split at h
    · cases h
    · rename_i hfields hreferences hgiven
      cases h
      exact ⟨hfields, hreferences, by simpa using hgiven⟩
  · cases h

/-- A relation has the lists of columns, of different lengths, that a relation of some set is
declared with, or has them the other way around. -/
def DeclaredUnevenly (s : Sorted) (rel : Relation) : Prop :=
  ∃ set ∈ s.relationSets, ∃ declared ∈ set.toOne ++ set.toMany, ∃ fields references,
    declared.fields = some fields ∧ declared.references = some references ∧
    fields.length ≠ references.length ∧
    ((rel.fields = fields ∧ rel.references = references) ∨
      (rel.fields = references ∧ rel.references = fields))

/-- A relation has columns on both sides, as many here as there unless it was declared otherwise. -/
structure Paired (s : Sorted) (rel : Relation) : Prop where
  fields : rel.fields ≠ []
  references : rel.references ≠ []
  even : rel.fields.length = rel.references.length ∨ DeclaredUnevenly s rel

theorem Paired.swap {other : Relation} (h : Paired s rel) (hfields : other.fields = rel.references)
    (hreferences : other.references = rel.fields) : Paired s other where
  fields := hfields ▸ h.references
  references := hreferences ▸ h.fields
  even := by
    refine h.even.imp (fun heven => by rw [hfields, hreferences, heven]) ?_
    rintro ⟨set, hset, declared, hdeclared, fields, references, hf, hr, hne, hlists⟩
    refine ⟨set, hset, declared, hdeclared, fields, references, hf, hr, hne, ?_⟩
    rw [hfields, hreferences]
    exact hlists.symm.imp And.symm And.symm

/-- The lists that a relation is declared with. -/
theorem paired_of_explicit {set : RelationSet} {declared : RelationDeclaration}
    (hset : set ∈ s.relationSets) (hdeclared : declared ∈ set.toOne ++ set.toMany)
    (h : RelationDeclaration.explicit? declared = some (rel.fields, rel.references)) :
    Paired s rel := by
  obtain ⟨hfields, hreferences, hne, hne'⟩ := RelationDeclaration.explicit?_eq_some h
  refine ⟨hne, hne', ?_⟩
  by_cases heven : rel.fields.length = rel.references.length
  · exact .inl heven
  · exact .inr ⟨set, hset, declared, hdeclared, _, _, hfields, hreferences, heven, .inl ⟨rfl, rfl⟩⟩

/-- One column on either side. -/
theorem paired_of_single {field reference : String} (hfields : rel.fields = [field])
    (hreferences : rel.references = [reference]) : Paired s rel where
  fields := by simp [hfields]
  references := by simp [hreferences]
  even := .inl (by rw [hfields, hreferences, List.length_singleton, List.length_singleton])

/-- A completed to-one relation is one of its owner, under its name, and has a target that takes
part; its columns are the declared ones or those of one foreign key. -/
theorem of_resolveOne {owner : String} {declared : RelationDeclaration}
    (h : resolveOne d s r owner declared = .ok rel) : ∃ target fields references,
      resolve d s r owner declared.target = .ok target ∧
      rel = ⟨declared.name, false, owner, target, fields, references⟩ ∧
      (RelationDeclaration.explicit? declared = some (fields, references) ∨
        ∃ field reference, fields = [field] ∧ references = [reference]) := by
  obtain ⟨target, htarget, h⟩ := bind_eq_ok.mp h
  split at h
  · rename_i hexplicit
    exact ⟨target, _, _, htarget, (pure_eq_ok.mp h).symm, .inl hexplicit⟩
  · obtain ⟨own, -, h⟩ := bind_eq_ok.mp h
    extract_lets complete at h
    have hcomplete : ∃ pairs, complete pairs = .ok rel := by
      split at h
      · obtain ⟨_, -, h⟩ := bind_eq_ok.mp h
        exact ⟨_, h⟩
      · exact ⟨_, h⟩
    obtain ⟨pairs, h⟩ := hcomplete
    dsimp only [complete] at h
    split at h
    · exact ⟨target, _, _, htarget, (pure_eq_ok.mp h).symm, .inr ⟨_, _, rfl, rfl⟩⟩
    · cases h

/-- A completed to-many relation is one of its owner, under its name, and has a target that takes
part; its columns are the declared ones, those of the only to-one relation in the other direction,
or those of one foreign key. -/
theorem of_resolveMany {ones : Members (Members Relation)} {owner : String}
    {declared : RelationDeclaration} (h : resolveMany d s r ones owner declared = .ok rel) :
    ∃ target fields references, resolve d s r owner declared.target = .ok target ∧
      rel = ⟨declared.name, true, owner, target, fields, references⟩ ∧
      (RelationDeclaration.explicit? declared = some (fields, references) ∨
        (∃ one ∈ Members.values ((Members.get? ones target).getD []),
          fields = one.references ∧ references = one.fields) ∨
        ∃ field reference, fields = [field] ∧ references = [reference]) := by
  obtain ⟨target, htarget, h⟩ := bind_eq_ok.mp h
  split at h
  · rename_i hexplicit
    exact ⟨target, _, _, htarget, (pure_eq_ok.mp h).symm, .inl hexplicit⟩
  · dsimp only at h
    split at h
    · rename_i one hback
      have hone : one ∈ Members.values ((Members.get? ones target).getD []) :=
        List.mem_of_mem_filter (hback ▸ List.mem_singleton_self one)
      exact ⟨target, _, _, htarget, (pure_eq_ok.mp h).symm, .inr (.inl ⟨one, hone, rfl, rfl⟩)⟩
    · obtain ⟨pairs, -, h⟩ := bind_eq_ok.mp h
      split at h
      · exact ⟨target, _, _, htarget, (pure_eq_ok.mp h).symm, .inr (.inr ⟨_, _, rfl, rfl⟩)⟩
      · cases h

theorem paired_of_resolveOne {owner : String} {set : RelationSet} {declared : RelationDeclaration}
    (hset : set ∈ s.relationSets) (hdeclared : declared ∈ set.toOne)
    (h : resolveOne d s r owner declared = .ok rel) : Paired s rel := by
  obtain ⟨target, fields, references, -, rfl, hexplicit | ⟨field, reference, rfl, rfl⟩⟩ :=
    of_resolveOne h
  · exact paired_of_explicit hset (List.mem_append_left _ hdeclared) hexplicit
  · exact paired_of_single rfl rfl

theorem paired_of_resolveMany {before : Registry} {ones : Members (Members Relation)}
    {owner : String} {set : RelationSet} {declared : RelationDeclaration}
    (hones : collectOnes d s before = .ok ones) (hset : set ∈ s.relationSets)
    (hdeclared : declared ∈ set.toMany) (h : resolveMany d s r ones owner declared = .ok rel) :
    Paired s rel := by
  obtain ⟨target, fields, references, -, rfl, hexplicit | ⟨one, hone, rfl, rfl⟩ |
    ⟨field, reference, rfl, rfl⟩⟩ := of_resolveMany h
  · exact paired_of_explicit hset (List.mem_append_right _ hdeclared) hexplicit
  · cases hrels : Members.get? ones target with
    | none => simp [hrels, Members.values] at hone
    | some rels =>
      rw [hrels, Option.getD_some] at hone
      obtain ⟨_, otherSet, hother, otherDeclared, hotherDeclared, hresolved⟩ :=
        exists_of_mem_collectOnes hones
          (List.mem_map_of_mem (f := Prod.snd) (Members.mem_of_get? hrels)) hone
      exact (paired_of_resolveOne hother hotherDeclared hresolved).swap rfl rfl
  · exact paired_of_single rfl rfl

/-- Wherever a relation comes from, it has columns on both sides. -/
theorem paired_of_origin (h : Origin d s rel) : Paired s rel := by
  cases h with
  | mapped hjoined hj hdirect hfields hreferences =>
    have hne := Declarations.pairs_ne_nil_of_joined hjoined hj hdirect
    exact ⟨by simpa [hfields] using hne, by simpa [hreferences] using hne,
      .inl (by simp [hfields, hreferences])⟩
  | toOne hset hdeclared hone => exact paired_of_resolveOne hset hdeclared hone
  | toMany hones hset hdeclared hmany => exact paired_of_resolveMany hones hset hdeclared hmany

/-! ## The relations of a registry -/

/-- A relation stands under its name with its source, which has no column of that name; its target
is there, and its pairs are pairs of columns of the two. -/
structure Stands (s : Sorted) (r : Registry) (key : String) (t : Table) (name : String)
    (rel : Relation) : Prop where
  source : rel.source = key
  name : rel.name = name
  free : t.hasColumn rel.name = false
  paired : Paired s rel
  target : ∃ target, r.table? rel.target = some target ∧
    ∀ p ∈ rel.pairs, t.hasColumn p.1 = true ∧ target.hasColumn p.2 = true

/-- All relations of a registry stand. -/
def AllStand (s : Sorted) (r : Registry) : Prop :=
  ∀ entry ∈ r.tables, ∀ named ∈ entry.2.relations,
    Stands s r entry.1 entry.2 named.1 named.2

/-- A relation still stands when tables have only been given further relations. -/
theorem Stands.again {key name : String} {t t' : Table} (h : Stands s r key t name rel)
    (ht : t.WithRelations t')
    (hr : ∀ name, Option.Rel Table.WithRelations (r.table? name) (r'.table? name)) :
    Stands s r' key t' name rel := by
  refine ⟨h.source, h.name, by rw [ht.hasColumn, h.free], h.paired, ?_⟩
  obtain ⟨target, htarget, hpairs⟩ := h.target
  have hrel := hr rel.target
  rw [htarget] at hrel
  cases htarget' : r'.table? rel.target with
  | none => simp [htarget'] at hrel
  | some target' =>
    rw [htarget'] at hrel
    cases hrel with
    | some hsame =>
      exact ⟨target', rfl, fun p hp => by
        rw [ht.hasColumn, hsame.hasColumn]
        exact hpairs p hp⟩

/-- A relation that is added stands, and all others stand as before. -/
theorem allStand_addRelation (hpaired : Paired s rel) (h : addRelation r rel = .ok r')
    (hr : AllStand s r) : AllStand s r' := by
  have hsame := table?_addRelation h
  obtain ⟨source, target, hsource, htarget, hpairs, hfree, rfl⟩ := addRelation_eq_ok.mp h
  have hnew : Stands s r rel.source source rel.name rel :=
    ⟨rfl, rfl, hfree, hpaired, target, htarget, hpairs⟩
  have hown : source.WithRelations
      { source with relations := Members.put source.relations rel.name rel } := ⟨_, rfl⟩
  intro entry hentry named hnamed
  rcases Members.mem_put hentry with rfl | hbefore
  · rcases Members.mem_put hnamed with rfl | hkept
    · exact hnew.again hown hsame
    · exact (hr (rel.source, source) (Members.mem_of_get? hsource) named hkept).again hown hsame
  · exact (hr entry hbefore named hnamed).again ⟨entry.2.relations, rfl⟩ hsame

/-- Tables have no relations before any is added. -/
theorem relations_tablesOf (h : tablesOf s = .ok r) :
    ∀ entry ∈ r.tables, entry.2.relations = [] := by
  obtain ⟨tables, htables, h⟩ := bind_eq_ok.mp h
  obtain rfl := pure_eq_ok.mp h
  refine foldlM_induction
    (P := fun tables : Members Table => ∀ entry ∈ tables, entry.2.relations = []) htables ?_
    (by simp)
  intro tables n _ more hmore hnone entry hentry
  obtain ⟨t, ht, hmore⟩ := bind_eq_ok.mp hmore
  obtain rfl := pure_eq_ok.mp hmore
  rcases Members.mem_put hentry with rfl | hbefore
  · obtain ⟨columns, -, ht⟩ := bind_eq_ok.mp ht
    obtain rfl := pure_eq_ok.mp ht
    rfl
  · exact hnone entry hbefore

/-- In a loaded schema all relations stand. -/
theorem allStand_of_load {loaded : Loaded} (h : load d source = .ok loaded) :
    ∃ s, Sorted.add d {} none source = .ok s ∧ AllStand s loaded.registry := by
  obtain ⟨s, hs, h⟩ := bind_eq_ok.mp h
  obtain ⟨r, htables, h⟩ := bind_eq_ok.mp h
  obtain ⟨registry, hrelations, h⟩ := bind_eq_ok.mp h
  obtain rfl := pure_eq_ok.mp h
  refine ⟨s, hs, addRelations_induction hrelations
    (fun r rel r' horigin hadd => allStand_addRelation (paired_of_origin horigin) hadd) ?_⟩
  intro entry hentry named hnamed
  simp [relations_tablesOf htables entry hentry] at hnamed

/-- Pairs of columns are all columns where both lists are of one length. -/
theorem mem_of_pairs {here there : Table} (heven : rel.fields.length = rel.references.length)
    (hpairs : ∀ p ∈ rel.pairs, here.hasColumn p.1 = true ∧ there.hasColumn p.2 = true) :
    (∀ f ∈ rel.fields, here.hasColumn f = true) ∧
      ∀ c ∈ rel.references, there.hasColumn c = true := by
  constructor
  · intro f hf
    rw [← List.map_fst_zip (Nat.le_of_eq heven)] at hf
    obtain ⟨p, hp, rfl⟩ := List.mem_map.mp hf
    exact (hpairs p hp).1
  · intro c hc
    rw [← List.map_snd_zip (Nat.le_of_eq heven.symm)] at hc
    obtain ⟨p, hp, rfl⟩ := List.mem_map.mp hc
    exact (hpairs p hp).2

/-- Every relation of a loaded schema stands under its own name with its source, has columns on both
sides, a target that is there, and pairs that are pairs of columns. It joins the two column by
column precisely where its lists of columns are of one length, and they are, unless the source has a
relation set that declares them with different lengths. -/
theorem joins_of_load {loaded : Loaded} (h : load d source = .ok loaded) :
    ∃ s, Sorted.add d {} none source = .ok s ∧
      ∀ {key name t rel}, loaded.registry.table? key = some t → t.relation? name = some rel →
        rel.source = key ∧ rel.name = name ∧ t.hasColumn name = false ∧
        rel.fields ≠ [] ∧ rel.references ≠ [] ∧
        ∃ target, loaded.registry.table? rel.target = some target ∧
          (∀ p ∈ rel.pairs, t.hasColumn p.1 = true ∧ target.hasColumn p.2 = true) ∧
          (rel.Joins loaded.registry t target ↔ rel.fields.length = rel.references.length) ∧
          (rel.fields.length ≠ rel.references.length → DeclaredUnevenly s rel) := by
  obtain ⟨s, hs, hall⟩ := allStand_of_load h
  refine ⟨s, hs, fun {key name t rel} ht hrel => ?_⟩
  have hstands : Stands s loaded.registry key t name rel :=
    hall (key, t) (Members.mem_of_get? ht) (name, rel) (Members.mem_of_get? hrel)
  obtain ⟨rfl, rfl, hfree, hpaired, target, htarget, hpairs⟩ := hstands
  refine ⟨rfl, rfl, hfree, hpaired.fields, hpaired.references, target, htarget, hpairs,
    ⟨fun hjoins => hjoins.even, fun heven => ?_⟩, hpaired.even.resolve_left⟩
  obtain ⟨hfields, hreferences⟩ := mem_of_pairs heven hpairs
  exact ⟨ht, htarget, hpaired.fields, hpaired.references, heven, hfields, hreferences, hfree⟩

/-! ## Books and their authors -/

namespace Catalogue

/-- Authors with the books that refer to them: a class with a relationship for the authors, and for
the books relations that are declared, with the columns given and by way of the inverse. -/
def declared (fields : List String) : Declarations where
  tables := [
    { name := "authors"
      columns := [{ key := "id", name := "id", type := .integer, primary := true }]
      model := some "Author"
      relationships := [{ name := "works", target := "Book" }] },
    { name := "books"
      columns := [{ key := "id", name := "id", type := .integer, primary := true },
        { key := "author", name := "author", type := .integer }]
      keys := [⟨[("author", .column ⟨"authors", "id"⟩)]⟩]
      model := some "Book" }]
  relationSets := [
    { owner := .name "books"
      toOne := [{ name := "writer", target := .name "authors", fields := some fields
                  references := some ["id"] }] },
    { owner := .name "authors", toMany := [{ name := "books", target := .name "books" }] }]

/-- All tables with their classes, and both relation sets. -/
def everything : SchemaSource := .listing [.mappedBase, .relations 0, .relations 1]

theorem books_joined : ∃ loaded authors books rel,
    load (declared ["author"]) everything = .ok loaded ∧
    loaded.registry.table? "authors" = some authors ∧ authors.relation? "books" = some rel ∧
    rel.Joins loaded.registry authors books := by
  obtain ⟨loaded, hloaded⟩ : ∃ loaded, load (declared ["author"]) everything = .ok loaded :=
    ⟨_, rfl⟩
  obtain ⟨s, -, hall⟩ := joins_of_load hloaded
  obtain ⟨authors, hauthors, rel, hrel, heven⟩ : ∃ authors,
      loaded.registry.table? "authors" = some authors ∧ ∃ rel,
        authors.relation? "books" = some rel ∧ rel.fields.length = rel.references.length := by
    cases hloaded
    exact ⟨_, rfl, _, rfl, rfl⟩
  obtain ⟨-, -, -, -, -, books, -, -, hjoins, -⟩ := hall hauthors hrel
  exact ⟨loaded, authors, books, rel, hloaded, hauthors, hrel, hjoins.mpr heven⟩

/-- Of two fields and one reference only the first pair is checked, so a field that is no column is
let in. -/
theorem editor_unchecked : ∃ loaded books rel,
    load (declared ["author", "editor"]) everything = .ok loaded ∧
    loaded.registry.table? "books" = some books ∧ books.relation? "writer" = some rel ∧
    rel.fields = ["author", "editor"] ∧ books.hasColumn "editor" = false ∧
    ∀ authors, ¬ rel.Joins loaded.registry books authors := by
  refine ⟨_, _, _, rfl, rfl, rfl, rfl, rfl, fun authors hjoins => ?_⟩
  have heven : 2 = 1 := hjoins.even
  omega

end Catalogue

end Loading
end RelGraph
