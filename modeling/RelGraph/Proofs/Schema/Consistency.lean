import RelGraph.Proofs.Schema.Registration
import RelGraph.Proofs.Schema.Relations
/-!
Consistent registries. Whatever a registry says about one of its tables by name is there: the table
under its own name, the column that identifies its rows, and for every relation the target with the
columns that the relation pairs. Loading makes the registry so, but for what it does not look at:
whether every table has a column, and whether relations pair as many columns here as there.
-/
namespace RelGraph

open Outcome

/-- A relation of a table leads to a table of the registry, and what it pairs are columns of the
two. -/
structure Relation.Leads (r : Registry) (rel : Relation) (here there : Table) : Prop where
  target : r.table? rel.target = some there
  field : ∀ name ∈ rel.fields, here.hasColumn name = true
  reference : ∀ name ∈ rel.references, there.hasColumn name = true

/-- All that the tables of a registry name is there. -/
structure Registry.Consistent (r : Registry) : Prop where
  named : r.NamesTables
  columns : ∀ t ∈ r.all, t.columns ≠ []
  rowKey : ∀ t ∈ r.all, ∀ key, t.rowKey = some key → t.hasColumn key = true
  relation : ∀ t ∈ r.all, ∀ name rel, t.relation? name = some rel →
    ∃ target, rel.Leads r t target

theorem Registry.mem_all_of_table? {r : Registry} {name : String} {t : Table}
    (h : r.table? name = some t) : t ∈ r.all :=
  List.mem_map_of_mem (f := Prod.snd) (Members.mem_of_get? h)

namespace TableDeclaration

variable {t : TableDeclaration} {key : String}

/-- The column that identifies rows is one of the table's. -/
theorem exists_of_rowKey? (h : t.rowKey? = some key) : ∃ c ∈ t.columns, c.key = key := by
  unfold rowKey? at h
  split at h
  · rename_i c hprimary
    obtain rfl := Option.some.inj h
    have hc : c ∈ t.primaryColumns := hprimary ▸ List.mem_singleton_self c
    exact ⟨c, List.mem_of_mem_filter hc, rfl⟩
  · obtain ⟨c, hc, rfl⟩ := Option.map_eq_some_iff.mp h
    exact ⟨c, List.mem_of_find?_eq_some hc, rfl⟩
  · cases h

end TableDeclaration

/-- A table that is made from its declaration has the column that identifies its rows. -/
theorem Table.hasColumn_rowKey {name key : String} {t : TableDeclaration} {model : Option String}
    {table : Table} (h : Table.ofDeclaration name t model = .ok table)
    (hkey : table.rowKey = some key) : table.hasColumn key = true := by
  obtain ⟨-, hrowKey, hdeclared, hcolumns⟩ := Table.columns_ofDeclaration h
  obtain ⟨declared, hmem, rfl⟩ := TableDeclaration.exists_of_rowKey? (hrowKey ▸ hkey)
  rw [hdeclared] at hmem
  obtain ⟨c, hc, rfl⟩ := List.mem_map.mp hmem
  exact List.find?_isSome.mpr ⟨c, hc, by simpa using (hcolumns c hc).1⟩

namespace Loading

variable {d : Declarations} {source : SchemaSource} {loaded : Loaded}

/-- In a loaded schema every table has the column that identifies its rows, if there is one. -/
theorem hasColumn_rowKey_of_load (h : load d source = .ok loaded) {name key : String} {t : Table}
    (ht : loaded.registry.table? name = some t) (hkey : t.rowKey = some key) :
    t.hasColumn key = true := by
  obtain ⟨s, -, -, hall⟩ := table?_of_load h
  have hrel := hall name
  rw [ht] at hrel
  cases hlast : s.lastNamed? name with
  | none => simp [hlast] at hrel
  | some n =>
    rw [hlast] at hrel
    cases hrel with
    | some hdescribes =>
      obtain ⟨made, hmade, hsame⟩ := hdescribes
      rw [hsame.hasColumn]
      refine Table.hasColumn_rowKey hmade ?_
      obtain ⟨relations, rfl⟩ := hsame
      exact hkey

/-- A loaded schema is consistent where every table has a column and every relation pairs as many
columns here as there. -/
theorem consistent_of_load (h : load d source = .ok loaded)
    (hcolumns : ∀ t ∈ loaded.registry.all, t.columns ≠ [])
    (heven : ∀ t ∈ loaded.registry.all, ∀ rel ∈ Members.values t.relations,
      rel.fields.length = rel.references.length) : loaded.registry.Consistent := by
  have hnamed := namesTables_of_load h
  obtain ⟨s, -, hstand⟩ := allStand_of_load h
  refine ⟨hnamed, hcolumns, fun t ht key => hasColumn_rowKey_of_load h (hnamed t ht), ?_⟩
  intro t ht name rel hrel
  have hnamedRel : (name, rel) ∈ t.relations := Members.mem_of_get? hrel
  have hstands := hstand (t.name, t) (Members.mem_of_get? (hnamed t ht)) (name, rel) hnamedRel
  obtain ⟨target, htarget, hpairs⟩ := hstands.target
  obtain ⟨hfields, hreferences⟩ := mem_of_pairs
    (heven t ht rel (List.mem_map_of_mem (f := Prod.snd) hnamedRel)) hpairs
  exact ⟨target, htarget, hfields, hreferences⟩

end Loading
end RelGraph
