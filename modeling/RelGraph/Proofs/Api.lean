import RelGraph.Api
import RelGraph.Proofs.Schema.Relations
import RelGraph.Proofs.Sdl.Assembly
/-!
What the fields of a table resolve to below the root. No two tables of an API share the name of
their type, and no relation has the name of a column; so a field of a table's type is read as a
relation of that table where it is one, and else as the member of its name.
-/
namespace RelGraph

open Outcome
open Naming (typeName)

namespace Api

variable {r : Registry} {config : Config} {api : Api} {t : Table} {key : String}

theorem assemble_of_build (h : build r config = .ok api) :
    Sdl.assemble r config = .ok api.assembled ∧ api.registry = r ∧ api.config = config := by
  obtain ⟨assembled, hassembled, h⟩ := bind_eq_ok.mp h
  obtain rfl := pure_eq_ok.mp h
  exact ⟨hassembled, rfl, rfl⟩

theorem registry_of_build (h : build r config = .ok api) : api.registry = r :=
  (assemble_of_build h).2.1

/-- The types of the tables of an API have names that are all apart. -/
theorem nodup_typeNames (h : build r config = .ok api) :
    (api.registry.all.map fun t => typeName t.name).Nodup := by
  obtain ⟨hassembled, hregistry, -⟩ := assemble_of_build h
  rw [hregistry]
  exact (Sdl.assemble_eq_ok hassembled).1

theorem mem_all_of_table? (h : r.table? key = some t) : t ∈ r.all :=
  List.mem_map_of_mem (f := Prod.snd) (Members.mem_of_get? h)

/-- A field of the type of a table resolves to a relation of the table where it is one, and else to
the member of its name. -/
theorem resolve_eq (h : build r config = .ok api) (ht : t ∈ api.registry.all)
    {call : Graphql.Call} (hcall : call.type = typeName t.name) :
    api.resolve call = match t.relation? call.field with
      | some rel => .ok (Hydration.readRelation t rel call.key call.parent)
      | none => Graphql.resolveMember call := by
  rw [resolve]
  cases hfound : (api.registry.all.filter fun u =>
      typeName u.name = call.type && !u.relations.isEmpty).getLast? with
  | none =>
    -- Only a table without relations is passed over.
    have hempty : t.relations = [] := by
      rw [List.getLast?_eq_none_iff, List.filter_eq_nil_iff] at hfound
      simpa [hcall] using hfound t ht
    rw [Table.relation?, hempty]
    rfl
  | some u =>
    obtain ⟨hu, hname⟩ := List.mem_filter.mp (List.mem_of_getLast? hfound)
    have hsame : typeName u.name = typeName t.name := by
      simp only [Bool.and_eq_true, decide_eq_true_eq] at hname
      exact hname.1.trans hcall
    obtain rfl : u = t := List.inj_on_of_nodup_map (nodup_typeNames h) hu ht hsame
    rw [Option.bind_some]
    cases u.relation? call.field <;> rfl

section Loaded

open Loading

variable {d : Declarations} {source : SchemaSource} {loaded : Loaded} {rel : Relation}
  {name : String} {row args : Members Value}

/-- In a loaded schema no relation has the name of a column. -/
theorem relation?_of_column (hload : load d source = .ok loaded)
    (ht : loaded.registry.table? key = some t) (hname : t.hasColumn name = true) :
    t.relation? name = none := by
  cases hrel : t.relation? name with
  | none => rfl
  | some rel =>
    obtain ⟨s, -, hall⟩ := allStand_of_load hload
    have hstands : Stands s loaded.registry key t name rel :=
      hall (key, t) (Members.mem_of_get? ht) (name, rel) (Members.mem_of_get? hrel)
    have hfree := hstands.free
    rw [hstands.name, hname] at hfree
    cases hfree

/-- A column resolves to what the row has under its name. -/
theorem resolve_column (hload : load d source = .ok loaded)
    (hapi : build loaded.registry config = .ok api) (ht : api.registry.table? key = some t)
    (hname : t.hasColumn name = true) (label : String) :
    api.resolve ⟨typeName t.name, name, label, .object row, args⟩ =
      .ok ((Value.object row).field name) := by
  have ht' : loaded.registry.table? key = some t := registry_of_build hapi ▸ ht
  rw [resolve_eq hapi (mem_all_of_table? ht) rfl]
  dsimp only
  rw [relation?_of_column hload ht' hname]
  rfl

/-- A relation resolves to what is read of it under its response key. -/
theorem resolve_relation (hapi : build r config = .ok api) (ht : api.registry.table? key = some t)
    (hrel : t.relation? name = some rel) (label : String) :
    api.resolve ⟨typeName t.name, name, label, .object row, args⟩ =
      .ok (Hydration.readRelation t rel label (.object row)) := by
  rw [resolve_eq hapi (mem_all_of_table? ht) rfl]
  dsimp only
  rw [hrel]

end Loaded

end Api
end RelGraph
