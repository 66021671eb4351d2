import RelGraph.Sdl.Assembly
import RelGraph.Proofs.Members
import RelGraph.Proofs.Naming
import RelGraph.Proofs.Outcome
/-!
The book of what a schema's types introduce. Giving a column its type only adds to the book, and
keeps it in order: what it introduces is noted once, under the name that its origin says, and the
filter inputs of base types are named by what was there before. What each step keeps, a run over
columns or tables keeps.
-/
namespace RelGraph

open Naming (EndsIn plainTypeName marked enumName)
open Sdl (TypeRef)

namespace TypeBook

variable {b b' b'' : TypeBook} {base : TypeRef} {name table column : String} {stored : List Value}

/-- The names of the enums. -/
def enumNames (b : TypeBook) : List String := (Members.values b.enums).map EnumType.name

/-- The names of the filter inputs. -/
def filterInputs (b : TypeBook) : List String := (Members.values b.filterNames).map Prod.snd

/-- The enum of a column is known under its name, or it is new and put behind the others. -/
theorem registerEnum_cases (b : TypeBook) (table column : String) (stored : List Value) :
    (∃ e, Members.get? b.enums (enumName table column) = some e ∧
      b.registerEnum table column stored = (e, b)) ∨
    (enumName table column ∉ Members.names b.enums ∧
      b.registerEnum table column stored = (⟨enumName table column, enumValues stored⟩,
        { b with enums := b.enums ++
          [(enumName table column, ⟨enumName table column, enumValues stored⟩)] })) := by
  rw [registerEnum]
  cases h : Members.get? b.enums (enumName table column) with
  | some e => exact .inl ⟨e, rfl, rfl⟩
  | none =>
    refine .inr ⟨Members.get?_eq_none.mp h, ?_⟩
    dsimp only
    rw [Members.put_of_not_mem (Members.get?_eq_none.mp h)]

/-- The name for the filter input of a base type that is asked for the first time. -/
def newFilterName (b : TypeBook) (text : String) : String :=
  if Members.has b.filterOwners (plainTypeName text ++ "FieldFilter")
    then marked (plainTypeName text) text ++ "FieldFilter"
    else plainTypeName text ++ "FieldFilter"

/-- The filter input of a base type is known under the type's text, or it is new and put behind the
others. -/
theorem filterName_cases (b : TypeBook) (base : TypeRef) :
    (∃ known, Members.get? b.filterNames base.text = some known ∧
      b.filterName base = (known.2, b)) ∨
    (base.text ∉ Members.names b.filterNames ∧
      b.filterName base = (b.newFilterName base.text, { b with
        filterNames := b.filterNames ++ [(base.text, base, b.newFilterName base.text)]
        filterOwners :=
          Members.put b.filterOwners (b.newFilterName base.text) base.text })) := by
  rw [filterName]
  cases h : Members.get? b.filterNames base.text with
  | some known => exact .inl ⟨known, rfl, rfl⟩
  | none =>
    refine .inr ⟨Members.get?_eq_none.mp h, ?_⟩
    dsimp only
    rw [Members.put_of_not_mem (Members.get?_eq_none.mp h)]
    rfl

/-- The name of a base type's filter input, by the base types before it: the first of a plain name
has the short name, those after it are marked. -/
def filterNameAfter (earlier : List String) (text : String) : String :=
  (if plainTypeName text ∈ earlier.map plainTypeName then marked (plainTypeName text) text
    else plainTypeName text) ++ "FieldFilter"

/-- A filter input has the short name of a plain name just when the base type is the first of that
plain name. -/
theorem filterNameAfter_eq {earlier : List String} {text text' : String} :
    filterNameAfter earlier text = plainTypeName text' ++ "FieldFilter" ↔
      plainTypeName text ∉ earlier.map plainTypeName ∧
        plainTypeName text = plainTypeName text' := by
  rw [filterNameAfter]
  split
  · rename_i hearlier
    refine ⟨fun h => ?_, fun h => absurd hearlier h.1⟩
    exact absurd (Naming.append_inj h (.inl rfl)).1 (Naming.marked_ne_plainTypeName _ _ _)
  · rename_i hfirst
    refine ⟨fun h => ⟨hfirst, (Naming.append_inj h (.inl rfl)).1⟩, fun h => ?_⟩
    rw [h.2]

/-- Whether a book is in order: everything in it is noted once and named by its origin. -/
structure Tidy (b : TypeBook) : Prop where
  scalars : b.scalars.Nodup
  enums : (Members.names b.enums).Nodup
  enum : ∀ kv ∈ b.enums, kv.2.name = kv.1 ∧ EndsIn kv.1 "Enum" ∧ (Members.names kv.2.values).Nodup
  bases : (Members.names b.filterNames).Nodup
  filter : ∀ before kv after, b.filterNames = before ++ kv :: after →
    kv.2.1.text = kv.1 ∧ kv.2.2 = filterNameAfter (Members.names before) kv.1
  owners : ∀ n, n ∈ Members.names b.filterOwners ↔ n ∈ b.filterInputs

theorem tidy_empty : Tidy {} where
  scalars := .nil
  enums := .nil
  enum := by simp
  bases := .nil
  filter := by simp
  owners := by simp [Members.names, filterInputs, Members.values]

namespace Tidy

theorem enumNames_eq (h : b.Tidy) : b.enumNames = Members.names b.enums := by
  rw [enumNames, Members.values, List.map_map, Members.names]
  exact List.map_congr_left fun kv hkv => (h.enum kv hkv).1

theorem endsIn_of_mem_enumNames (h : b.Tidy) (hname : name ∈ b.enumNames) :
    EndsIn name "Enum" := by
  rw [h.enumNames_eq] at hname
  obtain ⟨kv, hkv, rfl⟩ := List.mem_map.mp hname
  exact (h.enum kv hkv).2.1

theorem endsIn_of_mem_filterInputs (h : b.Tidy) (hname : name ∈ b.filterInputs) :
    EndsIn name "FieldFilter" := by
  obtain ⟨_, hknown, rfl⟩ := List.mem_map.mp hname
  obtain ⟨kv, hkv, rfl⟩ := List.mem_map.mp hknown
  obtain ⟨before, after, hsplit⟩ := List.append_of_mem hkv
  rw [(h.filter before kv after hsplit).2]
  exact Naming.endsIn_append _ _

theorem adopt (h : b.Tidy) (adopted : List ((String × String) × String)) :
    Tidy { b with adopted := adopted } :=
  ⟨h.scalars, h.enums, h.enum, h.bases, h.filter, h.owners⟩

/-- A short name is taken just when a base type of its plain name has been asked for. -/
theorem has_short (h : b.Tidy) (text : String) :
    Members.has b.filterOwners (plainTypeName text ++ "FieldFilter") = true ↔
      plainTypeName text ∈ (Members.names b.filterNames).map plainTypeName := by
  have hhas : Members.has b.filterOwners (plainTypeName text ++ "FieldFilter") = true ↔
      plainTypeName text ++ "FieldFilter" ∈ b.filterInputs := by
    rw [← h.owners, ← not_iff_not, ← Members.get?_eq_none]
    simp [Members.has]
  rw [hhas]
  constructor
  · intro hmem
    obtain ⟨_, hmem, hname⟩ := List.mem_map.mp hmem
    obtain ⟨kv, hkv, rfl⟩ := List.mem_map.mp hmem
    obtain ⟨before, after, hsplit⟩ := List.append_of_mem hkv
    rw [(h.filter before kv after hsplit).2, filterNameAfter_eq] at hname
    exact List.mem_map.mpr ⟨kv.1, Members.mem_names_of_mem hkv, hname.2⟩
  · intro hmem
    -- The first base type of the plain name has the short name.
    have hfound :
        (b.filterNames.find? fun kv => plainTypeName kv.1 = plainTypeName text).isSome := by
      rw [List.find?_isSome]
      obtain ⟨t, ht, hplain⟩ := List.mem_map.mp hmem
      obtain ⟨kv, hkv, rfl⟩ := List.mem_map.mp ht
      exact ⟨kv, hkv, by simpa using hplain⟩
    obtain ⟨kv, hkv⟩ := Option.isSome_iff_exists.mp hfound
    obtain ⟨hplain, before, after, hsplit, hfirst⟩ := List.find?_eq_some_iff_append.mp hkv
    have hplain : plainTypeName kv.1 = plainTypeName text := by simpa using hplain
    have hname : kv.2.2 = plainTypeName text ++ "FieldFilter" := by
      rw [(h.filter before kv after hsplit).2, filterNameAfter_eq]
      refine ⟨fun hearlier => ?_, hplain⟩
      obtain ⟨t, ht, hsame⟩ := List.mem_map.mp hearlier
      obtain ⟨kv', hkv', rfl⟩ := List.mem_map.mp ht
      simpa [hsame, hplain] using hfirst kv' hkv'
    rw [← hname]
    exact List.mem_map_of_mem (List.mem_map_of_mem (by simp [hsplit]))

theorem newFilterName (h : b.Tidy) (text : String) :
    b.newFilterName text = filterNameAfter (Members.names b.filterNames) text := by
  rw [TypeBook.newFilterName, filterNameAfter]
  by_cases hhas : Members.has b.filterOwners (plainTypeName text ++ "FieldFilter")
  · rw [if_pos hhas, if_pos ((h.has_short text).mp hhas)]
  · rw [if_neg hhas, if_neg fun hmem => hhas ((h.has_short text).mpr hmem)]

end Tidy

/-! ## A book that is added to -/

/-- Whether a book was only added to, and kept in order. -/
structure Extends (b b' : TypeBook) : Prop where
  scalars : b.scalars <+: b'.scalars
  enums : b.enums <+: b'.enums
  filterNames : b.filterNames <+: b'.filterNames
  adopted : b'.adopted = b.adopted
  tidy : b.Tidy → b'.Tidy

namespace Extends

theorem refl (b : TypeBook) : Extends b b :=
  ⟨List.prefix_rfl, List.prefix_rfl, List.prefix_rfl, rfl, id⟩

theorem trans (h : Extends b b') (h' : Extends b' b'') : Extends b b'' where
  scalars := h.scalars.trans h'.scalars
  enums := h.enums.trans h'.enums
  filterNames := h.filterNames.trans h'.filterNames
  adopted := h'.adopted.trans h.adopted
  tidy := h'.tidy ∘ h.tidy

end Extends

theorem extends_needScalar : Extends b (b.needScalar name) := by
  rw [needScalar]
  split
  · exact .refl b
  · rename_i hnew
    refine ⟨List.prefix_append _ _, List.prefix_rfl, List.prefix_rfl, rfl, fun h => ?_⟩
    refine ⟨?_, h.enums, h.enum, h.bases, h.filter, h.owners⟩
    simpa using h.scalars.concat fun hmem => hnew (List.contains_iff_mem.mpr hmem)

theorem nodup_enumValues (stored : List Value) : (Members.names (enumValues stored)).Nodup :=
  List.foldlRecOn (motive := fun acc => (Members.names acc).Nodup) _ _ .nil
    fun _ hacc _ _ => Members.nodup_names_put hacc

theorem extends_registerEnum : Extends b (b.registerEnum table column stored).2 := by
  obtain ⟨e, -, heq⟩ | ⟨hnew, heq⟩ := registerEnum_cases b table column stored
  · rw [heq]
    exact .refl b
  · rw [heq]
    refine ⟨List.prefix_rfl, List.prefix_append _ _, List.prefix_rfl, rfl, fun h => ?_⟩
    refine ⟨h.scalars, ?_, ?_, h.bases, h.filter, h.owners⟩
    · simpa [Members.names] using h.enums.concat hnew
    · intro kv hkv
      rcases List.mem_append.mp hkv with hkv | hkv
      · exact h.enum kv hkv
      · obtain rfl := List.mem_singleton.mp hkv
        exact ⟨rfl, Naming.endsIn_append _ _, nodup_enumValues stored⟩

theorem extends_filterName : Extends b (b.filterName base).2 := by
  obtain ⟨known, -, heq⟩ | ⟨hnew, heq⟩ := filterName_cases b base
  · rw [heq]
    exact .refl b
  · rw [heq]
    refine ⟨List.prefix_rfl, List.prefix_rfl, List.prefix_append _ _, rfl, fun h => ?_⟩
    refine ⟨h.scalars, h.enums, h.enum, ?_, ?_, ?_⟩
    · simpa [Members.names] using h.bases.concat hnew
    · intro before kv after hsplit
      -- The base type is the new one, or was there before with the same ones before it.
      rcases List.eq_nil_or_concat after with rfl | ⟨init, last, rfl⟩
      · obtain ⟨rfl, hkv⟩ := List.append_inj' hsplit rfl
        obtain rfl := (List.cons.inj hkv).1.symm
        exact ⟨rfl, h.newFilterName base.text⟩
      · rw [List.concat_eq_append, ← List.cons_append, ← List.append_assoc] at hsplit
        exact h.filter before kv init (List.append_inj' hsplit rfl).1
    · intro n
      rw [Members.mem_names_put, h.owners]
      simp [filterInputs, Members.values]

/-! ## Filter inputs told apart -/

/-- Whether the marks of base types tell them apart: of three base types of one plain name the
second and the third, which are marked, are marked differently. -/
def MarksApart (b : TypeBook) : Prop :=
  ∀ x y z : String, [x, y, z].Sublist (Members.names b.filterNames) →
    plainTypeName x = plainTypeName y → plainTypeName y = plainTypeName z →
    marked (plainTypeName y) y ≠ marked (plainTypeName z) z

theorem exists_split_of_sublist {α : Type} {x y : α} {l : List α} (h : [x, y].Sublist l) :
    ∃ before mid after, l = before ++ x :: (mid ++ y :: after) := by
  obtain ⟨l₁, l₂, rfl, hx, hy⟩ := List.cons_sublist_iff.mp h
  obtain ⟨before, after, rfl⟩ := List.append_of_mem hx
  obtain ⟨mid, rest, rfl⟩ := List.append_of_mem (List.singleton_sublist.mp hy)
  exact ⟨before, after ++ mid, rest, by simp⟩

section

variable {kv kv' : String × TypeRef × String}

/-- A base type is marked in the name of its filter input when another of its plain name stands
before it. -/
theorem Tidy.marked_of_sublist (h : b.Tidy) (hsub : [kv, kv'].Sublist b.filterNames)
    (hplain : plainTypeName kv.1 = plainTypeName kv'.1) :
    kv'.2.2 = marked (plainTypeName kv'.1) kv'.1 ++ "FieldFilter" := by
  obtain ⟨before, mid, after, hsplit⟩ := exists_split_of_sublist hsub
  rw [(h.filter (before ++ kv :: mid) kv' after (by simp [hsplit])).2, filterNameAfter, if_pos]
  exact List.mem_map.mpr ⟨kv.1, by simp [Members.names], hplain⟩

/-- Two filter inputs have one name only if both base types are marked alike, behind a third one of
their plain name. -/
theorem Tidy.exists_of_same (h : b.Tidy) (hsub : [kv, kv'].Sublist b.filterNames)
    (hsame : kv.2.2 = kv'.2.2) : ∃ x, [x, kv.1, kv'.1].Sublist (Members.names b.filterNames) ∧
      plainTypeName x = plainTypeName kv.1 ∧ plainTypeName kv.1 = plainTypeName kv'.1 ∧
      marked (plainTypeName kv.1) kv.1 = marked (plainTypeName kv'.1) kv'.1 := by
  obtain ⟨before, mid, after, hsplit⟩ := exists_split_of_sublist hsub
  have hname := (h.filter before kv _ hsplit).2
  have hname' := (h.filter (before ++ kv :: mid) kv' after (by simp [hsplit])).2
  rw [hname, hname', filterNameAfter, filterNameAfter] at hsame
  have hsame := (Naming.append_inj hsame (.inl rfl)).1
  split at hsame
  · rename_i hfirst
    split at hsame
    · have hplain := Naming.plainTypeName_of_marked hsame
      obtain ⟨x, hx, hxplain⟩ := List.mem_map.mp hfirst
      refine ⟨x, ?_, hxplain, hplain, hsame⟩
      rw [hsplit, Members.names, List.map_append, List.map_cons, List.map_append, List.map_cons]
      have hthere : [x].Sublist (before.map Prod.fst) := List.singleton_sublist.mpr hx
      exact hthere.append (List.Sublist.cons_cons _ (List.singleton_sublist.mpr (by simp)))
    · exact absurd hsame (Naming.marked_ne_plainTypeName _ _ _)
  · split at hsame
    · exact absurd hsame.symm (Naming.marked_ne_plainTypeName _ _ _)
    · rename_i hfirst'
      exact absurd (List.mem_map.mpr ⟨kv.1, by simp [Members.names], hsame⟩) hfirst'

end

/-- Filter inputs have names that are all apart just when the marks tell them apart. -/
theorem Tidy.nodup_filterInputs (h : b.Tidy) : b.filterInputs.Nodup ↔ b.MarksApart := by
  have hpairs : b.filterInputs.Nodup ↔
      ∀ kv kv', [kv, kv'].Sublist b.filterNames → kv.2.2 ≠ kv'.2.2 := by
    rw [filterInputs, Members.values, List.map_map, List.Nodup, List.pairwise_map,
      List.pairwise_iff_forall_sublist]
    rfl
  rw [hpairs]
  constructor
  · intro hapart x y z hsub hxy hyz hmarks
    obtain ⟨l, hl, hkeys⟩ := List.sublist_map_iff.mp hsub
    obtain ⟨kx, _, rfl, rfl, hyz'⟩ := List.map_eq_cons_iff.mp hkeys.symm
    obtain ⟨ky, _, rfl, rfl, hz'⟩ := List.map_eq_cons_iff.mp hyz'
    obtain ⟨kz, _, rfl, rfl, hnil⟩ := List.map_eq_cons_iff.mp hz'
    obtain rfl := List.map_eq_nil_iff.mp hnil
    refine hapart ky kz (List.Sublist.trans (by simp) hl) ?_
    have hxy' : [kx, ky].Sublist b.filterNames := List.Sublist.trans (by simp) hl
    have hxz' : [kx, kz].Sublist b.filterNames := List.Sublist.trans (by simp) hl
    rw [h.marked_of_sublist hxy' hxy, h.marked_of_sublist hxz' (hxy.trans hyz), hmarks]
  · intro hmarks kv kv' hsub hsame
    obtain ⟨x, hthree, hx, hplain, hmark⟩ := h.exists_of_same hsub hsame
    exact hmarks x kv.1 kv'.1 hthree hx hplain hmark

end TypeBook

/-! ## The types of columns -/

open TypeBook Outcome

variable {b : TypeBook} {table : String} {c : Column} {position : TypePosition}

/-- The reference below all lists and marks. -/
def Sdl.TypeRef.leaf : TypeRef → TypeRef
  | .list item => item.leaf
  | .nonNull inner => inner.leaf
  | ref => ref

/-- The scalars that every schema has. -/
def Sdl.builtInScalars : List String := ["String", "Int", "Float", "Boolean", "ID"]

/-- The base type of a column is the override that the column has or adopted, it is built in, or it
is noted in the book as a scalar or as an enum. -/
theorem baseType_cases (b : TypeBook) (table : String) (c : Column) :
    (∃ override, (givenText? c.typeOverride).or (b.adoptedType? table c.name) = some override ∧
      baseType b table c = (.verbatim (stripNonNull override), b)) ∨
    (∃ ref, (∃ name ∈ Sdl.builtInScalars, ref.leaf = .named name) ∧
      baseType b table c = (ref, b)) ∨
    (∃ name, baseType b table c = (.named name, b.needScalar name)) ∨
    (∃ stored, baseType b table c = (.named (b.registerEnum table c.name stored).1.name,
      (b.registerEnum table c.name stored).2)) := by
  rw [baseType]
  split
  · rename_i override h
    exact .inl ⟨override, h, rfl⟩
  · dsimp only
    split
    all_goals
      first
        | exact .inr (.inr (.inl ⟨_, rfl⟩))
        | exact .inr (.inr (.inr ⟨_, rfl⟩))
        | exact .inr (.inl ⟨_, ⟨_, by decide, rfl⟩, rfl⟩)

theorem extends_baseType : Extends b (baseType b table c).2 := by
  obtain ⟨_, -, heq⟩ | ⟨_, -, heq⟩ | ⟨name, heq⟩ | ⟨stored, heq⟩ := baseType_cases b table c
  · rw [heq]
    exact .refl b
  · rw [heq]
    exact .refl b
  · rw [heq]
    exact extends_needScalar
  · rw [heq]
    exact extends_registerEnum

theorem leaf_columnType :
    (columnType b table c position).1.leaf = (baseType b table c).1.leaf := by
  show (if c.isOptional position then (baseType b table c).1
    else .nonNull (baseType b table c).1).leaf = _
  split <;> rfl

/-! ## Overrides that are adopted -/

/-- Whether a column of a table refers to a column that has an override, by a pair of columns that a
relation joins. -/
def Adopts (r : Registry) (table column override : String) : Prop :=
  ∃ t ∈ r.all, ∃ rel ∈ Members.values t.relations, ∃ pair ∈ rel.pairs, ∃ near far,
    foreignKeySides r rel pair = .ok (some (near, far)) ∧ near.1.name = table ∧
      near.2.name = column ∧ givenText? far.2.typeOverride = some override

/-- Whether a book has nothing but adopted overrides, those of columns that are referred to. -/
def OnlyAdopts (r : Registry) (b : TypeBook) : Prop :=
  ∃ adopted, b = { adopted := adopted } ∧
    ∀ entry ∈ adopted, Adopts r entry.1.1 entry.1.2 entry.2

theorem onlyAdopts_of_adoptForeignKeyTypes {r : Registry}
    (h : adoptForeignKeyTypes r {} = .ok b) : OnlyAdopts r b := by
  obtain ⟨b', hadopt, h⟩ := bind_eq_ok.mp h
  obtain ⟨-, -, h⟩ := bind_eq_ok.mp h
  obtain rfl := pure_eq_ok.mp h
  refine foldlM_induction hadopt (fun b t ht b' h hb => ?_) ⟨[], rfl, by simp⟩
  refine foldlM_induction h (fun b rel hrel b' h hb => ?_) hb
  refine foldlM_induction h (fun b pair hpair b' h hb => ?_) hb
  obtain ⟨sides, hsides, h⟩ := bind_eq_ok.mp h
  split at h
  · exact pure_eq_ok.mp h ▸ hb
  · rename_i near far
    split at h
    · rename_i override _ hfar
      split at h
      · exact pure_eq_ok.mp h ▸ hb
      · obtain ⟨adopted, rfl, hadopted⟩ := hb
        refine ⟨_, (pure_eq_ok.mp h).symm, fun entry hentry => ?_⟩
        rcases List.mem_append.mp hentry with hentry | hentry
        · exact hadopted entry hentry
        · obtain rfl := List.mem_singleton.mp hentry
          exact ⟨t, ht, rel, hrel, pair, hpair, near, far, hsides, rfl, rfl, hfar⟩
    · exact pure_eq_ok.mp h ▸ hb

end RelGraph
