import RelGraph.Proofs.Sdl.Distinct
/-!
The enums of a schema's columns. An enum is called after the table and the column, and has one value
for each value that is stored, in order and each under a name of its own. Since different columns
can have enums of one name, the first of them, by the order of the tables and of their columns, says
what is stored; the others share that enum.
-/
namespace RelGraph

open Naming (enumName typeName)
open Outcome

/-! ## The values of an enum -/

namespace TypeBook

variable {b b' : TypeBook} {table column name : String} {stored : List Value}

/-- A name that is made fresh is not taken, as long as it can be made longer than all names taken
that are not shorter. -/
theorem freshName_not_mem {taken : List String} {fuel : Nat}
    (h : taken.countP (name.length ≤ ·.length) < fuel) : freshName taken fuel name ∉ taken := by
  -- With every underscore one more of the names taken is shorter.
  induction fuel generalizing name with
  | zero => omega
  | succ fuel ih =>
    rw [freshName]
    split
    · rename_i htaken
      have hmem : name ∈ taken := List.contains_iff_mem.mp htaken
      have hlength : (name ++ "_").length = name.length + 1 := by
        rw [String.length_append]
        rfl
      have hlonger : (taken.erase name).countP (name.length + 1 ≤ ·.length) ≤
          (taken.erase name).countP (name.length ≤ ·.length) := by
        refine List.countP_mono_left fun n _ hn => ?_
        simp only [decide_eq_true_eq] at hn ⊢
        omega
      refine ih ?_
      rw [(List.perm_cons_erase hmem).countP_eq] at h ⊢
      rw [List.countP_cons_of_pos (by simp)] at h
      rw [List.countP_cons_of_neg (by simp), hlength]
      omega
    · rename_i hfree
      exact fun hmem => hfree (List.contains_iff_mem.mpr hmem)

/-- An enum has the values that are stored, one after the other. -/
theorem values_enumValues (stored : List Value) : Members.values (enumValues stored) = stored := by
  have hrun : ∀ (pairs : List (Nat × Value)) (acc : Members Value),
      Members.values (pairs.foldl (fun acc p => Members.put acc (freshName (Members.names acc)
        (acc.length + 1) (Naming.enumValueName p.2.display p.1)) p.2) acc) =
        Members.values acc ++ pairs.map Prod.snd := by
    intro pairs
    induction pairs with
    | nil => simp
    | cons pair pairs ih =>
      intro acc
      obtain ⟨index, v⟩ := pair
      have hfresh : freshName (Members.names acc) (acc.length + 1)
          (Naming.enumValueName v.display index) ∉ Members.names acc := by
        refine freshName_not_mem (Nat.lt_succ_of_le ?_)
        simpa [Members.names] using List.countP_le_length (l := Members.names acc)
      rw [List.foldl_cons, ih]
      dsimp only
      rw [Members.put_of_not_mem hfresh]
      simp [Members.values]
  rw [enumValues]
  refine (hrun _ []).trans ?_
  simp [Members.values, List.map_snd_zip]

theorem enums_needScalar : (b.needScalar name).enums = b.enums := by
  rw [needScalar]
  split <;> rfl

theorem enums_filterName {base : Sdl.TypeRef} : (b.filterName base).2.enums = b.enums := by
  obtain ⟨_, -, heq⟩ | ⟨-, heq⟩ := filterName_cases b base <;> rw [heq]

end TypeBook

/-! ## Columns that have an enum -/

variable {b b' : TypeBook} {table : String} {c : Column}

/-- A column has an enum for the values that it stores: these are chosen from a list, and the column
has no override, of its own or adopted. -/
structure HasEnum (b : TypeBook) (table : String) (c : Column) (stored : List Value) : Prop where
  own : givenText? c.typeOverride = none
  adopted : b.adoptedType? table c.name = none
  kind : ∃ first rest, c.kind = .choice (first :: rest) ∧ stored = (first :: rest).map .text

/-- The enum of a column by its name, with the values that the column stores. -/
def askedEnum (b : TypeBook) (table : String) (c : Column) : Members (List Value) :=
  match (givenText? c.typeOverride).or (b.adoptedType? table c.name), c.kind with
  | none, .choice (first :: rest) => [(enumName table c.name, (first :: rest).map .text)]
  | _, _ => []

/-- The enums of a table's columns. -/
def askedEnums (b : TypeBook) (t : Table) : Members (List Value) :=
  t.columns.flatMap (askedEnum b t.name)

theorem askedEnum_congr (h : b'.adopted = b.adopted) : askedEnum b' = askedEnum b := by
  funext table c
  rw [askedEnum, askedEnum, TypeBook.adoptedType?, TypeBook.adoptedType?, h]

theorem mem_askedEnum {kv : String × List Value} :
    kv ∈ askedEnum b table c ↔ kv.1 = enumName table c.name ∧ HasEnum b table c kv.2 := by
  obtain ⟨name, stored⟩ := kv
  rw [askedEnum]
  constructor
  · split
    · rename_i first rest hnone hkind
      rw [List.mem_singleton]
      rintro ⟨rfl, rfl⟩
      obtain ⟨hown, hadopted⟩ := Option.or_eq_none_iff.mp hnone
      exact ⟨rfl, hown, hadopted, first, rest, hkind, rfl⟩
    · nofun
  · rintro ⟨rfl, hown, hadopted, first, rest, hkind, rfl⟩
    rw [hown, hadopted, hkind]
    exact List.mem_singleton_self _

/-- The base type of a column that has an enum is that enum; otherwise no enum is made for it. -/
theorem baseType_askedEnum (b : TypeBook) (table : String) (c : Column) :
    (∃ stored, askedEnum b table c = [(enumName table c.name, stored)] ∧
      baseType b table c = (.named (b.registerEnum table c.name stored).1.name,
        (b.registerEnum table c.name stored).2)) ∨
    (askedEnum b table c = [] ∧ (baseType b table c).2.enums = b.enums) := by
  rw [askedEnum, baseType]
  cases (givenText? c.typeOverride).or (b.adoptedType? table c.name) with
  | some override => exact .inr ⟨rfl, rfl⟩
  | none =>
    dsimp only
    cases c.kind with
    | choice texts =>
      cases texts with
      | nil => exact .inr ⟨rfl, rfl⟩
      | cons first rest => exact .inl ⟨_, rfl, rfl⟩
    | custom name =>
      cases name with
      | none => exact .inr ⟨rfl, TypeBook.enums_needScalar⟩
      | some name => exact .inr ⟨rfl, TypeBook.enums_needScalar⟩
    | _ => first | exact .inr ⟨rfl, rfl⟩ | exact .inr ⟨rfl, TypeBook.enums_needScalar⟩

/-! ## A book whose enums were asked for -/

/-- The enums of a book are those that were asked for, each with the values that it was first asked
for with. -/
def TypeBook.Settles (b : TypeBook) (asked : Members (List Value)) : Prop :=
  ∀ name, (Members.get? b.enums name).map (fun e => Members.values e.values) =
    Members.get? asked name

namespace TypeBook.Settles

variable {asked : Members (List Value)} {name : String}

theorem congr (h : b.Settles asked) (hsame : b'.enums = b.enums) : b'.Settles asked := by
  rwa [Settles, hsame]

/-- What is asked for once more changes nothing. -/
theorem of_append (h : b.Settles (asked ++ more ++ more)) : b.Settles (asked ++ more) := by
  intro name
  rw [h name, Members.get?_append, Members.get?_append, Option.or_assoc, Option.or_self]

theorem registerEnum {column : String} {stored : List Value} (h : b.Settles asked) :
    (b.registerEnum table column stored).2.Settles
      (asked ++ [(enumName table column, stored)]) := by
  intro name
  rw [Members.get?_append, ← h name, Members.get?, Members.get?]
  obtain ⟨e, he, heq⟩ | ⟨-, heq⟩ := registerEnum_cases b table column stored
  · rw [heq]
    split
    · rename_i hname
      rw [← hname, he]
      rfl
    · rw [Option.or_none]
  · rw [heq]
    dsimp only
    rw [Members.get?_append, Option.map_or, Members.get?, Members.get?]
    split
    · rw [Option.map_some, values_enumValues]
    · rfl

theorem baseType (h : b.Settles asked) :
    (RelGraph.baseType b table c).2.Settles (asked ++ askedEnum b table c) := by
  obtain ⟨stored, hasked, hbase⟩ | ⟨hasked, hsame⟩ := baseType_askedEnum b table c
  · rw [hasked, hbase]
    exact h.registerEnum
  · rw [hasked, List.append_nil]
    exact h.congr hsame

end TypeBook.Settles

namespace Sdl

variable {t : Table} {asked : Members (List Value)} {position : TypePosition}

/-- What every step does with a book that keeps the adopted overrides, a run does. -/
theorem settles_mapBook {α β : Type} {f : TypeBook → α → β × TypeBook}
    {g : TypeBook → α → Members (List Value)} {l : List α}
    (hextends : ∀ b : TypeBook, ∀ x ∈ l, b.Extends (f b x).2)
    (hsame : ∀ b b' : TypeBook, b'.adopted = b.adopted → g b' = g b)
    (hstep : ∀ b asked, ∀ x ∈ l, b.Settles asked → (f b x).2.Settles (asked ++ g b x))
    (h : b.Settles asked) : (mapBook f b l).2.Settles (asked ++ l.flatMap (g b)) := by
  induction l generalizing b asked with
  | nil => simpa [mapBook] using h
  | cons x l ih =>
    have hfirst := hstep b asked x List.mem_cons_self h
    have hadopted := (hextends b x List.mem_cons_self).adopted
    rw [List.flatMap_cons, ← List.append_assoc, ← hsame _ _ hadopted]
    exact ih (fun b y hy => hextends b y (List.mem_cons_of_mem _ hy))
      (fun b asked y hy => hstep b asked y (List.mem_cons_of_mem _ hy))
      (hsame _ _ hadopted ▸ hfirst)

theorem settles_columnFields (h : b.Settles asked) :
    (columnFields t position b).2.Settles (asked ++ askedEnums b t) :=
  settles_mapBook (g := fun b => askedEnum b t.name) (fun b c _ => extends_baseType)
    (fun b b' h => by rw [askedEnum_congr h]) (fun b asked c _ h => h.baseType) h

theorem settles_filtersInput (h : b.Settles asked) :
    (filtersInput t b).2.Settles (asked ++ askedEnums b t) := by
  refine settles_mapBook (g := fun b => askedEnum b t.name) (fun b c _ => extends_filterField t b c)
    (fun b b' h => by rw [askedEnum_congr h]) (fun b asked c _ h => ?_) h
  exact h.baseType.congr TypeBook.enums_filterName

theorem askedEnums_congr (h : b'.adopted = b.adopted) : askedEnums b' = askedEnums b := by
  funext t
  rw [askedEnums, askedEnums, askedEnum_congr h]

/-- The columns of a table are gone through four times, and ask for the same enums each time. -/
theorem settles_tableDefinitions (h : b.Settles asked) :
    (tableDefinitions b t).2.Settles (asked ++ askedEnums b t) := by
  obtain ⟨b₁, b₂, b₃, h₁, h₂, h₃, heq⟩ := tableDefinitions_eq b t
  have hsame₁ : askedEnums b₁ = askedEnums b :=
    askedEnums_congr (h₁ ▸ (extends_objectType t b).adopted)
  have hsame₂ : askedEnums b₂ = askedEnums b :=
    (askedEnums_congr (h₂ ▸ (extends_columnFields t .insertInput b₁).adopted)).trans hsame₁
  have hsame₃ : askedEnums b₃ = askedEnums b :=
    (askedEnums_congr (h₃ ▸ (extends_columnFields t .updateInput b₂).adopted)).trans hsame₂
  have hobject : b₁.Settles (asked ++ askedEnums b t) := h₁ ▸ settles_columnFields h
  have hinserts : b₂.Settles (asked ++ askedEnums b t) :=
    h₂ ▸ (hsame₁ ▸ settles_columnFields hobject).of_append
  have hupdates : b₃.Settles (asked ++ askedEnums b t) :=
    h₃ ▸ (hsame₂ ▸ settles_columnFields hinserts).of_append
  rw [heq]
  exact (hsame₃ ▸ settles_filtersInput hupdates).of_append

/-! ## The enums of a schema -/

variable {r : Registry} {config : Config} {a : Assembled}

/-- The enums that the columns of a schema ask for, by the order of the tables and of their
columns. -/
def enumColumns (r : Registry) (b : TypeBook) : Members (List Value) := r.all.flatMap (askedEnums b)

theorem settles_of_assemble (h : assemble r config = .ok a) :
    a.book.Settles (enumColumns r a.book) := by
  obtain ⟨-, -, b, hb, hbook, -⟩ := assemble_eq_ok h
  have hextends : b.Extends a.book :=
    hbook ▸ extends_mapBook (fun b t _ => extends_tableDefinitions b t) b
  obtain ⟨adopted, rfl, -⟩ := onlyAdopts_of_adoptForeignKeyTypes hb
  have hempty : TypeBook.Settles { adopted := adopted } [] := fun _ => rfl
  rw [enumColumns, askedEnums_congr hextends.adopted, hbook]
  exact settles_mapBook (g := askedEnums) (fun b t _ => extends_tableDefinitions b t)
    (fun _ _ h => askedEnums_congr h) (fun _ _ _ _ h => settles_tableDefinitions h) hempty

/-! ## The types of columns -/

/-- The fields of a definition. -/
def Definition.fields : Definition → List Field
  | .scalar _ | .enum _ _ => []
  | .input _ fields | .object _ fields _ => fields

/-- The name of the definition with the fields of a table's columns at a position. -/
def fieldsName (t : Table) : TypePosition → String
  | .output => typeName t.name
  | .insertInput => insertInputName t.name
  | .updateInput => updateInputName t.name

/-- Every item of a run is treated with a book that adds to the first one. -/
theorem exists_of_mem_mapBook {α β : Type} {f : TypeBook → α → β × TypeBook} {l : List α} {x : α}
    (hextends : ∀ b : TypeBook, ∀ x ∈ l, b.Extends (f b x).2) (hx : x ∈ l) (b : TypeBook) :
    ∃ b', b.Extends b' ∧ (f b' x).1 ∈ (mapBook f b l).1 := by
  induction l generalizing b with
  | nil => cases hx
  | cons y l ih =>
    rcases List.mem_cons.mp hx with rfl | hx
    · exact ⟨b, .refl b, List.mem_cons_self⟩
    · obtain ⟨b', hb', hmem⟩ :=
        ih (fun b z hz => hextends b z (List.mem_cons_of_mem _ hz)) hx (f b y).2
      exact ⟨b', (hextends b y List.mem_cons_self).trans hb', List.mem_cons_of_mem _ hmem⟩

theorem exists_columnField (hc : c ∈ t.columns) (position : TypePosition) (b : TypeBook) :
    ∃ f ∈ (columnFields t position b).1, f.name = c.name ∧
      ∃ b', b.Extends b' ∧ f.type = (columnType b' t.name c position).1 := by
  let field (b : TypeBook) (c : Column) : Field :=
    { name := c.name, type := (columnType b t.name c position).1
      description := if position = .output then givenText? c.description else none }
  obtain ⟨b', hb', hmem⟩ := exists_of_mem_mapBook
    (f := fun b c => (field b c, (columnType b t.name c position).2))
    (fun b c _ => extends_baseType) hc b
  exact ⟨field b' c, hmem, rfl, b', hb', rfl⟩

theorem exists_tableDefinition (b : TypeBook) (t : Table) (position : TypePosition) :
    ∃ d ∈ (tableDefinitions b t).1, d.name = fieldsName t position ∧
      ∃ b', b.Extends b' ∧ (columnFields t position b').1 ⊆ d.fields := by
  obtain ⟨b₁, b₂, b₃, h₁, h₂, -, heq⟩ := tableDefinitions_eq b t
  have hobject : b.Extends b₁ := h₁ ▸ extends_objectType t b
  have hinserts : b₁.Extends b₂ := h₂ ▸ extends_columnFields t .insertInput b₁
  rw [heq]
  cases position with
  | output =>
    exact ⟨(objectType t b).1, List.mem_cons_self, rfl, b, .refl b, List.subset_append_left _ _⟩
  | insertInput =>
    exact ⟨.input _ (columnFields t .insertInput b₁).1, by simp [insertInputName], rfl, b₁, hobject,
      fun _ h => h⟩
  | updateInput =>
    exact ⟨.input _ (columnFields t .updateInput b₂).1, by simp, rfl, b₂, hobject.trans hinserts,
      fun _ h => h⟩

/-- At every position a table has a field for each of its columns, with the column's type. -/
theorem exists_field (h : assemble r config = .ok a) (ht : t ∈ r.all) (hc : c ∈ t.columns)
    (position : TypePosition) : ∃ d ∈ a.definitions, d.name = fieldsName t position ∧
      ∃ f ∈ d.fields, f.name = c.name ∧ ∃ b : TypeBook, b.Tidy ∧ b.adopted = a.book.adopted ∧
        f.type = (columnType b t.name c position).1 := by
  obtain ⟨-, -, b, hb, hbook, hdefinitions⟩ := assemble_eq_ok h
  have hlast : b.Extends a.book :=
    hbook ▸ extends_mapBook (fun b t _ => extends_tableDefinitions b t) b
  obtain ⟨b₁, hb₁, htable⟩ :=
    exists_of_mem_mapBook (fun b t _ => extends_tableDefinitions b t) ht b
  obtain ⟨d, hd, hname, b₂, hb₂, hfields⟩ := exists_tableDefinition b₁ t position
  obtain ⟨f, hf, hfname, b₃, hb₃, htype⟩ := exists_columnField hc position b₂
  have hextends : b.Extends b₃ := (hb₁.trans hb₂).trans hb₃
  refine ⟨d, ?_, hname, f, hfields hf, hfname, b₃, ?_, ?_, htype⟩
  · rw [hdefinitions, definitionsOf]
    have hmem := List.mem_flatten_of_mem htable hd
    simp [hmem]
  · obtain ⟨adopted, rfl, -⟩ := onlyAdopts_of_adoptForeignKeyTypes hb
    exact hextends.tidy (TypeBook.tidy_empty.adopt adopted)
  · rw [hextends.adopted, hlast.adopted]

/-! ## What the enums of columns list -/

/-- The base type of a column that has an enum goes by the name of the enum. -/
theorem baseType_of_hasEnum {stored : List Value} (hb : b.Tidy) (h : HasEnum b table c stored) :
    (baseType b table c).1 = .named (enumName table c.name) := by
  obtain ⟨stored', -, heq⟩ | ⟨hnone, -⟩ := baseType_askedEnum b table c
  · rw [heq]
    obtain ⟨e, he, heq⟩ | ⟨-, heq⟩ := TypeBook.registerEnum_cases b table c.name stored'
    · rw [heq, (hb.enum _ (Members.mem_of_get? he)).1]
    · rw [heq]
  · have hmem : (enumName table c.name, stored) ∈ askedEnum b table c :=
      mem_askedEnum.mpr ⟨rfl, h⟩
    rw [hnone] at hmem
    cases hmem

/-- The enums that are asked for are those that columns have. -/
theorem mem_enumColumns {kv : String × List Value} : kv ∈ enumColumns r b ↔
    ∃ t ∈ r.all, ∃ c ∈ t.columns, kv.1 = enumName t.name c.name ∧ HasEnum b t.name c kv.2 := by
  simp only [enumColumns, askedEnums, List.mem_flatMap, mem_askedEnum]

/-- What a column's enum lists is what the first column with an enum of that name stores. -/
theorem exists_enum_of_hasEnum (h : assemble r config = .ok a) (ht : t ∈ r.all) (hc : c ∈ t.columns)
    {stored : List Value} (henum : HasEnum a.book t.name c stored) :
    ∃ e, Members.get? a.book.enums (enumName t.name c.name) = some e ∧
      Members.get? (enumColumns r a.book) (enumName t.name c.name) =
        some (Members.values e.values) := by
  have hsettles := settles_of_assemble h (enumName t.name c.name)
  have hmem : (enumName t.name c.name, stored) ∈ enumColumns r a.book :=
    mem_enumColumns.mpr ⟨t, ht, c, hc, rfl, henum⟩
  cases hfirst : Members.get? (enumColumns r a.book) (enumName t.name c.name) with
  | none => exact absurd (Members.mem_names_of_mem hmem) (Members.get?_eq_none.mp hfirst)
  | some first =>
    rw [hfirst, Option.map_eq_some_iff] at hsettles
    obtain ⟨e, he, rfl⟩ := hsettles
    exact ⟨e, he, rfl⟩

/-- A column that has an enum has it as its type wherever its rows are written or shown, and the
enum is among the definitions. It has one value, under a name of its own, for each value that the
first column with an enum of that name stores. So all columns have enums of just what they store
themselves when those with enums of one name store the same, and only then. -/
theorem enum_of_assemble (h : assemble r config = .ok a) :
    (∀ t ∈ r.all, ∀ c ∈ t.columns, ∀ stored, HasEnum a.book t.name c stored →
      (∀ position, ∃ d ∈ a.definitions, d.name = fieldsName t position ∧
        ∃ f ∈ d.fields, f.name = c.name ∧ f.type.leaf = .named (enumName t.name c.name)) ∧
      ∃ e, Members.get? a.book.enums (enumName t.name c.name) = some e ∧
        e.name = enumName t.name c.name ∧ e.definition ∈ a.definitions ∧
        (Members.names e.values).Nodup ∧
        Members.get? (enumColumns r a.book) (enumName t.name c.name) =
          some (Members.values e.values)) ∧
    ((∀ t ∈ r.all, ∀ c ∈ t.columns, ∀ stored, HasEnum a.book t.name c stored →
      ∃ e, Members.get? a.book.enums (enumName t.name c.name) = some e ∧
        Members.values e.values = stored) ↔
      ∀ t ∈ r.all, ∀ c ∈ t.columns, ∀ stored, HasEnum a.book t.name c stored →
        ∀ t' ∈ r.all, ∀ c' ∈ t'.columns, ∀ stored', HasEnum a.book t'.name c' stored' →
          enumName t.name c.name = enumName t'.name c'.name → stored = stored') := by
  have hbook := book_of_assemble h
  refine ⟨fun t ht c hc stored henum => ⟨fun position => ?_, ?_⟩, fun hown => ?_, fun hsame => ?_⟩
  · obtain ⟨d, hd, hname, f, hf, hfname, b, hb, hadopted, htype⟩ := exists_field h ht hc position
    have henum' : HasEnum b t.name c stored := by
      refine ⟨henum.own, ?_, henum.kind⟩
      rw [TypeBook.adoptedType?, hadopted]
      exact henum.adopted
    refine ⟨d, hd, hname, f, hf, hfname, ?_⟩
    rw [htype, leaf_columnType, baseType_of_hasEnum hb henum']
    rfl
  · obtain ⟨e, he, hfirst⟩ := exists_enum_of_hasEnum h ht hc henum
    obtain ⟨hname, -, hnames⟩ := hbook.enum _ (Members.mem_of_get? he)
    refine ⟨e, he, hname, ?_, hnames, hfirst⟩
    obtain ⟨-, -, b, -, -, hdefinitions⟩ := assemble_eq_ok h
    have hmem : e ∈ Members.values a.book.enums := List.mem_map_of_mem (Members.mem_of_get? he)
    rw [hdefinitions, definitionsOf, sharedDefinitions]
    simp [List.mem_map_of_mem (f := EnumType.definition) hmem]
  · intro t ht c hc stored henum t' ht' c' hc' stored' henum' hname
    obtain ⟨e, he, hvalues⟩ := hown t ht c hc stored henum
    obtain ⟨e', he', hvalues'⟩ := hown t' ht' c' hc' stored' henum'
    rw [hname, he'] at he
    rw [← hvalues, ← hvalues', Option.some.inj he]
  · intro t ht c hc stored henum
    obtain ⟨e, he, hfirst⟩ := exists_enum_of_hasEnum h ht hc henum
    obtain ⟨t', ht', c', hc', hname, henum'⟩ := mem_enumColumns.mp (Members.mem_of_get? hfirst)
    exact ⟨e, he, (hsame t ht c hc stored henum t' ht' c' hc' _ henum' hname).symm⟩

/-! ## Users and their plans -/

namespace Plans

open Loading

/-- Users with the state of their plan, and the plans with the state that they are in. -/
def declared : Declarations where
  tables := [Filters.numbered "user" [("plan_state", .choice "standing" ["active", "paused"])],
    Filters.numbered "user_plan" [("state", .choice "state" ["open", "closed"])]]

/-- A column with one of some texts. -/
def chosen (name type : String) (texts : List String) : Column where
  name := name
  kind := .choice texts
  nullable := true
  hasDefault := false
  declaration := { key := name, name := name, type := .choice type texts }

theorem load_declared : ∃ loaded a user plan,
    load declared (Filters.both "user" "user_plan") = .ok loaded ∧
      assemble loaded.registry {} = .ok a ∧ loaded.registry.all = [user, plan] ∧
      chosen "plan_state" "standing" ["active", "paused"] ∈ user.columns ∧ user.name = "user" ∧
      chosen "state" "state" ["open", "closed"] ∈ plan.columns ∧ plan.name = "user_plan" ∧
      a.book.adopted = [] ∧ Members.get? (enumColumns loaded.registry a.book) "UserPlanStateEnum" =
        some [.text "active", .text "paused"] := by
  obtain ⟨loaded, hloaded⟩ :
      ∃ loaded, load declared (Filters.both "user" "user_plan") = .ok loaded := ⟨_, rfl⟩
  obtain ⟨a, ha⟩ : ∃ a, assemble loaded.registry {} = .ok a := by
    cases hloaded
    exact ⟨_, rfl⟩
  have hadopted : a.book.adopted = [] := by
    cases hloaded
    cases ha
    rfl
  have hfirst : Members.get? (enumColumns loaded.registry a.book) "UserPlanStateEnum" =
      some [.text "active", .text "paused"] := by
    cases hloaded
    cases ha
    rfl
  cases hloaded
  exact ⟨_, a, _, _, rfl, ha, rfl, List.mem_cons_of_mem _ List.mem_cons_self, rfl,
    List.mem_cons_of_mem _ List.mem_cons_self, rfl, hadopted, hfirst⟩

theorem hasEnum_chosen {b : TypeBook} (h : b.adopted = []) (table name type first : String)
    (rest : List String) :
    HasEnum b table (chosen name type (first :: rest)) ((first :: rest).map .text) := by
  refine ⟨rfl, ?_, first, rest, rfl, rfl⟩
  rw [TypeBook.adoptedType?, h]
  rfl

theorem enumName_user : enumName "user" "plan_state" = "UserPlanStateEnum" := by decide

theorem enumName_plan : enumName "user_plan" "state" = "UserPlanStateEnum" := by decide

/-- The state of a plan has an enum that lists the states that a user's plan can have. -/
theorem states_of_plan : ∃ loaded a, load declared (Filters.both "user" "user_plan") = .ok loaded ∧
    assemble loaded.registry {} = .ok a ∧
    HasEnum a.book "user_plan" (chosen "state" "state" ["open", "closed"])
      [.text "open", .text "closed"] ∧
    ∃ e, Members.get? a.book.enums "UserPlanStateEnum" = some e ∧ e.definition ∈ a.definitions ∧
      (Members.names e.values).Nodup ∧
      Members.values e.values = [.text "active", .text "paused"] := by
  obtain ⟨loaded, a, user, plan, hloaded, ha, hall, hchosen, huser, hstate, hplan, hadopted,
    hfirst⟩ := load_declared
  have henum := hasEnum_chosen hadopted "user_plan" "state" "state" "open" ["closed"]
  obtain ⟨hlists, -⟩ := enum_of_assemble ha
  obtain ⟨-, e, he, -, hdefined, hnames, hvalues⟩ :=
    hlists plan (by simp [hall]) _ hstate _ (hplan ▸ henum)
  rw [hplan, chosen, enumName_plan] at he hvalues
  rw [hfirst] at hvalues
  exact ⟨loaded, a, hloaded, ha, henum, e, he, hdefined, hnames, (Option.some.inj hvalues).symm⟩

/-- Two columns that store different values share one enum, so that of the second does not list
what is stored there. -/
theorem states_not_own : ∃ loaded a, load declared (Filters.both "user" "user_plan") = .ok loaded ∧
    assemble loaded.registry {} = .ok a ∧
    ¬ ∀ t ∈ loaded.registry.all, ∀ c ∈ t.columns, ∀ stored, HasEnum a.book t.name c stored →
      ∃ e, Members.get? a.book.enums (enumName t.name c.name) = some e ∧
        Members.values e.values = stored := by
  obtain ⟨loaded, a, user, plan, hloaded, ha, hall, hchosen, huser, hstate, hplan, hadopted,
    -⟩ := load_declared
  refine ⟨loaded, a, hloaded, ha, fun hown => ?_⟩
  obtain ⟨e, he, hvalues⟩ := hown user (by simp [hall]) _ hchosen _
    (hasEnum_chosen hadopted user.name "plan_state" "standing" "active" ["paused"])
  obtain ⟨e', he', hvalues'⟩ := hown plan (by simp [hall]) _ hstate _
    (hasEnum_chosen hadopted plan.name "state" "state" "open" ["closed"])
  rw [huser, chosen, enumName_user] at he
  rw [hplan, chosen, enumName_plan, he] at he'
  obtain rfl := Option.some.inj he'
  rw [hvalues] at hvalues'
  simp at hvalues'

end Plans

end Sdl

end RelGraph
