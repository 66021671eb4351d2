import Mathlib
import RelGraph.Proofs.Api
import RelGraph.Proofs.Exports.Levels
/-!
What a field publishes of a row. Three names are looked up for it, in the row as it is: its response
key, its own name, and its response key marked. The first of them that is taken says what is
published, be it what the field resolves to, or what another field has asked for under that name; and
whether a directive leaves the field out does not matter.
-/
namespace RelGraph

open Outcome Plan
open Graphql (Covers Directive Entry FieldNode Variables isKept)

namespace Graphql.FieldNode

/-- A field as an entry of a selection. -/
def entry (x : FieldNode) : Entry := .field x.label x.name x.args x.directives x.entries

theorem mem_fieldsIn_of_entry {x : FieldNode} {keep : List Directive → Bool} {es : List Entry}
    (h : x.entry ∈ es) (hkeep : keep x.directives = true) : x ∈ Entry.fieldsIn keep es :=
  Entry.mem_fieldsIn.mpr ⟨_, h, by simp [entry, Entry.fields, hkeep]⟩

end Graphql.FieldNode

namespace Exports

open Hydration (Shown)

/-! ## Names that are looked up -/

section Names

variable {r : Registry} {maxDepth : Nat} {t : Table} {fields : List (String × Selection)}
  {row : Members Value} {x : FieldNode} {key : String} {sel : Selection}

/-- The names that are looked up for a field, in this order. -/
def candidates (x : FieldNode) : List String := [x.key, x.name, "_" ++ x.key]

/-- The first of the names of a field that is taken at its level. -/
def firstTaken? (t : Table) (fields : List (String × Selection)) (x : FieldNode) : Option String :=
  (candidates x).find? fun key => decide (Taken t fields key)

/-- The key under which a row has what a field resolves to: a column by its name, a relation by its
row key. -/
def ownKey (t : Table) (x : FieldNode) : String :=
  if t.hasColumn x.name then x.name else relationKey t x.key

/-- Whether what a field resolves to is found before anything else. A column may be asked for under
a response key that nothing else goes by. A relation whose response key is marked is only found
where neither this key, without the mark, nor its name is taken. -/
def MeetsOwn (t : Table) (fields : List (String × Selection)) (x : FieldNode) : Prop :=
  if t.hasColumn x.name then x.key = x.name ∨ ¬ Taken t fields x.key
  else t.hasColumn x.key = false ∨
    ¬ Taken t fields x.key ∧ (x.name = "_" ++ x.key ∨ ¬ Taken t fields x.name)

instance : Decidable (MeetsOwn t fields x) :=
  inferInstanceAs (Decidable (ite _ _ _))

theorem findSome?_get? (row : Members Value) (keys : List String) :
    keys.findSome? (Members.get? row) =
      (keys.find? (Members.has row)).map (Value.object row).field := by
  induction keys with
  | nil => rfl
  | cons key keys ih =>
    rw [List.findSome?_cons, List.find?_cons, Members.has]
    cases hget : Members.get? row key with
    | none => exact ih
    | some v =>
      show some v = some (((Members.get? row key)).getD .null)
      rw [hget]
      rfl

/-- What a row has for a field is what stands under the first of its names that is taken. -/
theorem memberFor?_eq (h : Shown r maxDepth t fields row) :
    memberFor? row x.label x.name = (firstTaken? t fields x).map (Value.object row).field := by
  have hsame : Members.has row = fun key => decide (Taken t fields key) := by
    funext key
    rw [Bool.eq_iff_iff, decide_eq_true_iff]
    exact h.has_iff
  show (candidates x).findSome? (Members.get? row) = _
  rw [findSome?_get?, hsame]
  rfl

theorem firstTaken?_eq_none :
    firstTaken? t fields x = none ↔ ∀ key ∈ candidates x, ¬ Taken t fields key := by
  simp [firstTaken?]

theorem ne_marked (key : String) : key ≠ "_" ++ key := by
  intro h
  have hlength := congrArg String.length h
  rw [String.length_append] at hlength
  have : "_".length = 1 := rfl
  omega

/-- A field that was told of is taken under its own key: a column, or the relation that it is. -/
theorem taken_ownKey (hsel : Members.get? fields x.key = some sel) (hname : sel.name = x.name)
    (hfield : t.hasColumn x.name = true ∨ (t.relation? x.name).isSome) :
    Taken t fields (ownKey t x) := by
  have hmem := Members.mem_of_get? hsel
  rw [ownKey]
  split
  · rename_i hcolumn
    refine .inl (List.mem_filter.mpr ⟨?_, hcolumn⟩)
    exact List.mem_map.mpr ⟨_, hmem, hname⟩
  · rename_i hcolumn
    obtain ⟨rel, hrel⟩ := Option.isSome_iff_exists.mp (hfield.resolve_left hcolumn)
    refine .inr (List.mem_map_of_mem (List.mem_map.mpr ⟨⟨x.key, rel, sel⟩, ?_, rfl⟩))
    refine List.mem_filterMap.mpr ⟨_, hmem, ?_⟩
    dsimp only
    rw [hname, if_neg hcolumn, hrel]
    rfl

theorem ownKey_mem_candidates : ownKey t x ∈ candidates x := by
  rw [ownKey, relationKey, candidates]
  split
  · simp
  · split <;> simp

/-- A field is found under its own key exactly where it meets its own. -/
theorem firstTaken?_eq_ownKey_iff (h : Taken t fields (ownKey t x)) :
    firstTaken? t fields x = some (ownKey t x) ↔ MeetsOwn t fields x := by
  rw [firstTaken?, candidates, MeetsOwn]
  rw [ownKey] at h ⊢
  by_cases hcolumn : t.hasColumn x.name = true
  · rw [if_pos hcolumn] at h ⊢
    rw [if_pos hcolumn]
    by_cases hkey : Taken t fields x.key
    · simp [hkey]
    · simp [hkey, h]
  · rw [if_neg hcolumn] at h ⊢
    rw [if_neg hcolumn]
    by_cases hmarked : t.hasColumn x.key = true
    · rw [relationKey_of_column hmarked] at h ⊢
      by_cases hkey : Taken t fields x.key
      · simp [hkey, hmarked, ne_marked]
      · by_cases hname : Taken t fields x.name
        · simp [hkey, hname, hmarked]
        · simp [hkey, hname, hmarked, h]
    · rw [Bool.not_eq_true] at hmarked
      rw [relationKey_of_not_column hmarked] at h ⊢
      simp [h, hmarked]

end Names

/-! ## What is published -/

/-- What a field publishes of a value: the value under the name of the field, and what is below. -/
def publicationsUnder (x : FieldNode) (v : Value) : List (String × Value) :=
  publication (publishedName? x.directives) v ++
    (rowsIn v).flatMap fun row => publicationsOfAll row x.entries

section Published

variable {r : Registry} {maxDepth : Nat} {t : Table} {fields : List (String × Selection)}
  {row : Members Value} {x : FieldNode} {name : String} {v : Value}

theorem publication_of_name (hname : publishedName? x.directives = some name) (hne : name ≠ "")
    (v : Value) : publication (publishedName? x.directives) v = [(name, v)] := by
  rw [hname, publication, if_neg (by simpa [String.isEmpty_iff] using hne)]

/-- A field publishes what its row has under the first of its names that is taken. -/
theorem publicationsOf_entry (h : Shown r maxDepth t fields row) :
    publicationsOf row x.entry =
      ((firstTaken? t fields x).map (Value.object row).field).elim [] (publicationsUnder x) := by
  rw [FieldNode.entry, publicationsOf, memberFor?_eq h]
  cases firstTaken? t fields x <;> rfl

/-- A field with a name to publish under publishes nothing of a row only where none of its names is
taken. -/
theorem publicationsOf_eq_nil (h : Shown r maxDepth t fields row)
    (hname : publishedName? x.directives = some name) (hne : name ≠ "") :
    publicationsOf row x.entry = [] ↔ ∀ key ∈ candidates x, ¬ Taken t fields key := by
  rw [publicationsOf_entry h, ← firstTaken?_eq_none]
  cases firstTaken? t fields x with
  | none => simp
  | some key => simp [publicationsUnder, publication_of_name hname hne]

end Published

/-! ## Levels -/

/-- A level of what is published: a row of a table, the entries that are gone through there, and the
fields that the resolver has been told of for values of a type. -/
structure Level where
  table : Table
  type : String
  fields : List (String × Selection)
  entries : List Entry
  row : Members Value

section Levels

variable {s : Graphql.Schema} {vars : Variables} {r : Registry} {maxDepth : Nat} {l l' : Level}
  {x : FieldNode} {sel : Selection}

/-- A field leads from a level to a row below it: it is left in, it is the last relation that comes
to its row key, and what it resolves to is found for it before anything else. -/
inductive Leads (s : Graphql.Schema) (vars : Variables) (r : Registry) (l : Level) : Level → Prop
  | through {x : FieldNode} {d : Graphql.FieldDefinition} {sel : Selection} {rel : Relation}
      {target : Table} {row : Members Value}
      (written : x.entry ∈ l.entries) (kept : isKept vars x.directives = true)
      (own : x.isOwn = true) (field : s.field? l.type x.name = some d)
      (told : Members.get? l.fields x.key = some sel)
      (last : IsLast l.table l.fields ⟨x.key, rel, sel⟩)
      (meets : MeetsOwn l.table l.fields x)
      (there : r.table? rel.target = some target)
      (below : row ∈ rowsIn ((Value.object l.row).field (ownKey l.table x))) :
      Leads s vars r l ⟨target, d.type.name, sel.fields, x.entries, row⟩

/-- What holds of a level: its table is there, its row is shown for the fields, and the fields cover
those that are left in. -/
structure Level.Holds (s : Graphql.Schema) (vars : Variables) (r : Registry) (maxDepth : Nat)
    (l : Level) : Prop where
  known : ∃ key, r.table? key = some l.table
  shown : Shown r maxDepth l.table l.fields l.row
  told : Covers s vars l.type (Entry.fieldsIn (isKept vars) l.entries) l.fields

/-- A relation of a level, of the name that it was told of with. -/
theorem relation?_of_isLast {t : Table} {fields : List (String × Selection)} {f : RelationField}
    (h : IsLast t fields f) :
    t.hasColumn f.selection.name = false ∧ t.relation? f.selection.name = some f.relation := by
  obtain ⟨before, after, hsplit, -⟩ := h
  have hmem : f ∈ relationFields t fields := by simp [hsplit]
  obtain ⟨⟨key, s⟩, -, hf⟩ := List.mem_filterMap.mp hmem
  dsimp only at hf
  split at hf
  · cases hf
  · rename_i hcolumn
    obtain ⟨rel, hrel, rfl⟩ := Option.map_eq_some_iff.mp hf
    exact ⟨Bool.eq_false_iff.mpr hcolumn, hrel⟩

namespace Level.Holds

/-- A field that is left in was told of. -/
theorem told_of_kept (h : l.Holds s vars r maxDepth) (hx : x.entry ∈ l.entries)
    (hkept : isKept vars x.directives = true) (hown : x.isOwn = true) :
    ∃ sel, Members.get? l.fields x.key = some sel ∧ sel.name = x.name := by
  cases h.told with
  | mk hname =>
    exact Option.map_eq_some_iff.mp
      (hname x (FieldNode.mem_fieldsIn_of_entry hx hkept) hown)

/-- What holds of a level holds of the levels that its fields lead to. -/
theorem of_leads (h : l.Holds s vars r maxDepth) (hleads : Leads s vars r l l') :
    l'.Holds s vars r maxDepth := by
  obtain ⟨hx, hkept, hown, hd, hsel, hlast, -, htarget, hrow⟩ := hleads
  rename_i x d sel rel target row
  obtain ⟨sel', hsel', hname⟩ := h.told_of_kept hx hkept hown
  obtain rfl : sel' = sel := Option.some.inj (hsel'.symm.trans hsel)
  obtain ⟨hcolumn, -⟩ := relation?_of_isLast hlast
  dsimp only at hcolumn
  rw [hname] at hcolumn
  rw [ownKey, hcolumn, if_neg (by decide)] at hrow
  refine ⟨⟨_, htarget⟩, h.shown.below hlast htarget hrow, ?_⟩
  cases h.told with
  | mk _ hbelow =>
    exact hbelow x (FieldNode.mem_fieldsIn_of_entry hx hkept) d sel' hown hd hsel

/-- What holds of a level holds of all levels that are come to from it. -/
theorem of_reached (h : l.Holds s vars r maxDepth)
    (hreached : Relation.ReflTransGen (Leads s vars r) l l') : l'.Holds s vars r maxDepth := by
  induction hreached with
  | refl => exact h
  | tail _ hleads ih => exact ih.of_leads hleads

end Level.Holds

/-! ### What is published from a level -/

theorem publicationsOfAll_eq_flatMap (row : Members Value) (es : List Entry) :
    publicationsOfAll row es = es.flatMap (publicationsOf row) := by
  induction es with
  | nil => rfl
  | cons e rest ih => rw [publicationsOfAll, ih, List.flatMap_cons]

/-- What is published from a level is published from every level that leads to it. -/
theorem publications_subset_of_leads (h : l.Holds s vars r maxDepth) (hleads : Leads s vars r l l') :
    publicationsOfAll l'.row l'.entries ⊆ publicationsOfAll l.row l.entries := by
  obtain ⟨hx, hkept, hown, -, hsel, hlast, hmeets, -, hrow⟩ := hleads
  rename_i x _ sel rel _ row
  obtain ⟨sel', hsel', hname⟩ := h.told_of_kept hx hkept hown
  obtain rfl : sel' = sel := Option.some.inj (hsel'.symm.trans hsel)
  have hrel : l.table.relation? x.name = some rel := by
    rw [← hname]
    exact (relation?_of_isLast hlast).2
  have htaken := taken_ownKey hsel hname (.inr (by rw [hrel]; rfl))
  have hentry := publicationsOf_entry (x := x) h.shown
  rw [(firstTaken?_eq_ownKey_iff htaken).mpr hmeets] at hentry
  intro pub hpub
  rw [publicationsOfAll_eq_flatMap]
  refine List.mem_flatMap.mpr ⟨x.entry, hx, ?_⟩
  rw [hentry]
  exact List.mem_append_right _ (List.mem_flatMap.mpr ⟨row, hrow, hpub⟩)

theorem publications_subset_of_reached (h : l.Holds s vars r maxDepth)
    (hreached : Relation.ReflTransGen (Leads s vars r) l l') :
    publicationsOfAll l'.row l'.entries ⊆ publicationsOfAll l.row l.entries := by
  induction hreached with
  | refl => exact List.Subset.refl _
  | tail hbefore hleads ih =>
    exact List.Subset.trans (publications_subset_of_leads (h.of_reached hbefore) hleads) ih

/-- A field of a level that is left in, and is a column or a relation, publishes under its name. -/
theorem exists_publication (h : l.Holds s vars r maxDepth) (hx : x.entry ∈ l.entries)
    (hkept : isKept vars x.directives = true) (hown : x.isOwn = true)
    (hfield : l.table.hasColumn x.name = true ∨ (l.table.relation? x.name).isSome) {name : String}
    (hname : publishedName? x.directives = some name) (hne : name ≠ "") :
    ∃ v, (name, v) ∈ publicationsOfAll l.row l.entries := by
  obtain ⟨sel, hsel, hsame⟩ := h.told_of_kept hx hkept hown
  have htaken := taken_ownKey hsel hsame hfield
  cases hfirst : firstTaken? l.table l.fields x with
  | none => exact absurd htaken (firstTaken?_eq_none.mp hfirst _ ownKey_mem_candidates)
  | some key =>
    refine ⟨(Value.object l.row).field key, ?_⟩
    rw [publicationsOfAll_eq_flatMap]
    refine List.mem_flatMap.mpr ⟨x.entry, hx, ?_⟩
    rw [publicationsOf_entry h.shown, hfirst, Option.map_some, Option.elim_some, publicationsUnder,
      publication_of_name hname hne]
    exact List.mem_cons_self

/-- A level whose fields are told of has what holds of levels. -/
theorem Level.holds_of_told {t : Table} {type key : String} {fields : List (String × Selection)}
    {told es : List Entry} {row : Members Value} (ht : r.table? key = some t)
    (hrow : Shown r maxDepth t fields row)
    (htold : Graphql.requestEntries s vars type [] told = .ok fields) (hes : es ⊆ told) :
    Level.Holds s vars r maxDepth ⟨t, type, fields, es, row⟩ where
  known := ⟨key, ht⟩
  shown := hrow
  told := by
    refine (Graphql.covers_of_requestEntries told htold).2.subset fun x hx => ?_
    obtain ⟨e, he, hx⟩ := Entry.mem_fieldsIn.mp hx
    exact Entry.mem_fieldsIn.mpr ⟨e, hes he, hx⟩

end Levels

open Loading (Loaded load)
open Naming (typeName)

/-- In an API of a loaded schema a field publishes of a row what the row has under the first of the
names of the field that is taken at its level, whether or not a directive leaves the field out; it
publishes nothing only where none of them is. One that is left in, and is a column or the last
relation that comes to its row key, resolves to what the row has under its own key, and this is what
it publishes precisely where it meets its own. All of this holds of every row that is shown for
fields, and of all rows below that are come to through fields that meet their own. -/
theorem publishes_own_iff {d : Declarations} {source : SchemaSource} {loaded : Loaded}
    {config : Config} {api : Api} (hload : load d source = .ok loaded)
    (hapi : Api.build loaded.registry config = .ok api) (s : Graphql.Schema) (vars : Variables)
    (maxDepth : Nat) {key type : String} {t : Table} {told es : List Entry}
    {fields : List (String × Selection)} {row : Members Value}
    (ht : api.registry.table? key = some t) (hrow : Shown api.registry maxDepth t fields row)
    (htold : Graphql.requestEntries s vars type [] told = .ok fields) (hes : es ⊆ told) :
    ∀ l, Relation.ReflTransGen (Leads s vars api.registry) ⟨t, type, fields, es, row⟩ l →
      ∀ x : FieldNode, x.entry ∈ l.entries →
        publicationsOf l.row x.entry =
          ((firstTaken? l.table l.fields x).map (Value.object l.row).field).elim []
            (publicationsUnder x) ∧
        (∀ name, publishedName? x.directives = some name → name ≠ "" →
          (publicationsOf l.row x.entry = [] ↔
            ∀ key ∈ candidates x, ¬ Taken l.table l.fields key)) ∧
        (isKept vars x.directives = true → x.isOwn = true →
          (l.table.hasColumn x.name = true ∨ ∃ rel sel, Members.get? l.fields x.key = some sel ∧
            IsLast l.table l.fields ⟨x.key, rel, sel⟩) →
          (∀ args, api.resolve ⟨typeName l.table.name, x.name, x.key, .object l.row, args⟩ =
            .ok ((Value.object l.row).field (ownKey l.table x))) ∧
          (firstTaken? l.table l.fields x = some (ownKey l.table x) ↔
            MeetsOwn l.table l.fields x)) := by
  intro l hreached x hx
  have hl := (Level.holds_of_told ht hrow htold hes).of_reached hreached
  refine ⟨publicationsOf_entry hl.shown, fun name => publicationsOf_eq_nil hl.shown, ?_⟩
  intro hkept hown hfield
  obtain ⟨sel, hsel, hname⟩ := hl.told_of_kept hx hkept hown
  obtain ⟨key', ht'⟩ := hl.known
  rcases hfield with hcolumn | ⟨rel, sel', hsel', hlast⟩
  · refine ⟨fun args => ?_, firstTaken?_eq_ownKey_iff (taken_ownKey hsel hname (.inl hcolumn))⟩
    rw [Api.resolve_column hload hapi ht' hcolumn, ownKey, if_pos hcolumn]
  · obtain rfl : sel' = sel := Option.some.inj (hsel'.symm.trans hsel)
    obtain ⟨hcolumn, hrel⟩ := relation?_of_isLast hlast
    dsimp only at hcolumn hrel
    rw [hname] at hcolumn hrel
    refine ⟨fun args => ?_, firstTaken?_eq_ownKey_iff
      (taken_ownKey hsel hname (.inr (by rw [hrel]; rfl)))⟩
    rw [Api.resolve_relation hapi ht' hrel, hl.shown.readRelation_eq hlast, ownKey, hcolumn,
      if_neg (by decide)]

/-! ## Books and their writers -/

namespace Lending

open Loading.Catalogue (declared everything)

/-- A column of whole numbers. -/
def column (name : String) (primary : Bool) : Column :=
  { name := name, kind := .whole, nullable := true, hasDefault := primary,
    declaration := { key := name, name := name, type := .integer, primary := primary } }

/-- The relation of a book to its writer. -/
def toWriter : Relation := ⟨"writer", false, "books", "authors", ["author"], ["id"]⟩

/-- The relation of an author to the books that refer to them. -/
def toBooks (name : String) : Relation := ⟨name, true, "authors", "books", ["id"], ["author"]⟩

def authors : Table :=
  { name := "authors", columns := [column "id" true], rowKey := some "id", model := some "Author"
    relations := ["works", "books"].map fun name => (name, toBooks name)
    declaration := (declared ["author"]).tables[0] }

def books : Table :=
  { name := "books", columns := [column "id" true, column "author" false], rowKey := some "id"
    model := some "Book", relations := [("writer", toWriter)]
    declaration := (declared ["author"]).tables[1] }

/-- The catalogue of books. -/
def registry : Registry := ⟨[("authors", authors), ("books", books)]⟩

theorem load_eq : ∃ ignored, load (declared ["author"]) everything = .ok ⟨registry, ignored⟩ :=
  ⟨_, rfl⟩

/-- The interface to the catalogue. -/
def api : Api := (Api.build registry {}).toOption.getD default

theorem api_eq : Api.build registry {} = .ok api := rfl

/-- The types of books and authors. -/
def schema : Graphql.Schema where
  types := [
    ("Books", .object [] [{ name := "id", type := .named "Int" },
      { name := "author", type := .named "Int" }, { name := "writer", type := .named "Authors" }]),
    ("Authors", .object [] [{ name := "id", type := .named "Int" }])]

/-- A field that publishes. -/
def exporting (label : Option String) (name under : String) (entries : List Entry) : FieldNode :=
  ⟨label, name, [], [⟨"export", [("as", .text under)]⟩], entries⟩

/-- The number of the author, under a key of its own. -/
def number : FieldNode := exporting (some "number") "author" "x" []

/-- The number of a writer. -/
def writerId : FieldNode := exporting none "id" "z" []

/-- The writer. -/
def writer : FieldNode := exporting none "writer" "y" [writerId.entry]

/-- What is asked for of a book: the number of its author, and its writer. -/
def asked : List (String × Selection) := [("number", ⟨"author", some "number", [], []⟩),
  ("writer", ⟨"writer", none, [], [("id", ⟨"id", none, [], []⟩)]⟩)]

/-- A book as callers see it. -/
def book : Members Value := [("author", .int 7), ("writer", .object [("id", .int 7)])]

theorem told_asked :
    Graphql.requestEntries schema {} "Books" [] [number.entry, writer.entry] = .ok asked := by
  cbv

/-- The plan for books. -/
def plan : Node where
  table := "books"
  columns := ["author"]
  relations := [("writer", { table := "authors", columns := ["id"], relation := some toWriter })]

theorem plan_eq : ofFields registry 5 0 books [] none asked = .ok plan := by
  cbv

theorem shown_book : Shown registry 5 books asked book := by
  refine ⟨0, [], none, plan, book, plan_eq, plan, List.mem_cons_self, ?_⟩
  simp only [plan, Hydration.row, Hydration.relationValues, Hydration.relationValue]
  rfl

/-- The level of a book. -/
def bookLevel : Level := ⟨books, "Books", asked, [number.entry, writer.entry], book⟩

/-- The level of its writer. -/
def writerLevel : Level :=
  ⟨authors, "Authors", [("id", ⟨"id", none, [], []⟩)], [writerId.entry], [("id", .int 7)]⟩

theorem leads_writer : Leads schema {} registry bookLevel writerLevel := by
  have hlast : IsLast books asked ⟨"writer", toWriter, asked[1].2⟩ := ⟨[], [], rfl, by simp⟩
  have hmeets : MeetsOwn books asked writer := by decide +kernel
  have hwritten : writer.entry ∈ bookLevel.entries := List.mem_of_getElem? (i := 1) rfl
  have hfield : schema.field? "Books" writer.name =
      some { name := "writer", type := .named "Authors" } := rfl
  have hthere : registry.table? toWriter.target = some authors := rfl
  exact .through hwritten rfl (by decide +kernel) hfield rfl hlast hmeets hthere
    (List.mem_singleton_self _)

/-- A book publishes the number of its author, and its writer their own number. -/
theorem book_published :
    Api.build registry {} = .ok api ∧ Shown registry 5 books asked book ∧
      MeetsOwn books asked number ∧ publicationsOf book number.entry = [("x", .int 7)] ∧
      MeetsOwn authors writerLevel.fields writerId ∧
      publicationsOf writerLevel.row writerId.entry = [("z", .int 7)] := by
  obtain ⟨ignored, hload⟩ := load_eq
  have hbooks : api.registry.table? "books" = some books := rfl
  have hall := publishes_own_iff hload api_eq schema {} 5 hbooks shown_book told_asked
    (List.Subset.refl _)
  have hnumber : MeetsOwn books asked number := by decide +kernel
  have hwriterId : MeetsOwn authors writerLevel.fields writerId := by decide +kernel
  obtain ⟨hfound, -, hown⟩ := hall bookLevel .refl number List.mem_cons_self
  obtain ⟨hfound', -, hown'⟩ := hall writerLevel (.single leads_writer) writerId List.mem_cons_self
  obtain ⟨-, hmeets⟩ := hown rfl (by decide +kernel) (.inl rfl)
  obtain ⟨-, hmeets'⟩ := hown' rfl (by decide +kernel) (.inl rfl)
  refine ⟨api_eq, shown_book, hnumber, ?_, hwriterId, ?_⟩
  · rw [hmeets.mpr hnumber] at hfound
    exact hfound.trans rfl
  · rw [hmeets'.mpr hwriterId] at hfound'
    exact hfound'.trans rfl

/-- A column of a book, under a key of its own. -/
def labelled (label name : String) : FieldNode := ⟨some label, name, [], [], []⟩

/-- The author of a book, under the name of the column that numbers books. -/
def authorAsId : FieldNode := exporting (some "id") "author" "x" []

/-- The author of a book, which is left out. -/
def leftOut : FieldNode :=
  ⟨none, "author", [], [⟨"skip", [("if", .bool true)]⟩, ⟨"export", [("as", .text "x")]⟩], []⟩

/-- A field publishes the column that its response key is the name of, since another field has asked
for that column; and a field that is left out publishes what another one has asked for. -/
theorem book_misled :
    (∃ fields row, Graphql.requestEntries schema {} "Books" []
        [authorAsId.entry, (labelled "n" "id").entry] = .ok fields ∧
      Shown registry 5 books fields row ∧ isKept {} authorAsId.directives = true ∧
      api.resolve ⟨"Books", "author", "id", .object row, []⟩ = .ok (.int 7) ∧
      publicationsOf row authorAsId.entry = [("x", .int 1)]) ∧
    ∃ fields row, Graphql.requestEntries schema {} "Books" []
        [(labelled "n" "author").entry, leftOut.entry] = .ok fields ∧
      Shown registry 5 books fields row ∧ isKept {} leftOut.directives = false ∧
      publicationsOf row leftOut.entry = [("x", .int 7)] := by
  refine ⟨⟨[("id", ⟨"author", some "id", [], []⟩), ("n", ⟨"id", some "n", [], []⟩)],
    [("author", .int 7), ("id", .int 1)], by cbv, ?_, rfl, rfl, rfl⟩,
    [("n", ⟨"author", some "n", [], []⟩)], [("author", .int 7)], by cbv, ?_, by cbv, rfl⟩
  · refine ⟨0, [], none, { table := "books", columns := ["author", "id"] },
      [("author", .int 7), ("id", .int 1)], by cbv, _, List.mem_cons_self, ?_⟩
    simp only [Hydration.row, Hydration.relationValues]
    rfl
  · refine ⟨0, [], none, { table := "books", columns := ["author"] }, [("author", .int 7)],
      by cbv, _, List.mem_cons_self, ?_⟩
    simp only [Hydration.row, Hydration.relationValues]
    rfl

end Lending

end Exports
end RelGraph
