import RelGraph.Proofs.Sdl.Assembly
/-!
The names of filter inputs, over any sequence of base types that ask for one. A base type keeps the
name that it was given first. The first base type of a plain name has the short name, and those
after it are marked; a mark cannot make a short name, whichever of the two is given first. As long
as the marks tell base types of one plain name apart, no two base types share a name, and the book's
two maps, from base types to names and from names to their owners, undo each other.
-/
namespace RelGraph

open Naming (plainTypeName marked)
open Sdl (TypeRef mapBook)

/-! ## Marks -/

namespace Naming

/-- The mark of what a name stands for: the first eight digits of its digest. -/
def mark (meaning : String) : String :=
  String.ofList ((Digest.sha1 meaning.toUTF8.toList).toList.take 8)

theorem marked_eq (name meaning : String) : marked name meaning = name ++ "_" ++ mark meaning := rfl

theorem mark_eq_of_marked {name meaning meaning' : String}
    (h : marked name meaning = marked name meaning') : mark meaning = mark meaning' := by
  rw [marked_eq, marked_eq, ← String.toList_inj, String.toList_append (s := name ++ "_"),
    String.toList_append (s := name ++ "_")] at h
  exact String.toList_inj.mp (List.append_cancel_left h)

/-- Whether the marks tell texts of one plain name apart. -/
def MarksTell (texts : List String) : Prop :=
  ∀ x ∈ texts, ∀ y ∈ texts, x ≠ y → plainTypeName x = plainTypeName y → mark x ≠ mark y

instance (texts : List String) : Decidable (MarksTell texts) :=
  inferInstanceAs (Decidable (∀ x ∈ texts, ∀ y ∈ texts, _))

/-- A mark makes no short name. -/
theorem marked_ne_short (text text' : String) :
    marked (plainTypeName text) text ++ "FieldFilter" ≠ plainTypeName text' ++ "FieldFilter" :=
  fun h => marked_ne_plainTypeName _ _ _ (append_inj h (.inl rfl)).1

end Naming

open Naming

namespace TypeBook

variable {b b' : TypeBook} {base : TypeRef} {bases : List TypeRef} {text name : String}

/-! ## What a book knows -/

/-- The name of the filter input of a base type, if one was asked for. -/
def filterInput? (b : TypeBook) (text : String) : Option String :=
  (Members.get? b.filterNames text).map Prod.snd

/-- Whether the owners of names are the base types that have them. -/
def OwnersKept (b : TypeBook) : Prop :=
  ∀ text name, b.filterInput? text = some name ↔ Members.get? b.filterOwners name = some text

theorem Extends.filterInput? (h : Extends b b') (htext : b.filterInput? text = some name) :
    b'.filterInput? text = some name := by
  obtain ⟨known, hknown, rfl⟩ := Option.map_eq_some_iff.mp htext
  obtain ⟨more, hmore⟩ := h.filterNames
  rw [TypeBook.filterInput?, ← hmore, Members.get?_append, hknown]
  rfl

theorem mem_filterInputs_of_filterInput? (h : b.filterInput? text = some name) :
    name ∈ b.filterInputs := by
  obtain ⟨known, hknown, rfl⟩ := Option.map_eq_some_iff.mp h
  exact List.mem_map_of_mem (List.mem_map_of_mem (Members.mem_of_get? hknown))

/-! ## One base type -/

/-- What a base type is told is what the book knows from then on. -/
theorem filterInput?_filterName (b : TypeBook) (base : TypeRef) :
    (b.filterName base).2.filterInput? base.text = some (b.filterName base).1 := by
  obtain ⟨known, hknown, heq⟩ | ⟨hnew, heq⟩ := filterName_cases b base
  · rw [heq, filterInput?, hknown]
    rfl
  · rw [heq, filterInput?, Members.get?_append, Members.get?_eq_none.mpr hnew]
    simp [Members.get?]

theorem mem_names_filterName : text ∈ Members.names (b.filterName base).2.filterNames ↔
    text ∈ Members.names b.filterNames ∨ text = base.text := by
  obtain ⟨known, hknown, heq⟩ | ⟨-, heq⟩ := filterName_cases b base
  · have hthere : base.text ∈ Members.names b.filterNames :=
      Members.mem_names_of_mem (Members.mem_of_get? hknown)
    rw [heq]
    exact ⟨.inl, fun h => h.elim id fun htext => htext ▸ hthere⟩
  · rw [heq]
    simp [Members.names]

/-- A name that no one owns yet is owned by the base type that it is made for. -/
theorem ownersKept_filterName (htidy : b.Tidy) (hb : b.OwnersKept)
    (hapart : (b.filterName base).2.filterInputs.Nodup) : (b.filterName base).2.OwnersKept := by
  obtain ⟨known, -, heq⟩ | ⟨hnew, heq⟩ := filterName_cases b base
  · rwa [heq]
  · rw [heq] at hapart ⊢
    -- The new name is none of the known ones, so that writing its owner replaces no other.
    have hfree : b.newFilterName base.text ∉ b.filterInputs := by
      have happend : (b.filterInputs ++ [b.newFilterName base.text]).Nodup := by
        simpa [filterInputs, Members.values] using hapart
      exact fun hmem => (List.nodup_append.mp happend).2.2 _ hmem _ (by simp) rfl
    have hunknown : b.filterInput? base.text = none := by
      rw [filterInput?, Members.get?_eq_none.mpr hnew, Option.map_none]
    have hunowned : Members.get? b.filterOwners (b.newFilterName base.text) = none :=
      Members.get?_eq_none.mpr fun hmem => hfree ((htidy.owners _).mp hmem)
    intro text name
    show (Members.get? (b.filterNames ++ _) text).map Prod.snd = some name ↔
      Members.get? (Members.put _ _ _) name = some text
    rw [Members.get?_append, Option.map_or]
    by_cases htext : text = base.text
    · subst htext
      rw [show Option.map Prod.snd (Members.get? b.filterNames base.text) = none from hunknown]
      by_cases hname : name = b.newFilterName base.text
      · subst hname
        simp [Members.get?_put_self, Members.get?]
      · rw [Members.get?_put_of_ne _ _ hname, ← hb, hunknown]
        simp [Members.get?, Ne.symm hname]
    · have hlast : Members.get? [(base.text, base, b.newFilterName base.text)] text = none := by
        simp [Members.get?, Ne.symm htext]
      rw [hlast, Option.map_none, Option.or_none]
      by_cases hname : name = b.newFilterName base.text
      · subst hname
        rw [Members.get?_put_self]
        refine iff_of_false (fun hknown => ?_) fun hsame => htext (Option.some.inj hsame).symm
        exact hfree (mem_filterInputs_of_filterInput? hknown)
      · rw [Members.get?_put_of_ne _ _ hname]
        exact hb text name

/-- Marks that tell the texts of a book apart tell its names apart. -/
theorem Tidy.nodup_of_marksTell (h : b.Tidy) {texts : List String}
    (hknown : Members.names b.filterNames ⊆ texts) (htell : MarksTell texts) :
    b.filterInputs.Nodup := by
  refine h.nodup_filterInputs.mpr fun x y z hsub hxy hyz hsame => ?_
  have hne : y ≠ z := by
    have htwo : [y, z].Sublist (Members.names b.filterNames) := .trans (by simp) hsub
    simpa using h.bases.sublist htwo
  have hmem : ∀ w ∈ [x, y, z], w ∈ texts := fun w hw => hknown (hsub.subset hw)
  refine htell y (hmem y (by simp)) z (hmem z (by simp)) hne hyz ?_
  exact mark_eq_of_marked (hyz ▸ hsame)

/-! ## A sequence of base types -/

/-- The book after a sequence of base types knows what each of them was told. -/
theorem told_mapBook (b : TypeBook) (bases : List TypeRef) :
    List.Forall₂ (fun base name =>
        (mapBook filterName b bases).2.filterInput? base.text = some name)
      bases (mapBook filterName b bases).1 := by
  induction bases generalizing b with
  | nil => exact .nil
  | cons base bases ih =>
    have hrest : Extends (b.filterName base).2 (mapBook filterName (b.filterName base).2 bases).2 :=
      Sdl.extends_mapBook (fun _ _ _ => extends_filterName) _
    exact .cons (hrest.filterInput? (filterInput?_filterName b base)) (ih _)

theorem mem_names_mapBook (b : TypeBook) (bases : List TypeRef) :
    text ∈ Members.names (mapBook filterName b bases).2.filterNames ↔
      text ∈ Members.names b.filterNames ∨ text ∈ bases.map TypeRef.text := by
  induction bases generalizing b with
  | nil => simp [mapBook]
  | cons base bases ih =>
    show text ∈ Members.names (mapBook filterName (b.filterName base).2 bases).2.filterNames ↔ _
    rw [ih, mem_names_filterName, List.map_cons, List.mem_cons, or_assoc]

theorem tidy_mapBook (h : b.Tidy) (bases : List TypeRef) : (mapBook filterName b bases).2.Tidy :=
  (Sdl.extends_mapBook (fun _ _ _ => extends_filterName) b).tidy h

theorem mapBook_append (b : TypeBook) (before after : List TypeRef) :
    (mapBook filterName b (before ++ after)).2 =
      (mapBook filterName (mapBook filterName b before).2 after).2 := by
  induction before generalizing b with
  | nil => rfl
  | cons base before ih => exact ih (b.filterName base).2

/-- A base type that is new in the sequence is named by those before it. -/
theorem filterInput?_of_new {before after : List TypeRef}
    (hnew : base.text ∉ before.map TypeRef.text) :
    (mapBook filterName {} (before ++ base :: after)).2.filterInput? base.text =
      some (filterNameAfter (before.map TypeRef.text) base.text) := by
  have hknown (text : String) :
      text ∈ Members.names (mapBook filterName {} before).2.filterNames ↔
        text ∈ before.map TypeRef.text :=
    (mem_names_mapBook {} before).trans (or_iff_right (by simp [Members.names]))
  have hplain : plainTypeName base.text ∈
      (Members.names (mapBook filterName {} before).2.filterNames).map plainTypeName ↔
        plainTypeName base.text ∈ (before.map TypeRef.text).map plainTypeName := by
    simp only [List.mem_map (f := plainTypeName), hknown]
  have hafter : Extends ((mapBook filterName {} before).2.filterName base).2
      (mapBook filterName {} (before ++ base :: after)).2 := by
    rw [mapBook_append]
    exact Sdl.extends_mapBook (fun _ _ _ => extends_filterName) _
  refine hafter.filterInput? ((filterInput?_filterName _ _).trans (congrArg some ?_))
  obtain ⟨_, hthere, -⟩ | ⟨-, heq⟩ := filterName_cases (mapBook filterName {} before).2 base
  · exact absurd ((hknown _).mp (Members.mem_names_of_mem (Members.mem_of_get? hthere))) hnew
  · rw [heq]
    refine ((tidy_mapBook tidy_empty before).newFilterName base.text).trans ?_
    rw [filterNameAfter, filterNameAfter, if_congr hplain rfl rfl]

theorem ownersKept_mapBook {texts : List String} (htell : MarksTell texts) (htidy : b.Tidy)
    (hb : b.OwnersKept) (hknown : Members.names b.filterNames ⊆ texts)
    (hbases : bases.map TypeRef.text ⊆ texts) : (mapBook filterName b bases).2.OwnersKept := by
  induction bases generalizing b with
  | nil => exact hb
  | cons base bases ih =>
    obtain ⟨hbase, hbases⟩ := List.cons_subset.mp hbases
    have htidy' : (b.filterName base).2.Tidy := extends_filterName.tidy htidy
    have hknown' : Members.names (b.filterName base).2.filterNames ⊆ texts := by
      intro text htext
      rcases mem_names_filterName.mp htext with htext | rfl
      · exact hknown htext
      · exact hbase
    have hapart := htidy'.nodup_of_marksTell hknown' htell
    exact ih htidy' (ownersKept_filterName htidy hb hapart) hknown' hbases

theorem ownersKept_empty : OwnersKept {} :=
  fun _ _ => iff_of_false nofun nofun

/-- Where every name has one owner, no two base types have one name. -/
theorem OwnersKept.text_eq {text' : String} (h : b.OwnersKept)
    (htext : b.filterInput? text = some name) (htext' : b.filterInput? text' = some name) :
    text = text' :=
  Option.some.inj (((h text name).mp htext).symm.trans ((h text' name).mp htext'))

/-- Whatever base types ask for a filter input, one after the other: each is told the name that the
book has for it in the end, so that the same base type is always told the same. A base type that is
new has the short name if no base type before it has its plain name, and is marked otherwise; no
mark makes a short name, of a base type before or after. If the marks tell base types of one plain
name apart, the two maps of the book undo each other, and different base types are told different
names. -/
theorem filterName_tells (bases : List TypeRef) : ∃ names book,
    mapBook filterName {} bases = (names, book) ∧
    List.Forall₂ (fun base name => book.filterInput? base.text = some name) bases names ∧
    (∀ before base after, bases = before ++ base :: after →
      base.text ∉ before.map TypeRef.text →
        book.filterInput? base.text =
          some (filterNameAfter (before.map TypeRef.text) base.text)) ∧
    (∀ text text', marked (plainTypeName text) text ++ "FieldFilter" ≠
      plainTypeName text' ++ "FieldFilter") ∧
    (MarksTell (bases.map TypeRef.text) → book.OwnersKept ∧
      ∀ base ∈ bases, ∀ base' ∈ bases, base.text ≠ base'.text →
        book.filterInput? base.text ≠ book.filterInput? base'.text) := by
  have htold := told_mapBook {} bases
  refine ⟨_, _, rfl, htold, ?_, marked_ne_short, fun htell => ?_⟩
  · rintro before base after rfl hnew
    exact filterInput?_of_new hnew
  · have hkept : (mapBook filterName {} bases).2.OwnersKept :=
      ownersKept_mapBook htell tidy_empty ownersKept_empty (by simp [Members.names])
        (List.Subset.refl _)
    refine ⟨hkept, fun base hbase base' _ hne hsame => ?_⟩
    obtain ⟨name, -, hname⟩ := Outcome.exists_of_forall₂ htold hbase
    exact hne (hkept.text_eq hname (hsame ▸ hname))

end TypeBook

namespace Lists

/-- Whole numbers, which may be there or not, and lists of them. -/
def numbers : List TypeRef :=
  [.list (.nonNull (.named "Int")), .named "Int", .list (.nonNull (.named "Int")),
    .verbatim "Int!"]

/-- All of them have one plain name; each is told a name of its own, and the list twice the same. -/
theorem filterName_numbers : ∃ names book, mapBook TypeBook.filterName {} numbers = (names, book) ∧
    names = ["IntFieldFilter", "Int_5c89edcaFieldFilter", "IntFieldFilter",
      "Int_0773d7a7FieldFilter"] ∧ book.OwnersKept := by
  obtain ⟨names, book, hrun, -, -, -, htell⟩ := TypeBook.filterName_tells numbers
  refine ⟨names, book, hrun, ?_, (htell (by decide +kernel)).1⟩
  obtain rfl : _ = names := congrArg Prod.fst hrun
  decide +kernel

end Lists

end RelGraph
