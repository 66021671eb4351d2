import Mathlib.Data.List.DropRight
import Mathlib.Logic.Relation
import RelGraph.Typing
import RelGraph.Proofs.Text.Numeral
/-!
Non-null marks. An override of a column's type may end in marks and blanks, in any order. Taking the
last mark off with the blanks before it, again and again, leaves the override without any of them,
and so a column's type never ends in two marks: it is what is left of the override, with one mark
behind it where the column may not be left out.
-/
namespace RelGraph

open Text (isBlank trim trimRight)

/-! ## Texts without blanks and marks at their ends -/

/-- Whether a character may not stand at the end of what is left of an override. -/
def isMarkOrBlank (c : Char) : Bool := c = '!' || isBlank c

/-- Whether a text has no blanks at either end and no mark at its end. -/
structure Unmarked (cs : List Char) : Prop where
  first : ∀ c ∈ cs.head?, isBlank c = false
  last : ∀ c ∈ cs.getLast?, isBlank c = false ∧ c ≠ '!'

section

variable {p : Char → Bool} {cs : List Char}

theorem last_rdropWhile : ∀ c ∈ (cs.rdropWhile p).getLast?, p c = false := by
  intro c hc
  obtain ⟨hne, rfl⟩ := List.mem_getLast?_eq_getLast hc
  simpa using List.rdropWhile_last_not p cs hne

theorem first_dropWhile : ∀ c ∈ (cs.dropWhile p).head?, p c = false := by
  intro c hc
  have hnot := List.head?_dropWhile_not p cs
  rwa [hc] at hnot

theorem first_rdropWhile : ∀ c ∈ (cs.rdropWhile p).head?, c ∈ cs.head? := by
  obtain ⟨rest, hrest⟩ := List.rdropWhile_prefix p cs
  intro c hc
  rw [← hrest]
  exact List.mem_head?_append_of_mem_head? hc

theorem trim_eq (cs : List Char) : trim cs = (cs.dropWhile isBlank).rdropWhile isBlank := rfl

theorem first_trim : ∀ c ∈ (trim cs).head?, isBlank c = false := fun c hc =>
  first_dropWhile c (first_rdropWhile c hc)

theorem last_trim : ∀ c ∈ (trim cs).getLast?, isBlank c = false := last_rdropWhile

/-- Blanks at the end make no difference to what is left without marks and blanks there. -/
theorem rdropWhile_rdropWhile_isBlank (cs : List Char) :
    (cs.rdropWhile isBlank).rdropWhile isMarkOrBlank = cs.rdropWhile isMarkOrBlank := by
  induction cs using List.reverseRecOn with
  | nil => rfl
  | append_singleton cs c ih =>
    by_cases hc : isBlank c
    · rw [List.rdropWhile_concat_pos _ _ _ hc, ih,
        List.rdropWhile_concat_pos _ _ _ (by simp [isMarkOrBlank, hc])]
    · rw [List.rdropWhile_concat_neg _ _ _ hc]

theorem toList_stripNonNull (s : String) :
    (stripNonNull s).toList = (trim s.toList).rdropWhile isMarkOrBlank := by
  rw [trim_eq, rdropWhile_rdropWhile_isBlank, stripNonNull, String.toList_ofList]
  rfl

theorem unmarked_stripNonNull (s : String) : Unmarked (stripNonNull s).toList := by
  rw [toList_stripNonNull]
  refine ⟨fun c hc => ?_, fun c hc => ?_⟩
  · exact first_trim c (first_rdropWhile c hc)
  · have hlast := last_rdropWhile c hc
    simpa [isMarkOrBlank, and_comm] using hlast

theorem rdropWhile_of_last (h : ∀ c ∈ cs.getLast?, isBlank c = false ∧ c ≠ '!') :
    cs.rdropWhile isMarkOrBlank = cs := by
  refine List.rdropWhile_eq_self_iff.mpr fun hne => ?_
  obtain ⟨hblank, hmark⟩ := h _ (List.getLast_mem_getLast? hne)
  simp [isMarkOrBlank, hblank, hmark]

theorem stripNonNull_of_unmarked {s : String} (h : Unmarked s.toList) : stripNonNull s = s := by
  have htrim : trim s.toList = s.toList := Text.trim_of_ends h.first fun c hc => (h.last c hc).1
  rw [← String.toList_inj, toList_stripNonNull, htrim, rdropWhile_of_last h.last]

end

/-! ## Taking marks off one by one -/

/-- A text without the mark at its end and without the blanks before that; none where there is no
mark. -/
def peel? (cs : List Char) : Option (List Char) :=
  if cs.getLast? = some '!' then some (trimRight isBlank cs.dropLast) else none

section

variable {cs cs' : List Char}

theorem peel?_eq_some (h : peel? cs = some cs') :
    ∃ before, cs = before ++ ['!'] ∧ cs' = before.rdropWhile isBlank := by
  rw [peel?] at h
  split at h
  · rename_i hlast
    exact ⟨cs.dropLast, (List.dropLast_append_getLast? '!' hlast).symm, (Option.some.inj h).symm⟩
  · cases h

theorem peel?_eq_none : peel? cs = none ↔ ∀ c ∈ cs.getLast?, c ≠ '!' := by
  rw [peel?]
  split
  · rename_i hlast
    simp [hlast]
  · rename_i hlast
    exact ⟨fun _ c hc heq => hlast (heq ▸ hc), fun _ => rfl⟩

theorem length_lt_of_peel? (h : peel? cs = some cs') : cs'.length < cs.length := by
  obtain ⟨before, rfl, rfl⟩ := peel?_eq_some h
  have hstart := List.rdropWhile_prefix isBlank before
  have hle := hstart.length_le
  rw [List.length_append, List.length_singleton]
  omega

/-- A round makes no difference to what is left without marks and blanks at the end. -/
theorem rdropWhile_of_peel? (h : peel? cs = some cs') :
    cs'.rdropWhile isMarkOrBlank = cs.rdropWhile isMarkOrBlank := by
  obtain ⟨before, rfl, rfl⟩ := peel?_eq_some h
  rw [rdropWhile_rdropWhile_isBlank, List.rdropWhile_concat_pos _ _ _ (by rfl)]

/-- A round leaves no blank at the end. -/
theorem last_of_peel? (h : peel? cs = some cs') : ∀ c ∈ cs'.getLast?, isBlank c = false := by
  obtain ⟨before, -, rfl⟩ := peel?_eq_some h
  exact last_rdropWhile

/-- The rounds come to an end, and what they leave has neither marks nor blanks at its end. -/
theorem rounds_of_last (hlast : ∀ c ∈ cs.getLast?, isBlank c = false) :
    Relation.ReflTransGen (fun cs cs' => peel? cs = some cs') cs (cs.rdropWhile isMarkOrBlank) := by
  -- A round makes the text shorter and leaves no blank at its end, as the next one needs.
  induction hn : cs.length using Nat.strongRecOn generalizing cs with
  | ind n ih =>
    cases hpeel : peel? cs with
    | none =>
      rw [rdropWhile_of_last fun c hc => ⟨hlast c hc, peel?_eq_none.mp hpeel c hc⟩]
    | some rest =>
      rw [← rdropWhile_of_peel? hpeel]
      exact .head hpeel (ih _ (hn ▸ length_lt_of_peel? hpeel) (last_of_peel? hpeel) rfl)

end

/-- What is left of a text without blanks around it once no round can take another mark off: the
text up to marks and blanks at its end. -/
structure StrippedOf (s stripped : String) : Prop where
  rounds : Relation.ReflTransGen (fun cs cs' => peel? cs = some cs') (trim s.toList)
    stripped.toList
  finished : peel? stripped.toList = none
  unmarked : Unmarked stripped.toList
  cut : ∃ rest, trim s.toList = stripped.toList ++ rest ∧ ∀ c ∈ rest, c = '!' ∨ isBlank c = true

theorem strippedOf_stripNonNull (s : String) : StrippedOf s (stripNonNull s) where
  rounds := by
    rw [toList_stripNonNull]
    exact rounds_of_last last_trim
  finished := peel?_eq_none.mpr fun c hc => ((unmarked_stripNonNull s).last c hc).2
  unmarked := unmarked_stripNonNull s
  cut := by
    refine ⟨(trim s.toList).rtakeWhile isMarkOrBlank, ?_, fun c hc => ?_⟩
    · rw [toList_stripNonNull, List.rdropWhile_append_rtakeWhile]
    · simpa [isMarkOrBlank] using List.mem_rtakeWhile_imp hc

/-! ## The types of columns with overrides -/

/-- Whether a text overrides the type of a column: the column's own, or, where that is not given,
one that the column has adopted. The empty text overrides nothing. -/
inductive Overrides (b : TypeBook) (table : String) (c : Column) (override : String) : Prop
  | own (h : c.typeOverride = .text override) (hne : override ≠ "")
  | adopted (hown : c.typeOverride.truthy = false)
      (h : b.adoptedType? table c.name = some override) (hne : override ≠ "")

/-- The position where nothing has to be given, or else one where defaults count or do not. -/
def TypePosition.ofOptions (forceNullable relaxDefaults : Bool) : TypePosition :=
  if forceNullable then .updateInput else if relaxDefaults then .insertInput else .output

/-- The text of a column's type: whether nothing has to be given, and whether a default counts. -/
def typeText (b : TypeBook) (table : String) (c : Column) (forceNullable relaxDefaults : Bool) :
    String :=
  (columnType b table c (.ofOptions forceNullable relaxDefaults)).1.text

section

variable {b : TypeBook} {table override : String} {c : Column}

theorem isOptional_ofOptions (c : Column) (forceNullable relaxDefaults : Bool) :
    c.isOptional (.ofOptions forceNullable relaxDefaults) =
      (forceNullable || c.nullable || relaxDefaults && c.hasDefault) := by
  cases forceNullable <;> cases relaxDefaults <;> simp [TypePosition.ofOptions, Column.isOptional]

theorem baseType_of_overrides (h : Overrides b table c override) :
    baseType b table c = (.verbatim (stripNonNull override), b) := by
  have hoverride : (givenText? c.typeOverride).or (b.adoptedType? table c.name) =
      some override := by
    cases h with
    | own h hne => simp [h, givenText?, Value.truthy, Value.display, hne]
    | adopted hown h hne => simp [hown, h, givenText?]
  rw [baseType, hoverride]

theorem typeText_of_overrides (h : Overrides b table c override)
    (forceNullable relaxDefaults : Bool) : typeText b table c forceNullable relaxDefaults =
      stripNonNull override ++
        if forceNullable || c.nullable || relaxDefaults && c.hasDefault then "" else "!" := by
  rw [typeText, columnType, baseType_of_overrides h, isOptional_ofOptions]
  dsimp only
  split
  · exact String.append_empty.symm
  · rfl

/-- Whether a text that ends in a mark has neither another mark nor a blank before it. -/
def MarkedOnce (text : String) : Prop :=
  ∀ before, text.toList = before ++ ['!'] → ∀ c ∈ before.getLast?, isBlank c = false ∧ c ≠ '!'

theorem markedOnce_of_unmarked {s : String} (h : Unmarked s.toList) : MarkedOnce s := by
  intro before hbefore
  have hlast := h.last '!' (by simp [hbefore])
  exact absurd rfl hlast.2

theorem markedOnce_append {s : String} (h : Unmarked s.toList) : MarkedOnce (s ++ "!") := by
  intro before hbefore
  obtain ⟨rfl, -⟩ := List.append_inj' (String.toList_append.symm.trans hbefore) rfl
  exact h.last

theorem markedOnce_of_overrides (h : Overrides b table c override)
    (forceNullable relaxDefaults : Bool) :
    MarkedOnce (typeText b table c forceNullable relaxDefaults) := by
  rw [typeText_of_overrides h]
  split
  · rw [String.append_empty]
    exact markedOnce_of_unmarked (unmarked_stripNonNull override)
  · exact markedOnce_append (unmarked_stripNonNull override)

/-- The empty text overrides nothing. -/
theorem typeText_of_empty (b : TypeBook) (table : String) (c : Column)
    (forceNullable relaxDefaults : Bool) :
    typeText b table { c with typeOverride := .text "" } forceNullable relaxDefaults =
      typeText b table { c with typeOverride := .null } forceNullable relaxDefaults := rfl

/-- Taking marks off comes to an end for every text, and doing it again changes nothing. The type of
a column with an override is what is left of the override, with one mark behind it where the column
may not be left out; the empty text is no override. -/
theorem typeText_marked_once :
    (∀ s, StrippedOf s (stripNonNull s) ∧ stripNonNull (stripNonNull s) = stripNonNull s) ∧
    (∀ b table c override, Overrides b table c override → ∀ forceNullable relaxDefaults,
      typeText b table c forceNullable relaxDefaults = stripNonNull override ++
          (if forceNullable || c.nullable || relaxDefaults && c.hasDefault then "" else "!") ∧
        MarkedOnce (typeText b table c forceNullable relaxDefaults)) ∧
    ∀ b table (c : Column) forceNullable relaxDefaults,
      typeText b table { c with typeOverride := .text "" } forceNullable relaxDefaults =
        typeText b table { c with typeOverride := .null } forceNullable relaxDefaults := by
  refine ⟨fun s => ⟨strippedOf_stripNonNull s, ?_⟩, ?_, typeText_of_empty⟩
  · exact stripNonNull_of_unmarked (unmarked_stripNonNull s)
  · intro b table c override h forceNullable relaxDefaults
    exact ⟨typeText_of_overrides h forceNullable relaxDefaults,
      markedOnce_of_overrides h forceNullable relaxDefaults⟩

end

namespace Prices

/-- A price that has to be given, with an override of its type. -/
def price (override : Value) : Column :=
  { name := "price", kind := .whole, nullable := false, hasDefault := false
    declaration := { key := "price", name := "price", type := .integer, nullable := false,
                     typeOverride := override }
    typeOverride := override }

/-- A book in which the price has adopted an override. -/
def adopting : TypeBook := { adopted := [(("items", "price"), "\tMoney !\n! ")] }

/-- The overrides end in two marks each, one with blanks between them, and the types in one. -/
theorem typeText_price :
    Overrides {} "items" (price (.text "Decimal!!")) "Decimal!!" ∧
    typeText {} "items" (price (.text "Decimal!!")) false true = "Decimal!" ∧
    Overrides adopting "items" (price .null) "\tMoney !\n! " ∧
    typeText adopting "items" (price .null) false false = "Money!" ∧
    MarkedOnce (typeText adopting "items" (price .null) false false) := by
  have hown : Overrides {} "items" (price (.text "Decimal!!")) "Decimal!!" := .own rfl (by decide)
  have hadopted : Overrides adopting "items" (price .null) "\tMoney !\n! " :=
    .adopted rfl rfl (by decide)
  obtain ⟨-, hall, -⟩ := typeText_marked_once
  refine ⟨hown, ?_, hadopted, ?_, (hall _ _ _ _ hadopted false false).2⟩
  · exact (hall _ _ _ _ hown false true).1.trans (by decide)
  · exact (hall _ _ _ _ hadopted false false).1.trans (by decide)

/-- An empty text overrides nothing: the price has the type of its kind, which is neither what is
left of the empty text nor that with a mark. -/
theorem typeText_price_empty : (price (.text "")).typeOverride = .text "" ∧
    ∀ forceNullable relaxDefaults,
      typeText {} "items" (price (.text "")) forceNullable relaxDefaults ≠ stripNonNull "" ∧
      typeText {} "items" (price (.text "")) forceNullable relaxDefaults ≠
        stripNonNull "" ++ "!" := by
  refine ⟨rfl, ?_⟩
  decide

end Prices

end RelGraph
