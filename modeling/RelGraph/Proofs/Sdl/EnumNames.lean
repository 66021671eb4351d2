import RelGraph.Proofs.Sdl.Enums
import RelGraph.Proofs.Graphql.Token
/-!
The names of an enum's values. A stored text that is a name is the name of its value, any other text
has one made of its place, and underscores keep a name apart from those before it. A text that is
taken for a name although a line break ends it makes a name that is no word; all other names are
words, and none is reserved.
-/
namespace RelGraph

open Graphql.Token (IsWord isWord_iff isWord_append)

variable {s name : String} {taken names : List String} {stored : List Value}

/-! ## Words -/

namespace Naming

theorem isNameChar_of_isWord (h : IsWord s) : ∀ d ∈ s.toList, isNameChar d := by
  obtain ⟨c, more, hlist, hc, hmore⟩ := h
  rw [hlist, List.forall_mem_cons]
  refine ⟨?_, hmore⟩
  simp only [isNameStart, isNameChar, Char.isAlphanum, Bool.or_eq_true] at hc ⊢
  exact hc.imp_left .inl

/-- Whether a text is a word with a line break behind it. -/
def Breaks (s : String) : Prop := ∃ w, IsWord w ∧ s = w ++ "\n"

theorem not_breaks_of_isWord (h : IsWord s) : ¬ Breaks s := by
  rintro ⟨w, -, rfl⟩
  have hbreak := isNameChar_of_isWord h '\n' (by simp)
  exact absurd hbreak (by decide)

theorem not_breaks_of_getLast? (h : s.toList.getLast? ≠ some '\n') : ¬ Breaks s := by
  rintro ⟨w, -, rfl⟩
  exact h (by simp [List.getLast?_append])

/-- What is taken for a name is a word, perhaps with a line break behind it. -/
theorem isName_iff : isName s ↔ IsWord s ∨ Breaks s := by
  have hbreak : isNameChar '\n' = false := by decide
  constructor
  · intro h
    rw [isName] at h
    split at h
    · cases h
    · rename_i c rest hlist
      obtain ⟨hc, hrest⟩ := Bool.and_eq_true_iff.mp h
      split at hrest
      · rename_i hall
        exact .inl ⟨c, rest, hlist, hc, List.dropWhile_eq_nil_iff.mp hall⟩
      · have hsplit : rest.takeWhile isNameChar ++ ['\n'] = rest := by
          rw [← eq_of_beq hrest, List.takeWhile_append_dropWhile]
        refine .inr ⟨String.ofList (c :: rest.takeWhile isNameChar),
          ⟨c, _, String.toList_ofList, hc, fun d => List.mem_takeWhile_imp⟩, ?_⟩
        rw [← String.toList_inj, hlist, String.toList_append, String.toList_ofList,
          List.cons_append]
        exact congrArg (c :: ·) hsplit.symm
  · rintro (⟨c, more, hlist, hc, hmore⟩ | ⟨w, ⟨c, more, hlist, hc, hmore⟩, rfl⟩)
    · have hall : more.dropWhile isNameChar = [] := List.dropWhile_eq_nil_iff.mpr hmore
      simp [isName, hlist, hc, hall]
    · have hall : (more ++ ['\n']).dropWhile isNameChar = ['\n'] := by
        simp [List.dropWhile_append_of_pos hmore, hbreak]
      simp [isName, String.toList_append, hlist, hc, hall]

/-- A name with some underscores behind it. -/
def underscored (name : String) (k : Nat) : String := name ++ String.ofList (List.replicate k '_')

theorem underscored_zero (name : String) : underscored name 0 = name := by
  simp [underscored]

theorem underscored_succ (name : String) (k : Nat) :
    underscored name (k + 1) = underscored (name ++ "_") k := by
  rw [← String.toList_inj]
  simp [underscored, List.replicate_succ]

theorem isWord_underscored (hne : name ≠ "") (k : Nat) :
    IsWord (underscored name k) ↔ IsWord name := by
  refine isWord_append hne fun d hd => ?_
  rw [String.toList_ofList] at hd
  rw [List.eq_of_mem_replicate hd]
  decide

theorem underscored_not_mem (h : name ∉ reservedEnumValues) (k : Nat) :
    underscored name k ∉ reservedEnumValues := by
  cases k with
  | zero => rwa [underscored_zero]
  | succ k =>
    have hends : ∀ w ∈ reservedEnumValues, w.toList.getLast? ≠ some '_' := by decide
    refine fun hmem => hends _ hmem ?_
    simp [underscored, List.getLast?_append, List.getLast?_replicate]

theorem toList_numbered (index : Nat) : s!"Option{index}".toList =
    'O' :: (['p', 't', 'i', 'o', 'n'] ++ Nat.toDigits 10 index) := by
  simp [String.toList_append]
  rfl

theorem isWord_numbered (index : Nat) : IsWord s!"Option{index}" := by
  refine (isWord_iff (toList_numbered index)).mpr ⟨by decide, fun d hd => ?_⟩
  rcases List.mem_append.mp hd with hd | hd
  · have hword : ['p', 't', 'i', 'o', 'n'].all isNameChar := by decide
    exact List.all_eq_true.mp hword d hd
  · have hdigit := Nat.isDigit_of_mem_toDigits (by decide) (by decide) hd
    simp [isNameChar, Char.isAlphanum, hdigit]

/-- The name for a stored text is that text, when it is taken for a name and not reserved, or one
made of the place of the text. -/
theorem enumValueName_cases (stored : String) (index : Nat) :
    (isName stored ∧ stored ∉ reservedEnumValues ∧ enumValueName stored index = stored) ∨
      ((isName stored → stored ∈ reservedEnumValues) ∧
        enumValueName stored index = s!"Option{index}") := by
  rw [enumValueName]
  split
  · rename_i h
    obtain ⟨hname, hfree⟩ := Bool.and_eq_true_iff.mp h
    exact .inl ⟨hname, by simpa using hfree, rfl⟩
  · rename_i h
    refine .inr ⟨fun hname => ?_, rfl⟩
    simpa [hname] using h

theorem isName_of_mem_reservedEnumValues : ∀ w ∈ reservedEnumValues, isName w := by
  decide +kernel

theorem isWord_of_mem_reservedEnumValues (h : s ∈ reservedEnumValues) : IsWord s := by
  have hends : ∀ w ∈ reservedEnumValues, w.toList.getLast? ≠ some '\n' := by decide
  exact (isName_iff.mp (isName_of_mem_reservedEnumValues s h)).resolve_right
    (not_breaks_of_getLast? (hends s h))

theorem numbered_not_mem (index : Nat) : s!"Option{index}" ∉ reservedEnumValues := by
  have hstart : ∀ w ∈ reservedEnumValues, w.toList.head? ≠ some 'O' := by decide
  exact fun hmem => hstart _ hmem (by rw [toList_numbered, List.head?_cons])

theorem enumValueName_not_mem (stored : String) (index : Nat) :
    enumValueName stored index ∉ reservedEnumValues := by
  obtain ⟨-, hfree, heq⟩ | ⟨-, heq⟩ := enumValueName_cases stored index
  · rwa [heq]
  · rw [heq]
    exact numbered_not_mem index

theorem enumValueName_ne (stored : String) (index : Nat) : enumValueName stored index ≠ "" := by
  obtain ⟨hname, -, heq⟩ | ⟨-, heq⟩ := enumValueName_cases stored index
  · rw [heq]
    rintro rfl
    exact absurd hname (by decide)
  · rw [heq, ← String.toList_inj.ne, toList_numbered]
    simp

/-- The name for a stored text is a word but for a text that a line break ends behind a word. -/
theorem isWord_enumValueName (stored : String) (index : Nat) :
    IsWord (enumValueName stored index) ↔ ¬ Breaks stored := by
  obtain ⟨hname, -, heq⟩ | ⟨hreserved, heq⟩ := enumValueName_cases stored index
  · rw [heq]
    exact ⟨not_breaks_of_isWord, (isName_iff.mp hname).resolve_right⟩
  · rw [heq]
    refine iff_of_true (isWord_numbered index) fun hbreaks => ?_
    have hword := isWord_of_mem_reservedEnumValues (hreserved (isName_iff.mpr (.inr hbreaks)))
    exact not_breaks_of_isWord hword hbreaks

theorem enumValueName_of_breaks {stored : String} (h : Breaks stored) (index : Nat) :
    enumValueName stored index = stored := by
  obtain ⟨-, -, heq⟩ | ⟨-, heq⟩ := enumValueName_cases stored index
  · exact heq
  · exact absurd h ((isWord_enumValueName stored index).mp (heq ▸ isWord_numbered index))

theorem isWord_underscores (k : Nat) : IsWord (String.ofList (List.replicate (k + 1) '_')) := by
  refine ⟨'_', List.replicate k '_', by simp [List.replicate_succ], by decide, fun d hd => ?_⟩
  rw [List.eq_of_mem_replicate hd]
  decide

end Naming

open Naming

/-! ## Names kept apart -/

namespace TypeBook

/-- Whether a name is a given one with as few underscores behind it as make it no taken name. -/
def FirstFree (taken : List String) (base name : String) : Prop :=
  ∃ k, name = underscored base k ∧ name ∉ taken ∧ ∀ j < k, underscored base j ∈ taken

theorem FirstFree.not_mem {base : String} (h : FirstFree taken base name) : name ∉ taken := by
  obtain ⟨_, -, hnew, -⟩ := h
  exact hnew

theorem freshName_eq_underscored (taken : List String) (fuel : Nat) (base : String) :
    ∃ k, freshName taken fuel base = underscored base k ∧ ∀ j < k, underscored base j ∈ taken := by
  -- A round adds an underscore only to a name that it has found taken.
  induction fuel generalizing base with
  | zero => exact ⟨0, (underscored_zero base).symm, nofun⟩
  | succ fuel ih =>
    rw [freshName]
    split
    · rename_i htaken
      obtain ⟨k, heq, hall⟩ := ih (base ++ "_")
      refine ⟨k + 1, by rw [heq, underscored_succ], fun j hj => ?_⟩
      cases j with
      | zero => simpa [underscored_zero] using htaken
      | succ j => exact underscored_succ base j ▸ hall j (Nat.lt_of_succ_lt_succ hj)
    · exact ⟨0, (underscored_zero base).symm, nofun⟩

theorem firstFree_freshName {base : String} {fuel : Nat}
    (h : taken.countP (base.length ≤ ·.length) < fuel) :
    FirstFree taken base (freshName taken fuel base) := by
  obtain ⟨k, heq, hall⟩ := freshName_eq_underscored taken fuel base
  exact ⟨k, heq, freshName_not_mem h, hall⟩

/-- One more value has the first free name behind those of the values before it. -/
theorem enumValues_concat (stored : List Value) (v : Value) : ∃ name,
    FirstFree (Members.names (enumValues stored)) (enumValueName v.display stored.length) name ∧
      enumValues (stored ++ [v]) = enumValues stored ++ [(name, v)] := by
  have hcount : (Members.names (enumValues stored)).countP
      ((enumValueName v.display stored.length).length ≤ ·.length) <
        (enumValues stored).length + 1 := by
    refine Nat.lt_succ_of_le ?_
    simpa [Members.names] using List.countP_le_length (l := Members.names (enumValues stored))
  have hfree := firstFree_freshName hcount
  refine ⟨_, hfree, ?_⟩
  rw [← Members.put_of_not_mem hfree.not_mem, enumValues, List.length_append, List.length_singleton,
    List.range_succ, List.zip_append (by simp), List.foldl_append]
  rfl

theorem length_names_enumValues (stored : List Value) :
    (Members.names (enumValues stored)).length = stored.length :=
  calc (Members.names (enumValues stored)).length
      = (Members.values (enumValues stored)).length := by simp [Members.names, Members.values]
    _ = stored.length := by rw [values_enumValues]

/-- Every value has the first free name among those that are made for it, behind the names of the
values before it. -/
theorem firstFree_enumValues (stored : List Value) : ∀ i (h : i < stored.length),
    ∃ name, (Members.names (enumValues stored))[i]? = some name ∧
      FirstFree ((Members.names (enumValues stored)).take i)
        (enumValueName stored[i].display i) name := by
  -- From the end: one more value leaves the names before it as they are.
  induction stored using List.reverseRecOn with
  | nil => nofun
  | append_singleton stored v ih =>
    intro i h
    obtain ⟨name, hfree, heq⟩ := enumValues_concat stored v
    have hnames : Members.names (enumValues (stored ++ [v])) =
        Members.names (enumValues stored) ++ [name] := by
      rw [heq, Members.names, List.map_append]
      rfl
    have hlength := length_names_enumValues stored
    rw [hnames]
    by_cases hi : i < stored.length
    · obtain ⟨name', hname', hfree'⟩ := ih i hi
      refine ⟨name', ?_, ?_⟩
      · rw [List.getElem?_append_left (hlength ▸ hi), hname']
      · rw [List.take_append_of_le_length (by omega), List.getElem_append_left hi]
        exact hfree'
    · obtain rfl : i = stored.length := by
        simp at h
        omega
      refine ⟨name, ?_, ?_⟩
      · rw [← hlength, List.getElem?_concat_length]
      · simpa [← hlength] using hfree

/-- The name for a stored text is the first free one among those made for it. It is not reserved,
and it is a word but for a text that a line break ends behind a word. -/
theorem named_enumValues (texts : List String) : ∀ i (h : i < texts.length), ∃ name,
    (Members.names (enumValues (texts.map .text)))[i]? = some name ∧
      FirstFree ((Members.names (enumValues (texts.map .text))).take i)
        (enumValueName texts[i] i) name ∧
      name ∉ reservedEnumValues ∧ (IsWord name ↔ ¬ Breaks texts[i]) := by
  intro i h
  obtain ⟨name, hname, hfree⟩ := firstFree_enumValues (texts.map Value.text) i (by simpa using h)
  rw [List.getElem_map] at hfree
  refine ⟨name, hname, hfree, ?_⟩
  obtain ⟨k, rfl, -⟩ := hfree
  exact ⟨underscored_not_mem (enumValueName_not_mem _ _) k,
    (isWord_underscored (enumValueName_ne _ _) k).trans (isWord_enumValueName _ _)⟩

/-- Every name is that of a stored text. -/
theorem exists_text_of_mem {texts : List String} {n : String}
    (hn : n ∈ Members.names (enumValues (texts.map .text))) : ∃ i, ∃ h : i < texts.length,
      (∃ k, n = underscored (enumValueName texts[i] i) k) ∧ n ∉ reservedEnumValues ∧
      (IsWord n ↔ ¬ Breaks texts[i]) := by
  obtain ⟨i, hi, rfl⟩ := List.getElem_of_mem hn
  have hlength : i < texts.length := by
    simpa [length_names_enumValues] using hi
  obtain ⟨name, hname, ⟨k, hk, -⟩, hfree, hword⟩ := named_enumValues texts i hlength
  rw [List.getElem?_eq_getElem hi] at hname
  rw [Option.some.inj hname]
  exact ⟨i, hlength, ⟨k, hk⟩, hfree, hword⟩

end TypeBook

end RelGraph
