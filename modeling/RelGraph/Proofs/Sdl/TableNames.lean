import RelGraph.Proofs.Graphql.Token
/-!
The names that come of the names of tables and columns. All characters of a name made so can stand
in a word, whatever the table and the column are called; and none of the changes makes a digit, or
takes one away, at the start. So the types, root fields, enums and scalars of a table have words for
names precisely where the table's own name does not start with a digit.
-/
namespace RelGraph.Naming

open Graphql.Token (IsWord isWord_iff isWord_append)

variable {c : Char} {cs : List Char} {s table column ending : String}

/-! ## Characters -/

/-- Whether all characters can stand in a word. -/
def AllNameChars (cs : List Char) : Prop := ∀ d ∈ cs, isNameChar d

instance : Decidable (AllNameChars cs) := List.decidableBAll (isNameChar ·) cs

theorem isNameStart_toUpper (c : Char) : isNameStart c.toUpper = isNameStart c := by
  by_cases h : c.isLower
  · have halpha : c.isAlpha = true := by simp [Char.isAlpha, h]
    simp [isNameStart, Char.isAlpha_toUpper_eq_isAlpha, halpha]
  · rw [Char.toUpper_eq_of_not_isLower h]

theorem isNameStart_toLower (c : Char) : isNameStart c.toLower = isNameStart c := by
  rw [← isNameStart_toUpper, Char.toUpper_toLower_eq_toUpper, isNameStart_toUpper]

theorem isNameChar_toUpper (c : Char) : isNameChar c.toUpper = isNameChar c := by
  by_cases h : c.isLower
  · have halpha : c.isAlpha = true := by simp [Char.isAlpha, h]
    simp [isNameChar, Char.isAlphanum, Char.isAlpha_toUpper_eq_isAlpha, halpha]
  · rw [Char.toUpper_eq_of_not_isLower h]

theorem isDigit_of_isNameChar (hc : isNameChar c) (hstart : isNameStart c = false) : c.isDigit := by
  simp only [isNameChar, isNameStart, Char.isAlphanum, Bool.or_eq_true, Bool.or_eq_false_iff] at *
  rcases hc with (halpha | hdigit) | hmark
  · exact absurd halpha (by simp [hstart.1])
  · exact hdigit
  · exact absurd hmark (by simp [hstart.2])

theorem not_isNameStart_of_isDigit (h : c.isDigit) : isNameStart c = false := by
  have hword : c ≠ '_' := by
    rintro rfl
    exact absurd h (by decide)
  simp only [Char.isDigit, Bool.and_eq_true, decide_eq_true_eq, isNameStart, Char.isAlpha,
    Char.isUpper, Char.isLower, Bool.or_eq_false_iff, decide_eq_false_iff_not,
    Bool.and_eq_false_iff, UInt32.le_iff_toNat_le, ge_iff_le, hword, not_false_eq_true,
    and_true] at *
  have hnine : '9'.val.toNat = 57 := rfl
  have hA : 'A'.val.toNat = 65 := rfl
  have ha : 'a'.val.toNat = 97 := rfl
  omega

/-- An underscore stands for a character that no word can hold, and starts a word. -/
theorem isNameStart_ite (c : Char) :
    isNameStart (if isNameChar c then c else '_') ↔ c.isDigit = false := by
  split
  · rename_i hc
    cases hstart : isNameStart c with
    | true =>
      refine iff_of_true rfl (Bool.eq_false_iff.mpr fun hdigit => ?_)
      exact absurd hstart (by simp [not_isNameStart_of_isDigit hdigit])
    | false => simp [isDigit_of_isNameChar hc hstart]
  · rename_i hc
    simp only [isNameChar, Char.isAlphanum, Bool.or_eq_true, not_or] at hc
    simpa [isNameStart] using hc.1.2

theorem allNameChars_safe (s : String) : AllNameChars (safe s) := by
  intro d hd
  obtain ⟨c, -, rfl⟩ := List.mem_map.mp hd
  split
  · assumption
  · decide

theorem AllNameChars.joinWords (h : AllNameChars cs) : AllNameChars (joinWords cs) := by
  fun_induction Naming.joinWords cs with
  | case1 c rest ih =>
    obtain ⟨hc, hrest⟩ := List.forall_mem_cons.mp (List.forall_mem_cons.mp h).2
    exact List.forall_mem_cons.mpr ⟨(isNameChar_toUpper c).trans hc, ih hrest⟩
  | case2 c rest _ ih =>
    obtain ⟨hc, hrest⟩ := List.forall_mem_cons.mp h
    exact List.forall_mem_cons.mpr ⟨hc, ih hrest⟩
  | case3 => exact h

/-! ## Names -/

/-- Whether a text starts with a digit. -/
def StartsWithDigit (s : String) : Prop := s.toList.head?.any Char.isDigit = true

instance : Decidable (StartsWithDigit s) := inferInstanceAs (Decidable (_ = true))

/-- The first character of a text that has one, made safe, and what the others come to. -/
theorem exists_safe_eq (h : s ≠ "") : ∃ c more, safe s = c :: more ∧
    (isNameStart c ↔ ¬ StartsWithDigit s) ∧ AllNameChars (joinWords more) := by
  cases hlist : s.toList with
  | nil => exact absurd (String.toList_eq_nil_iff.mp hlist) h
  | cons c more =>
    have hsafe : safe s = (if isNameChar c then c else '_') ::
        more.map fun c => if isNameChar c then c else '_' := by
      rw [safe, hlist, List.map_cons]
    refine ⟨_, _, hsafe, ?_, ?_⟩
    · rw [isNameStart_ite, StartsWithDigit, hlist]
      simp
    · exact (List.forall_mem_cons.mp (hsafe ▸ allNameChars_safe s)).2 |> AllNameChars.joinWords

theorem allNameChars_typeName (s : String) : AllNameChars (typeName s).toList := by
  rw [typeName, String.toList_ofList]
  have hsafe := allNameChars_safe s
  cases hlist : safe s with
  | nil => exact List.forall_mem_nil _
  | cons c more =>
    obtain ⟨hc, hmore⟩ := List.forall_mem_cons.mp (hlist ▸ hsafe)
    exact List.forall_mem_cons.mpr ⟨(isNameChar_toUpper c).trans hc, AllNameChars.joinWords hmore⟩

theorem typeName_ne (h : s ≠ "") : typeName s ≠ "" := by
  obtain ⟨c, more, hsafe, -⟩ := exists_safe_eq h
  rw [typeName, hsafe, camel, ← String.toList_inj.ne, String.toList_ofList]
  exact List.cons_ne_nil _ _

theorem isWord_typeName (h : table ≠ "") : IsWord (typeName table) ↔ ¬ StartsWithDigit table := by
  obtain ⟨c, more, hsafe, hc, hmore⟩ := exists_safe_eq h
  have hlist : (typeName table).toList = c.toUpper :: joinWords more := by
    rw [typeName, hsafe, camel, String.toList_ofList]
  rw [isWord_iff hlist, isNameStart_toUpper, hc]
  exact and_iff_left hmore

/-- A table with a name has a start for its root fields. -/
theorem exists_fieldStem (h : table ≠ "") : ∃ stem, fieldStem? table = some stem ∧
    fieldStem table = stem ∧ stem ≠ "" ∧ (IsWord stem ↔ ¬ StartsWithDigit table) := by
  obtain ⟨c, more, hsafe, hc, hmore⟩ := exists_safe_eq h
  have hstem : fieldStem? table = some (String.ofList (c.toLower :: joinWords more)) := by
    rw [fieldStem?, hsafe]
  refine ⟨_, hstem, by rw [fieldStem, hstem, Option.getD_some], ?_, ?_⟩
  · rw [← String.toList_inj.ne, String.toList_ofList]
    exact List.cons_ne_nil _ _
  · rw [isWord_iff String.toList_ofList, isNameStart_toLower, hc]
    exact and_iff_left hmore

theorem allNameChars_ending (op : Operation) : AllNameChars op.ending.toList := by
  cases op <;> decide +kernel

theorem isWord_scopedName (h : table ≠ "") (column : String)
    (hending : AllNameChars ending.toList) :
    IsWord (scopedName table column ending) ↔ ¬ StartsWithDigit table := by
  have hcolumn : AllNameChars (typeName column ++ ending).toList := by
    rw [String.toList_append]
    exact List.forall_mem_append.mpr ⟨allNameChars_typeName column, hending⟩
  rw [scopedName, String.append_assoc, isWord_append (typeName_ne h) hcolumn, isWord_typeName h]

/-- Whatever characters the names of a table and a column have, as long as the table has a name: the
table's type, the start of its root fields, each of these, and the enum and the scalars of the
column all have names, and these are words precisely where the table's name does not start with a
digit. -/
theorem isWord_derived_iff (h : table ≠ "") (column : String) : ∃ stem,
    fieldStem? table = some stem ∧
    (IsWord (typeName table) ↔ ¬ StartsWithDigit table) ∧
    (IsWord stem ↔ ¬ StartsWithDigit table) ∧
    (∀ op, rootField table op = stem ++ op.ending ∧
      (IsWord (rootField table op) ↔ ¬ StartsWithDigit table)) ∧
    (IsWord (enumName table column) ↔ ¬ StartsWithDigit table) ∧
    ∀ ending, AllNameChars ending.toList →
      (IsWord (scopedName table column ending) ↔ ¬ StartsWithDigit table) := by
  obtain ⟨stem, hstem, heq, hne, hword⟩ := exists_fieldStem h
  refine ⟨stem, hstem, isWord_typeName h, hword, fun op => ?_, ?_, fun ending hending => ?_⟩
  · have hroot : rootField table op = stem ++ op.ending := by rw [rootField, heq]
    refine ⟨hroot, ?_⟩
    rw [hroot, isWord_append hne (allNameChars_ending op), hword]
  · exact isWord_scopedName h column (by decide +kernel)
  · exact isWord_scopedName h column hending

/-- Names of words run together, in whatever script, as long as no digit comes first. -/
theorem isWord_shopPrices : IsWord (typeName "größe__2024") ∧
    IsWord (scopedName "größe__2024" "2 prices" "Array") := by
  have hne : "größe__2024" ≠ "" := by decide
  obtain ⟨stem, -, htype, -, -, -, hscoped⟩ := isWord_derived_iff hne "2 prices"
  have hstart : ¬ StartsWithDigit "größe__2024" := by decide +kernel
  exact ⟨htype.mpr hstart, (hscoped "Array" (by decide +kernel)).mpr hstart⟩

/-- A table whose name starts with a digit has a type whose name does, which is no word. -/
theorem not_isWord_users : typeName "1users" = "1users" ∧ ¬ IsWord (typeName "1users") := by
  have hname : typeName "1users" = "1users" := by rfl
  refine ⟨hname, ?_⟩
  rintro ⟨c, more, hlist, hc, -⟩
  rw [hname] at hlist
  cases hlist
  exact absurd hc (by decide)

end RelGraph.Naming
