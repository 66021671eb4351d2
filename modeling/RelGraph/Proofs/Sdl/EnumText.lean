import RelGraph.Proofs.Sdl.EnumNames
import RelGraph.Proofs.Graphql.Reader
import RelGraph.Graphql.Schema
/-!
Enums read back from their text. Where all names of an enum's values are words, its text defines a
choice with just these names, and each of them can be given the value that it stands for. A name that
a line break ends is read without it, and what is behind the break as a name of its own, so that the
text is read as other names, or refused.
-/
namespace RelGraph

open Graphql Graphql.Token Naming

variable {s name : String} {names words : List String}

/-! ## Texts of enums -/

namespace Sdl

open Reader (valueTokens enumTokens enumRead)

/-- The lines of an enum's values, each with the line break in front of it. -/
def valueLines (values : List String) : List Char :=
  values.flatMap fun v => ['\n', ' ', ' '] ++ v.toList

theorem toList_intercalate_lines (hne : names ≠ []) :
    '\n' :: (String.intercalate "\n" (names.map ("  " ++ ·))).toList = valueLines names := by
  induction names with
  | nil => exact absurd rfl hne
  | cons v names ih =>
    cases names with
    | nil => simp [valueLines]
    | cons w names =>
      have hothers := ih (List.cons_ne_nil w names)
      rw [List.map_cons, List.map_cons, String.intercalate_cons_cons, ← List.map_cons]
      simpa [valueLines] using hothers

/-- What stands behind the opening brace of an enum. -/
def enumBody (values : List String) : List Char := valueLines values ++ ['\n', '\x7d']

theorem enum_text (hne : names ≠ []) : (Definition.enum name names).text =
    String.ofList ([] ++ ("enum".toList ++
      ([' '] ++ (name.toList ++ ([' '] ++ '\x7b' :: enumBody names))))) := by
  have hlist : (Definition.enum name names).text.toList =
      "enum".toList ++ ([' '] ++ (name.toList ++ ([' '] ++ '\x7b' :: enumBody names))) := by
    rw [Definition.text, block, enumBody, ← toList_intercalate_lines hne]
    simp [String.toList_append]
  exact String.ofList_toList.symm.trans (congrArg String.ofList hlist)

theorem endsName_blank (cs : List Char) : EndsName ([' '] ++ cs) := by
  simp [EndsName]
  decide

theorem endsName_break (cs : List Char) : EndsName (['\n'] ++ cs) := by
  simp [EndsName]
  decide

theorem endsName_enumBody (names : List String) : EndsName (enumBody names) := by
  cases names with
  | nil => exact endsName_break ['\x7d']
  | cons v names => exact endsName_break _

/-- What names are read as when they are written on lines of their own: a word is read as it is, and
a line break within a name ends it, so that what is behind the break is read as another. -/
inductive ReadAs : List String → List String → Prop
  | nil : ReadAs [] []
  | word {v : String} {vs ws : List String} (hv : IsWord v) (h : ReadAs vs ws) :
      ReadAs (v :: vs) (v :: ws)
  | broken {v : String} {vs ws : List String} (hv : IsWord v) (h : ReadAs vs ws) :
      ReadAs ((v ++ "\n") :: vs) (v :: ws)
  | parted {v w : String} {vs ws : List String} (hv : IsWord v) (hw : IsWord w)
      (h : ReadAs vs ws) : ReadAs ((v ++ "\n" ++ w) :: vs) (v :: w :: ws)

theorem ReadAs.isWord (h : ReadAs names words) : ∀ w ∈ words, IsWord w := by
  induction h with
  | nil => nofun
  | word hv _ ih | broken hv _ ih => exact List.forall_mem_cons.mpr ⟨hv, ih⟩
  | parted hv hw _ ih =>
    exact List.forall_mem_cons.mpr ⟨hv, List.forall_mem_cons.mpr ⟨hw, ih⟩⟩

theorem readAs_of_isWord (h : ∀ v ∈ names, IsWord v) : ReadAs names names := by
  induction names with
  | nil => exact .nil
  | cons v names ih =>
    rw [List.forall_mem_cons] at h
    exact .word h.1 (ih h.2)

theorem ReadAs.ne_nil (h : ReadAs names words) (hne : names ≠ []) : words ≠ [] := by
  cases h with
  | nil => exact absurd rfl hne
  | word | broken | parted => simp

theorem enumBody_cons (v : String) (names : List String) :
    enumBody (v :: names) = ['\n', ' ', ' '] ++ (v.toList ++ enumBody names) := by
  simp [enumBody, valueLines]

theorem all_isSeparator_append {seps more : List Char} (h : seps.all isSeparator)
    (hmore : more.all isSeparator) : (seps ++ more).all isSeparator := by
  rw [List.all_append, h, hmore]
  rfl

theorem ofText_enumBody (h : ReadAs names words) {seps : List Char} (hseps : seps.all isSeparator) :
    ofText (String.ofList (seps ++ enumBody names)) = valueTokens words [] := by
  -- In front of the lines that are left there is nothing, or the break at which a name has ended.
  induction h generalizing seps with
  | nil =>
    have hbreak := all_isSeparator_append hseps (by decide : ['\n'].all isSeparator)
    have hread := ofText_mark hbreak (by decide : '\x7d' ∈ marks) []
    rw [List.append_assoc] at hread
    exact hread
  | @word v vs ws hv _ ih =>
    have hindent := all_isSeparator_append hseps (by decide : ['\n', ' ', ' '].all isSeparator)
    have hothers := @ih [] (by rfl)
    rw [enumBody_cons, ← List.append_assoc, ofText_word hindent hv (endsName_enumBody vs)]
    exact congrArg _ hothers
  | @broken v vs ws hv _ ih =>
    have hindent := all_isSeparator_append hseps (by decide : ['\n', ' ', ' '].all isSeparator)
    have hothers := @ih ['\n'] (by rfl)
    have htext : (v ++ "\n").toList ++ enumBody vs = v.toList ++ (['\n'] ++ enumBody vs) := by
      simp
    rw [enumBody_cons, htext, ← List.append_assoc, ofText_word hindent hv (endsName_break _)]
    exact congrArg _ hothers
  | @parted v w vs ws hv hw _ ih =>
    have hindent := all_isSeparator_append hseps (by decide : ['\n', ' ', ' '].all isSeparator)
    have hothers := @ih [] (by rfl)
    have htext : (v ++ "\n" ++ w).toList ++ enumBody vs =
        v.toList ++ (['\n'] ++ (w.toList ++ enumBody vs)) := by
      simp
    rw [enumBody_cons, htext, ← List.append_assoc, ofText_word hindent hv (endsName_break _),
      ofText_word (by rfl) hw (endsName_enumBody vs)]
    exact congrArg (fun ts => _ :: _ :: ts) hothers

theorem ofText_enum (hname : IsWord name) (hne : names ≠ []) (h : ReadAs names words) :
    ofText (Definition.enum name names).text = enumTokens name words [] := by
  have hkeyword : IsWord "enum" :=
    ⟨'e', ['n', 'u', 'm'], by rfl, by decide, List.all_eq_true.mp (by decide)⟩
  have hbody : ofText (String.ofList ([] ++ enumBody names)) = valueTokens words [] :=
    ofText_enumBody h (by rfl)
  rw [enum_text hne, ofText_word (by rfl) hkeyword (endsName_blank _),
    ofText_word (by decide) hname (endsName_blank _), ofText_mark (by decide) (by decide)]
  exact congrArg (fun ts => _ :: _ :: _ :: ts) hbody

end Sdl

/-! ## Values that are stored -/

/-- Values that are given in the order of a choice, each under its name, are what the choice stands
for. -/
theorem give_stored (done todo : Members Choice) {stored : Members Value}
    (hnames : Members.names todo = Members.names stored)
    (hnodup : (Members.names (done ++ todo)).Nodup) :
    ∃ given, stored.foldlM (fun acc kv =>
        match Members.get? acc kv.1 with
        | some c => Except.ok (Members.put acc kv.1 { c with stored := kv.2 })
        | none => Attempt.mishap (.keyMissing kv.1)) (done ++ todo) = .ok (done ++ given) ∧
      Members.mapValues Choice.stored given = stored := by
  -- The values before have been given; the name of the next one is the first that is left.
  induction stored generalizing done todo with
  | nil =>
    obtain rfl := List.map_eq_nil_iff.mp hnames
    exact ⟨[], rfl, rfl⟩
  | cons kv stored ih =>
    obtain ⟨key, v⟩ := kv
    obtain ⟨⟨key', c⟩, todo, rfl⟩ := List.exists_cons_of_ne_nil fun hnil : todo = [] => by
      subst hnil
      cases hnames
    obtain ⟨hkey, hothers⟩ := List.cons_eq_cons.mp hnames
    obtain rfl : key' = key := hkey
    have hnew : key' ∉ Members.names done := by
      rw [Members.names, List.map_append, List.map_cons] at hnodup
      have hfirst := (List.nodup_cons.mp (List.nodup_middle.mp hnodup)).1
      exact fun hmem => hfirst (List.mem_append_left _ hmem)
    have hget : Members.get? (done ++ (key', c) :: todo) key' = some c := by
      rw [Members.get?_append, Members.get?_eq_none.mpr hnew]
      simp [Members.get?]
    obtain ⟨given, hgiven, hstored⟩ := ih (done ++ [(key', { c with stored := v })]) todo hothers
      (by simpa [Members.names] using hnodup)
    refine ⟨(key', { c with stored := v }) :: given, ?_, by rw [← hstored]; rfl⟩
    rw [List.foldlM_cons, hget]
    simp [Members.put_append_cons hnew, bind, Except.bind]
    simpa using hgiven

/-- Whether an enum is read back with its values: its text defines a choice of just their names, and
in a schema with this choice they can be given the values that they stand for. -/
def EnumType.IsReadBack (e : EnumType) : Prop :=
  ∃ d cs, Document.ofText e.definition.text = .ok [.type e.name {} d] ∧
    NamedType.ofDefinition e.name d = .choice cs ∧ Members.names cs = Members.names e.values ∧
    ∀ schema : Schema, schema.type? e.name = some (.choice cs) → ∃ schema' given,
      Schema.setChoice e.name schema e.values = .ok schema' ∧
      schema'.type? e.name = some (.choice given) ∧
      Members.mapValues Choice.stored given = e.values

theorem setChoice_eq_ok {schema : Schema} {cs : Members Choice} {stored : Members Value}
    (hnames : Members.names cs = Members.names stored) (hnodup : (Members.names stored).Nodup)
    (h : schema.type? name = some (.choice cs)) : ∃ schema' given,
      Schema.setChoice name schema stored = .ok schema' ∧
      schema'.type? name = some (.choice given) ∧
      Members.mapValues Choice.stored given = stored := by
  obtain ⟨given, hgiven, hstored⟩ := give_stored [] cs hnames (by simpa [hnames] using hnodup)
  refine ⟨{ schema with types := Members.put schema.types name (.choice given) }, given, ?_,
    Members.get?_put_self _ _ _, hstored⟩
  rw [Schema.setChoice, h]
  exact Outcome.bind_of_eq_ok hgiven _

theorem names_ofDefinition (name : String) (words : List String) : ∃ cs,
    NamedType.ofDefinition name (.choice (words.map ({ name := · }))) = .choice cs ∧
      Members.names cs = words := by
  refine ⟨_, rfl, ?_⟩
  simp [Members.names, Function.comp_def]

/-- An enum is read back just when all names of its values are words. -/
theorem isReadBack_iff {e : EnumType} (hname : IsWord e.name) (hne : e.values ≠ [])
    (hnodup : (Members.names e.values).Nodup)
    (hfree : ∀ n ∈ Members.names e.values, n ∉ reservedEnumValues)
    (hread : Sdl.ReadAs (Members.names e.values) words) :
    e.IsReadBack ↔ ∀ n ∈ Members.names e.values, IsWord n := by
  have hsome : Members.names e.values ≠ [] := by simpa [Members.names] using hne
  constructor
  · -- The text is read as words in any case, so that the names have to be these words.
    rintro ⟨d, cs, hdocument, hcs, hnames, -⟩
    have htokens := Sdl.ofText_enum hname hsome hread
    by_cases hreserved : ∃ w ∈ words, w ∈ reservedEnumValues
    · obtain ⟨reason, herror⟩ := Reader.ofText_of_enumTokens_reserved htokens hreserved
      exact absurd (hdocument.symm.trans herror) (by simp)
    · have hwords := Reader.ofText_of_enumTokens htokens (hread.ne_nil hsome)
        fun w hw hmem => hreserved ⟨w, hw, hmem⟩
      have hsame := Except.ok.inj (hdocument.symm.trans hwords)
      obtain rfl : d = .choice (words.map ({ name := · })) := by
        simpa [Reader.enumRead] using hsame
      obtain ⟨cs', hcs', hnames'⟩ := names_ofDefinition e.name words
      obtain rfl : cs = cs' := by
        simpa [hcs] using hcs'
      rw [← hnames, hnames']
      exact hread.isWord
  · intro hwords
    have htokens := Sdl.ofText_enum hname hsome (Sdl.readAs_of_isWord hwords)
    obtain ⟨cs, hcs, hnames⟩ := names_ofDefinition e.name (Members.names e.values)
    exact ⟨_, cs, Reader.ofText_of_enumTokens htokens hsome hfree, hcs, hnames,
      fun schema h => setChoice_eq_ok hnames hnodup h⟩

namespace TypeBook

variable {b : TypeBook} {table column : String}

theorem exists_readAs (h : ∀ n ∈ names, ∃ s index k, n = underscored (enumValueName s index) k) :
    ∃ words, Sdl.ReadAs names words := by
  induction names with
  | nil => exact ⟨[], .nil⟩
  | cons n names ih =>
    rw [List.forall_mem_cons] at h
    obtain ⟨⟨s, index, k, rfl⟩, hothers⟩ := h
    obtain ⟨words, hwords⟩ := ih hothers
    by_cases hbreaks : Breaks s
    · rw [enumValueName_of_breaks hbreaks]
      obtain ⟨w, hw, rfl⟩ := hbreaks
      cases k with
      | zero => exact ⟨w :: words, by rw [underscored_zero]; exact .broken hw hwords⟩
      | succ k =>
        exact ⟨_, .parted hw (isWord_underscores k) hwords⟩
    · have hword := (isWord_underscored (enumValueName_ne s index) k).mpr
        ((isWord_enumValueName s index).mpr hbreaks)
      exact ⟨_, .word hword hwords⟩

/-- The enum for some texts is read back just when no line break ends one of them behind a word. -/
theorem isReadBack_enumValues_iff {texts : List String} (hne : texts ≠ []) (hname : IsWord name) :
    (EnumType.mk name (enumValues (texts.map .text))).IsReadBack ↔ ∀ s ∈ texts, ¬ Breaks s := by
  have hsome : enumValues (texts.map .text) ≠ [] := fun hnone => hne <| by
    simpa [hnone, Members.values] using values_enumValues (texts.map .text)
  have hfree : ∀ n ∈ Members.names (enumValues (texts.map .text)), n ∉ reservedEnumValues :=
    fun n hn => by
      obtain ⟨i, hi, -, hfree, -⟩ := exists_text_of_mem hn
      exact hfree
  obtain ⟨words, hread⟩ := exists_readAs fun n hn => by
    obtain ⟨i, hi, ⟨k, hk⟩, -, -⟩ := exists_text_of_mem hn
    exact ⟨_, _, k, hk⟩
  refine (isReadBack_iff hname hsome (nodup_enumValues _) hfree hread).trans ?_
  constructor
  · intro hwords s hs
    obtain ⟨i, hi, rfl⟩ := List.getElem_of_mem hs
    obtain ⟨n, hn, -, -, hword⟩ := named_enumValues texts i hi
    exact hword.mp (hwords n (List.mem_of_getElem? hn))
  · intro hbreaks n hn
    obtain ⟨i, hi, -, -, hword⟩ := exists_text_of_mem hn
    exact hword.mpr (hbreaks _ (List.getElem_mem hi))

/-- The enum of a column that is not known yet is made of what is stored, and known from then on. -/
theorem registerEnum_eq_of_new (hnew : Members.get? b.enums (enumName table column) = none)
    (stored : List Value) : b.registerEnum table column stored =
      (⟨enumName table column, enumValues stored⟩, { b with
        enums := b.enums.put (enumName table column)
          ⟨enumName table column, enumValues stored⟩ }) := by
  rw [registerEnum, hnew]

/-- The enum that is made for stored texts has a value for each of them, in order. The values have
names of their own: that of a text is the text itself or made of its place, with as few underscores
behind it as keep it apart from the names before it. It is no reserved word; and it is a word, but
for a text that a line break ends behind a word. An enum with some values, and with a word for its
name, is read back with all of them when none is for such a text, and only then. -/
theorem registerEnum_names (hnew : Members.get? b.enums (enumName table column) = none)
    (texts : List String) : ∃ e book,
      b.registerEnum table column (texts.map .text) = (e, book) ∧
      e.name = enumName table column ∧ Members.get? book.enums e.name = some e ∧
      Members.values e.values = texts.map .text ∧ (Members.names e.values).Nodup ∧
      (∀ i (h : i < texts.length), ∃ name, (Members.names e.values)[i]? = some name ∧
        FirstFree ((Members.names e.values).take i) (enumValueName texts[i] i) name ∧
        name ∉ reservedEnumValues ∧ (IsWord name ↔ ¬ Breaks texts[i])) ∧
      (texts ≠ [] → IsWord e.name → (e.IsReadBack ↔ ∀ s ∈ texts, ¬ Breaks s)) := by
  exact ⟨_, _, registerEnum_eq_of_new hnew _, rfl, Members.get?_put_self b.enums _ _,
    values_enumValues _, nodup_enumValues _, named_enumValues texts, isReadBack_enumValues_iff⟩

end TypeBook

namespace TaskStates

/-- The states of tasks, of which some are no names or are taken by others. -/
def states : List String := ["open", "on hold", "Option1", "true"]

/-- The enum of these states gives each a name of its own and is read back. -/
theorem registerEnum_states : ∃ e book,
    ({} : TypeBook).registerEnum "task" "state" (states.map .text) = (e, book) ∧
      Members.names e.values = ["open", "Option1", "Option1_", "Option3"] ∧ e.IsReadBack := by
  have hnew : Members.get? ({} : TypeBook).enums (enumName "task" "state") = none := rfl
  obtain ⟨e, book, he, hname, -, -, -, -, hread⟩ := TypeBook.registerEnum_names hnew states
  have hbreaks : ∀ s ∈ states, s.toList.getLast? ≠ some '\n' := by decide
  have hword : IsWord e.name := by
    rw [hname]
    exact (isName_iff.mp (by decide +kernel)).resolve_right (not_breaks_of_getLast? (by decide))
  refine ⟨e, book, he, ?_, (hread (by decide) hword).mpr fun s hs =>
    not_breaks_of_getLast? (hbreaks s hs)⟩
  obtain rfl : _ = e := congrArg Prod.fst he
  rfl

/-- A state that a line break ends is the name of its value, and is no word. -/
theorem registerEnum_broken : ∃ e book,
    ({} : TypeBook).registerEnum "task" "state" [.text "open\n"] = (e, book) ∧
      Members.names e.values = ["open\n"] ∧ ¬ IsWord "open\n" := by
  refine ⟨_, _, rfl, by rfl, fun hword => not_breaks_of_isWord hword ⟨"open", ?_, by decide⟩⟩
  exact (isName_iff.mp (by decide +kernel)).resolve_right (not_breaks_of_getLast? (by decide))

end TaskStates

end RelGraph
