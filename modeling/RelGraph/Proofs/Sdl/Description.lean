import RelGraph.Sdl.Definition
import RelGraph.Proofs.Graphql.Token
/-!
Descriptions read back. A description is written as a block text in which three quotes in a row get
a backslash in front. Turned back, these are the text again; but the quotes that close the block
text stand right behind the text, and join up with quotes or a backslash at its end.
-/
namespace RelGraph.Sdl

open Graphql Graphql.Token

variable {c : Char} {text rest after tail more : List Char}

/-! ## Escaped texts -/

/-- A quote in front of an escaped text is one of the text, where no three are in a row. -/
theorem quote_of_escapeTripleQuotes (h : escapeTripleQuotes text ++ after = '"' :: more) :
    text = [] ∧ after = '"' :: more ∨
      ∃ rest, text = '"' :: rest ∧ escapeTripleQuotes rest ++ after = more ∧
        ∀ others, rest ≠ '"' :: '"' :: others := by
  rw [escapeTripleQuotes.eq_def] at h
  split at h
  · simp at h
  · rename_i c rest hfew
    rw [List.cons_append] at h
    obtain ⟨rfl, rfl⟩ := List.cons_eq_cons.mp h
    exact .inr ⟨rest, rfl, rfl, fun others heq => hfew others rfl heq⟩
  · exact .inl ⟨rfl, h⟩

/-- Three quotes in a row in front of an escaped text reach behind its end. -/
theorem quotes_of_escapeTripleQuotes
    (h : escapeTripleQuotes text ++ after = '"' :: '"' :: '"' :: more) :
    text = [] ∨ text = ['"'] ∨ text = ['"', '"'] := by
  obtain ⟨rfl, -⟩ | ⟨text, rfl, h, hfew⟩ := quote_of_escapeTripleQuotes h
  · simp
  obtain ⟨rfl, -⟩ | ⟨text, rfl, h, -⟩ := quote_of_escapeTripleQuotes h
  · simp
  obtain ⟨rfl, -⟩ | ⟨text, rfl, -, -⟩ := quote_of_escapeTripleQuotes h
  · simp
  · exact absurd rfl (hfew text)

theorem escapeTripleQuotes_ne_quotes : escapeTripleQuotes text ≠ '"' :: '"' :: '"' :: tail := by
  intro h
  obtain rfl | rfl | rfl := quotes_of_escapeTripleQuotes ((List.append_nil _).trans h) <;>
    simp [escapeTripleQuotes] at h

/-- Turning the escaped triple quotes back undoes the escape. -/
theorem unescapeBlock_escapeTripleQuotes (text : List Char) :
    unescapeBlock (escapeTripleQuotes text) = text := by
  fun_induction escapeTripleQuotes text with
  | case1 rest ih => simp [unescapeBlock, ih]
  | case2 c rest _ ih =>
    rw [unescapeBlock, ih]
    exact fun _ _ h => absurd h escapeTripleQuotes_ne_quotes
  | case3 => rfl

/-! ## Texts that the quotes behind them close -/

/-- How many quotes a text ends with. -/
def quotesAtEnd (text : List Char) : Nat := (text.reverse.takeWhile (· = '"')).length

/-- Whether three quotes behind an escaped text close it: it does not end in a backslash, and the
quotes at its end come in threes. -/
def Closes (text : List Char) : Prop := text.getLast? ≠ some '\\' ∧ 3 ∣ quotesAtEnd text

instance (text : List Char) : Decidable (Closes text) :=
  inferInstanceAs (Decidable (_ ∧ _))

/-- The ends of a text that the quotes behind it join up with. -/
def joiningEnds : List (List Char) := [['"'], ['"', '"'], ['\\'], ['\\', '"'], ['\\', '"', '"']]

theorem quotesAtEnd_of_all (h : ∀ d ∈ text, d = '"') : quotesAtEnd text = text.length := by
  rw [quotesAtEnd, List.takeWhile_eq_self_iff.mpr (by simpa using h), List.length_reverse]

theorem quotesAtEnd_cons (h : ¬ ∀ d ∈ c :: text, d = '"') :
    quotesAtEnd (c :: text) = quotesAtEnd text := by
  rw [quotesAtEnd, List.reverse_cons, List.takeWhile_append]
  split
  · rename_i hall
    have hall : ∀ d ∈ text, d = '"' := by
      have := List.takeWhile_eq_self_iff.mp ((List.takeWhile_prefix _).eq_of_length hall)
      simpa using this
    have hc : c ≠ '"' := fun hc => h (List.forall_mem_cons.mpr ⟨hc, hall⟩)
    simp [hc, quotesAtEnd_of_all hall]
  · rfl

theorem closes_quotes (text : List Char) :
    Closes ('"' :: '"' :: '"' :: text) ↔ Closes text := by
  have hlast : ('"' :: '"' :: '"' :: text).getLast? ≠ some '\\' ↔ text.getLast? ≠ some '\\' := by
    cases text <;> simp
  refine and_congr hlast ?_
  by_cases hall : ∀ d ∈ text, d = '"'
  · rw [quotesAtEnd_of_all hall, quotesAtEnd_of_all (by simpa using hall)]
    simp only [List.length_cons]
    omega
  · have hcons : ∀ front : List Char,
        quotesAtEnd ('"' :: (front ++ text)) = quotesAtEnd (front ++ text) :=
      fun front => quotesAtEnd_cons fun hmore => hall fun d hd => hmore d (by simp [hd])
    have hquotes : quotesAtEnd ('"' :: '"' :: '"' :: text) = quotesAtEnd text :=
      calc quotesAtEnd ('"' :: '"' :: '"' :: text)
          = quotesAtEnd ('"' :: '"' :: text) := hcons ['"', '"']
        _ = quotesAtEnd ('"' :: text) := hcons ['"']
        _ = quotesAtEnd text := hcons []
    rw [hquotes]

/-- A character in front makes no difference to how a text ends, unless little of it is left. -/
theorem closes_cons (hfew : ∀ others, c = '"' → rest ≠ '"' :: '"' :: others)
    (hend : c :: rest ∉ joiningEnds) : Closes (c :: rest) ↔ Closes rest := by
  have hlast : (c :: rest).getLast? ≠ some '\\' ↔ rest.getLast? ≠ some '\\' := by
    cases rest with
    | nil =>
      have hc : c ≠ '\\' := by
        rintro rfl
        simp [joiningEnds] at hend
      simp [hc]
    | cons d rest => simp
  refine and_congr hlast ?_
  rw [quotesAtEnd_cons]
  intro hall
  match rest with
  | [] => simp_all [joiningEnds]
  | [d] => simp_all [joiningEnds]
  | d :: e :: others => exact hfew others (by simp_all) (by simp_all)

theorem not_closes_of_mem : ∀ text ∈ joiningEnds, ¬ Closes text := by decide

theorem readBlock_cons (hfew : ∀ others, c = '"' → rest ≠ '"' :: '"' :: others)
    (hend : c :: rest ∉ joiningEnds) (tail : List Char) :
    readBlock (c :: (escapeTripleQuotes rest ++ '"' :: '"' :: '"' :: tail)) =
      (readBlock (escapeTripleQuotes rest ++ '"' :: '"' :: '"' :: tail)).map
        fun r => (c :: r.1, r.2) := by
  -- A backslash joins up with three quotes behind it, and a quote with two.
  refine readBlock.eq_3 _ _ (fun _ hc h => ?_) (fun _ hc h => ?_)
  · subst hc
    obtain rfl | rfl | rfl := quotes_of_escapeTripleQuotes h <;> simp [joiningEnds] at hend
  · subst hc
    obtain ⟨rfl, -⟩ | ⟨rest, rfl, h, -⟩ := quote_of_escapeTripleQuotes h
    · simp [joiningEnds] at hend
    obtain ⟨rfl, -⟩ | ⟨rest, rfl, h, -⟩ := quote_of_escapeTripleQuotes h
    · simp [joiningEnds] at hend
    · exact hfew _ rfl rfl

/-- The block text of an escaped text ends with it, and is followed by what is written there. -/
theorem readBlock_of_closes (h : Closes text) :
    readBlock (escapeTripleQuotes text ++ '"' :: '"' :: '"' :: tail) =
      some (escapeTripleQuotes text, tail) := by
  fun_induction escapeTripleQuotes text with
  | case1 rest ih =>
    simp [readBlock, ih ((closes_quotes rest).mp h)]
  | case2 c rest hfew ih =>
    have hfew : ∀ others, c = '"' → rest ≠ '"' :: '"' :: others := hfew
    have hend : c :: rest ∉ joiningEnds := fun hmem => not_closes_of_mem _ hmem h
    rw [List.cons_append, readBlock_cons hfew hend, ih ((closes_cons hfew hend).mp h)]
    rfl
  | case3 => rfl

theorem head_of_mem_joiningEnds : ∀ text ∈ joiningEnds,
    (readBlock (escapeTripleQuotes text ++ ['"', '"', '"', '\n'])).all (·.2.head? = some '"') := by
  decide

/-- Of a text that the quotes behind it do not close, a block text either leaves some of them or
goes on. -/
theorem head_of_readBlock (h : ¬ Closes text) :
    (readBlock (escapeTripleQuotes text ++ ['"', '"', '"', '\n'])).all (·.2.head? = some '"') := by
  fun_induction escapeTripleQuotes text with
  | case1 rest ih =>
    simp only [List.cons_append, readBlock, Option.all_map]
    exact ih fun hcloses => h ((closes_quotes rest).mpr hcloses)
  | case2 c rest hfew ih =>
    have hfew : ∀ others, c = '"' → rest ≠ '"' :: '"' :: others := hfew
    by_cases hend : c :: rest ∈ joiningEnds
    · have hhead := head_of_mem_joiningEnds _ hend
      rwa [escapeTripleQuotes] at hhead
      exact hfew
    · rw [List.cons_append, readBlock_cons hfew hend, Option.all_map]
      exact ih fun hcloses => h ((closes_cons hfew hend).mpr hcloses)
  | case3 => exact absurd (by decide) h

/-! ## Written descriptions -/

/-- An indent of spaces. -/
def spaces (n : Nat) : String := String.ofList (List.replicate n ' ')

/-- Whether what is written is one block text of a content and a line break behind it, so that
whatever comes after them is read as if it stood on lines of its own. -/
def IsBlockOf (written content : String) : Prop :=
  ∃ raw, unescapeBlock raw = content.toList ∧ ∀ after : String,
    Token.read ((written ++ after).toList.dropWhile isSeparator) =
      .ok (.block raw, '\n' :: after.toList) ∧
    ofText (written ++ after) = .block raw :: ofText ("\n" ++ after)

variable {s : String}

/-- What is written for a text, from its opening quotes on. -/
def written (text tail : List Char) : List Char :=
  '"' :: '"' :: '"' :: (escapeTripleQuotes text ++ '"' :: '"' :: '"' :: '\n' :: tail)

theorem toList_describe (hs : s ≠ "") (n : Nat) (after : String) :
    (describe s (spaces n) ++ after).toList =
      List.replicate n ' ' ++ written s.toList after.toList := by
  have hquotes : "\"\"\"".toList = ['"', '"', '"'] := by decide
  have hend : "\"\"\"\n".toList = ['"', '"', '"', '\n'] := by decide
  rw [describe, if_neg (by simpa using hs)]
  simp [String.toList_append, written, spaces, hquotes, hend]

theorem isReady_written (text tail : List Char) : IsReady (written text tail) :=
  ⟨'"', _, rfl, by decide, by decide⟩

theorem all_isSeparator_spaces (n : Nat) : (List.replicate n ' ').all isSeparator := by
  rw [List.all_replicate]
  cases n <;> rfl

theorem ofText_describe (hs : s ≠ "") (n : Nat) (after : String) :
    ofText (describe s (spaces n) ++ after) =
      readOn (Token.read (written s.toList after.toList)) := by
  rw [← ofText_append (all_isSeparator_spaces n) (isReady_written s.toList after.toList),
    ← toList_describe hs, String.ofList_toList]

theorem isBlockOf_describe (hs : s ≠ "") (h : Closes s.toList) (n : Nat) :
    IsBlockOf (describe s (spaces n)) s := by
  refine ⟨escapeTripleQuotes s.toList, unescapeBlock_escapeTripleQuotes _, fun after => ?_⟩
  have hread : Token.read (written s.toList after.toList) =
      .ok (.block (escapeTripleQuotes s.toList), '\n' :: after.toList) := by
    rw [written, Token.read, readBlock_of_closes h]
  constructor
  · rw [toList_describe hs, List.dropWhile_append_of_pos
      (List.all_eq_true.mp (all_isSeparator_spaces n))]
    exact hread
  · rw [ofText_describe hs, hread, readOn, String.ofList_cons, String.ofList_toList]
    rfl

theorem ofText_describe_ne (hs : s ≠ "") (h : ¬ Closes s.toList) (n : Nat) (raw : List Char) :
    ofText (describe s (spaces n)) ≠ [.block raw] := by
  have hhead := head_of_readBlock h
  have hwritten := ofText_describe hs n ""
  rw [String.append_empty, written, Token.read, String.toList_empty] at hwritten
  rw [hwritten]
  cases hread : readBlock (escapeTripleQuotes s.toList ++ ['"', '"', '"', '\n']) with
  | none => simp [readOn]
  | some r =>
    obtain ⟨raw', rest⟩ := r
    rw [hread] at hhead
    obtain ⟨rest, rfl⟩ := List.head?_eq_some_iff.mp (of_decide_eq_true hhead)
    have hrest : ofText (String.ofList ([] ++ '"' :: rest)) = readOn (Token.read ('"' :: rest)) :=
      ofText_append (by rfl) ⟨'"', rest, rfl, by decide, by decide⟩
    intro hone
    exact readOn_ne_nil _ (hrest ▸ (List.cons_eq_cons.mp hone).2)

/-- One block text is one token when nothing comes behind it. -/
theorem not_isBlockOf {written : String} (h : ∀ raw, ofText written ≠ [.block raw]) :
    ¬ IsBlockOf written s := by
  rintro ⟨raw, -, hread⟩
  have hone := (hread "").2
  rw [String.append_empty] at hone
  exact h raw (hone.trans (by rfl))

/-- A description is one block text with the text as its content exactly when the quotes behind the
text close it. When the text ends in a backslash, or in quotes that do not come in threes, what is
written is no block text, or more than one. -/
theorem describe_isBlockOf_iff (hs : s ≠ "") (n : Nat) :
    (IsBlockOf (describe s (spaces n)) s ↔ Closes s.toList) ∧
    (¬ Closes s.toList → ∀ raw, ofText (describe s (spaces n)) ≠ [.block raw]) := by
  refine ⟨⟨fun h => ?_, fun h => isBlockOf_describe hs h n⟩, fun h => ofText_describe_ne hs h n⟩
  by_contra hopen
  exact not_isBlockOf (ofText_describe_ne hs hopen n) h

namespace Descriptions

/-- Quotes and backslashes within a text are no part of how it ends; a quote at its end is. -/
theorem quotes_within_or_at_end :
    IsBlockOf (describe "say \"\"\" or \\ first" (spaces 2)) "say \"\"\" or \\ first" ∧
    ∀ raw, ofText (describe "say \"hi\"" (spaces 0)) ≠ [.block raw] :=
  ⟨(describe_isBlockOf_iff (by decide) 2).1.mpr (by decide),
    (describe_isBlockOf_iff (by decide) 0).2 (by decide)⟩

/-- A backslash at the end makes the quotes that should close the block text part of it. -/
theorem not_isBlockOf_backslash : ¬ IsBlockOf (describe "a\\" (spaces 0)) "a\\" :=
  not_isBlockOf (ofText_describe_ne (by decide) (by decide) 0)

end Descriptions

end RelGraph.Sdl
