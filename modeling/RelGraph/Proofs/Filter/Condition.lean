import RelGraph.Proofs.Fetch.Lookups
import RelGraph.Proofs.Filter.Rejection
import RelGraph.Sdl.Assembly
/-!
Which filters can be stated as conditions. A filter in levels is refused for an offence, or compiled
to a predicate. The condition that a statement makes of the predicate is there unless an entry that
is given orders the values of its column by `true`, which columns are compared with by equality
only, or lists rows of values that do not fit together. A filter that is not compiled is refused as
an invalid argument, but for an operand that asks for more bytes than there can be.
-/
namespace RelGraph

open Outcome

/-! ## Predicates -/

namespace Sql.Condition

variable {t : Table}

mutual

/-- No comparison of a condition is refused. -/
theorem not_refuses_of_ofPredicate {c : Condition} {f : Failure} (p : Predicate)
    (h : ofPredicate t p = .ok c) : ¬ Refuses t p f := by
  match p with
  | .compare name op value =>
    rintro ⟨q, hq, column, hcolumn, hrefused⟩
    obtain rfl := List.mem_singleton.mp hq
    rw [ofPredicate, bind_of_eq_ok (Table.column_eq_ok.mpr hcolumn)] at h
    rcases hrefused with ⟨hadmits, -⟩ | hoperand
    · rw [if_neg (by simp [hadmits])] at h
      cases h
    · split at h
      · rw [hoperand] at h
        cases h
      · cases h
  | .all items | .any items =>
    rw [ofPredicate] at h
    obtain ⟨cs, hcs, -⟩ := bind_eq_ok.mp h
    exact not_refuses_of_ofPredicates items hcs

theorem not_refuses_of_ofPredicates {cs : List Condition} {f : Failure} (ps : List Predicate)
    (h : ofPredicates t ps = .ok cs) : ¬ Refuses t (.all ps) f := by
  match ps with
  | [] =>
    rintro ⟨q, hq, -⟩
    cases hq
  | p :: rest =>
    rw [ofPredicates] at h
    obtain ⟨c, hc, h⟩ := bind_eq_ok.mp h
    obtain ⟨cs, hcs, -⟩ := bind_eq_ok.mp h
    rintro ⟨q, hq, hrefused⟩
    rcases List.mem_append.mp hq with hq | hq
    · exact not_refuses_of_ofPredicate p hc ⟨q, hq, hrefused⟩
    · exact not_refuses_of_ofPredicates rest hcs ⟨q, hq, hrefused⟩

end

/-- A condition is stated just when none of its comparisons is refused. -/
theorem ofPredicate_isOk_iff {p : Predicate} (hp : p.Within t) :
    (∃ c, ofPredicate t p = .ok c) ↔ ∀ f, ¬ Refuses t p f := by
  constructor
  · rintro ⟨c, hc⟩ f
    exact not_refuses_of_ofPredicate p hc
  · intro hnone
    cases h : ofPredicate t p with
    | ok c => exact ⟨c, rfl⟩
    | error f => exact absurd (refuses_of_ofPredicate p hp h) (hnone f)

end Sql.Condition

/-! ## What is given -/

namespace Given

variable {g : Given} {v : Value}

/-- An entry orders the values of a column by `true`. -/
def OrdersByTrue (g : Given) : Prop :=
  g.operator ∈ [.lt, .lte, .gt, .gte] ∧ g.operand = .bool true ∧ g.column.kind ≠ .buffer

/-- The rows of values that an entry lists, if it lists such, can be listed in a statement. -/
def ListsRows (g : Given) : Prop :=
  ∀ items, g.value? = some (.tuple items) → g.operator.takesList = true →
    Sql.listsRows g.column items = true → ∃ rows, Sql.Condition.listedRows items = .ok rows

/-- What an entry gives for a column of bytes cannot be read, for the number of them. -/
def Overflows (g : Given) (m : Mishap) : Prop :=
  g.column.kind = .buffer ∧ m.isAboutInput = false ∧
    ∃ w ∈ Offence.coerced g.operator g.operand, Conversion.readValue g.column w = .error m

theorem value?_eq_bool_iff {b : Bool} : g.value? = some (.bool b) ↔
    (g.operator.asksForNull = false ∧ g.operator.takesList = false ∧
      g.operator.takesPattern = false) ∧ g.operand = .bool b ∧ g.column.kind ≠ .buffer := by
  rw [← Conversion.readValue_eq_bool_iff]
  simp only [Given.value?]
  split
  · simp_all
  split
  · simp_all
  split
  · simp_all
  · cases Conversion.readValue g.column g.operand <;> simp_all [Except.toOption]

theorem takesList_of_value? (hlist : g.operator.takesList = true) (hv : g.value? = some v) :
    ∃ items, v = .tuple items := by
  simp only [Given.value?, (Operator.of_takesList hlist).1, hlist] at hv
  obtain ⟨items, -, rfl⟩ := Option.map_eq_some_iff.mp hv
  exact ⟨items, rfl⟩

/-- What an entry compares is refused as a truth value just when it orders by `true`. -/
theorem admits_eq_false_iff (hgiven : isGiven g.operand = true) (hv : g.value? = some v) :
    Sql.Condition.admits g.operator v = false ↔ g.OrdersByTrue := by
  constructor
  · intro hadmits
    cases v with
    | bool b =>
      obtain ⟨⟨hnull, hlist, hpattern⟩, hoperand, hkind⟩ := value?_eq_bool_iff.mp hv
      refine ⟨?_, ?_, hkind⟩
      · cases hop : g.operator <;> simp_all [Sql.Condition.admits, Operator.asksForNull,
          Operator.takesList, Operator.takesPattern]
      · cases b with
        | true => exact hoperand
        | false =>
          rw [hoperand] at hgiven
          cases hgiven
    | _ => cases hadmits
  · rintro ⟨hop, hoperand, hkind⟩
    have hplain : g.operator.asksForNull = false ∧ g.operator.takesList = false ∧
        g.operator.takesPattern = false := by
      revert hop
      cases g.operator <;> decide
    have htrue := value?_eq_bool_iff.mpr ⟨hplain, hoperand, hkind⟩
    obtain rfl := Option.some.inj (hv.symm.trans htrue)
    revert hop
    cases g.operator <;> decide

/-- What an entry compares is an operand unless it lists rows that cannot be listed. -/
theorem operand_isOk_iff (hv : g.value? = some v) :
    (∀ f, Sql.Condition.operand g.column g.operator v ≠ .error f) ↔ g.ListsRows := by
  constructor
  · intro hok items hitems hlist hrows
    obtain rfl := Option.some.inj (hv.symm.trans hitems)
    cases hlisted : Sql.Condition.listedRows items with
    | ok rows => exact ⟨rows, rfl⟩
    | error f =>
      refine absurd ?_ (hok f)
      simp [Sql.Condition.operand, Value.items?, hlist, hrows, hlisted]
  · intro hlists f herror
    rw [Sql.Condition.operand] at herror
    split at herror
    · rename_i items hitems
      split at herror
      · rename_i hrows
        obtain ⟨hlist, hrows⟩ := Bool.and_eq_true_iff.mp hrows
        obtain ⟨items', rfl⟩ := takesList_of_value? hlist hv
        obtain rfl := Option.some.inj hitems
        obtain ⟨rows, hlisted⟩ := hlists _ hv hlist hrows
        rw [hlisted] at herror
        cases herror
      · cases herror
    · cases herror

/-- A comparison that an entry asks for is not refused just when the entry neither orders by `true`
nor lists rows that cannot be listed. -/
theorem not_refused_iff {t : Table} {q : String × Operator × Value}
    (hc : t.column? g.column.name = some g.column) (hgiven : isGiven g.operand = true)
    (hq : g.comparison? = some q) :
    (∀ f c, t.column? q.1 = some c →
        ¬ (Sql.Condition.admits q.2.1 q.2.2 = false ∧ f = .mishap .literalComparison ∨
          Sql.Condition.operand c q.2.1 q.2.2 = .error f)) ↔
      ¬ g.OrdersByTrue ∧ g.ListsRows := by
  obtain ⟨v, hv, rfl⟩ := Option.map_eq_some_iff.mp hq
  rw [← admits_eq_false_iff hgiven hv, ← operand_isOk_iff hv]
  constructor
  · intro h
    exact ⟨fun hadmits => h _ _ hc (.inl ⟨hadmits, rfl⟩), fun f herror => h f _ hc (.inr herror)⟩
  · rintro ⟨hadmits, hok⟩ f c hc'
    obtain rfl := Option.some.inj (hc.symm.trans hc')
    rintro (⟨hrefused, -⟩ | herror)
    · exact hadmits hrefused
    · exact hok f herror

end Given

/-! ## What levels give -/

namespace Meaning

variable {under : String → Value → Meaning} {Q : Given → Prop} {ms : Members Value} {v w : Value}
  {g : Given}

theorem ofParts_eq (ms : List (String × Value)) : ofParts under ms = ms.flatMap fun kv =>
    if kv.1 = branchKey then ofBranches under kv.2 else [under kv.1 kv.2] := by
  induction ms with
  | nil => rfl
  | cons kv rest ih =>
    obtain ⟨key, v⟩ := kv
    rw [ofParts, ih, List.flatMap_cons]

theorem mem_given_join {connective : List Store.Truth → Store.Truth} {parts : List Meaning} :
    g ∈ (join connective parts).given ↔ ∃ part ∈ parts, g ∈ part.given :=
  List.mem_flatMap

theorem mem_given_object {part : Meaning} (hpart : part ∈ ofParts under ms) (hg : g ∈ part.given) :
    g ∈ (ofLevel under (.object ms)).given := by
  rw [ofLevel]
  exact mem_given_join.mpr ⟨part, hpart, hg⟩

theorem mem_given_of_others {kv : String × Value} (hkv : kv ∈ Offence.others ms)
    (hg : g ∈ (under kv.1 kv.2).given) : g ∈ (ofLevel under (.object ms)).given := by
  obtain ⟨hmem, hkey⟩ := List.mem_filter.mp hkv
  refine mem_given_object ?_ hg
  rw [ofParts_eq]
  exact List.mem_flatMap.mpr ⟨kv, hmem, by simp [of_decide_eq_true hkey]⟩

theorem mem_given_of_branches (hv : v ∈ Offence.branches ms) (hg : g ∈ (ofLevel under v).given) :
    g ∈ (ofLevel under (.object ms)).given := by
  rw [Offence.branches] at hv
  cases hget : Members.get? ms branchKey with
  | none => simp [hget] at hv
  | some w =>
    cases hitems : w.items? with
    | none => simp [hget, hitems] at hv
    | some items =>
      have hv' : v ∈ items := by simpa [hget, hitems] using hv
      refine mem_given_object ?_ hg
      rw [ofParts_eq]
      refine List.mem_flatMap.mpr ⟨(branchKey, w), Members.mem_of_get? hget, ?_⟩
      rw [if_pos rfl, ofBranches_items hitems]
      exact List.mem_map_of_mem hv'

mutual

theorem forall_ofLevel (hunder : ∀ key w, ∀ g ∈ (under key w).given, Q g) : (v : Value) →
    ∀ g ∈ (ofLevel under v).given, Q g
  | .object ms => by
    intro g hg
    rw [ofLevel] at hg
    obtain ⟨part, hpart, hg⟩ := mem_given_join.mp hg
    exact forall_ofParts hunder ms part hpart g hg
  | .null | .bool _ | .int _ | .float _ | .decimal _ | .text _ | .bytes _ | .date _ | .moment _
  | .time _ | .uuid _ | .list _ | .tuple _ => by
    intro g hg
    rw [ofLevel] at hg
    · exact absurd hg (List.not_mem_nil (a := g))
    all_goals simp

theorem forall_ofParts (hunder : ∀ key w, ∀ g ∈ (under key w).given, Q g) :
    (ms : List (String × Value)) → ∀ part ∈ ofParts under ms, ∀ g ∈ part.given, Q g
  | [] => nofun
  | (key, v) :: rest => by
    rw [ofParts]
    intro part hpart
    rcases List.mem_append.mp hpart with hpart | hpart
    · split at hpart
      · exact forall_ofBranches hunder v part hpart
      · obtain rfl := List.mem_singleton.mp hpart
        exact hunder key v
    · exact forall_ofParts hunder rest part hpart

theorem forall_ofBranches (hunder : ∀ key w, ∀ g ∈ (under key w).given, Q g) : (v : Value) →
    ∀ part ∈ ofBranches under v, ∀ g ∈ part.given, Q g
  | .list items => by
    rw [ofBranches]
    exact forall_ofItems hunder items
  | .tuple items => by
    rw [ofBranches]
    exact forall_ofItems hunder items
  | .null | .bool _ | .int _ | .float _ | .decimal _ | .text _ | .bytes _ | .date _ | .moment _
  | .time _ | .uuid _ | .object _ => by
    intro part hpart
    rw [ofBranches] at hpart
    · exact absurd hpart List.not_mem_nil
    all_goals simp

theorem forall_ofItems (hunder : ∀ key w, ∀ g ∈ (under key w).given, Q g) :
    (items : List Value) → ∀ part ∈ ofItems under items, ∀ g ∈ part.given, Q g
  | [] => nofun
  | v :: rest => by
    rw [ofItems]
    intro part hpart
    rcases List.mem_cons.mp hpart with rfl | hpart
    · exact forall_ofLevel hunder v
    · exact forall_ofItems hunder rest part hpart

end

variable {t : Table}

theorem of_mem_ofOperator {c : Column} {key : String} (hg : g ∈ (ofOperator c key w).given) :
    g.column = c ∧ isGiven g.operand = true := by
  rw [ofOperator] at hg
  split at hg
  · split at hg
    · rename_i hgiven
      obtain rfl := List.mem_singleton.mp hg
      exact ⟨rfl, hgiven⟩
    · cases hg
  · cases hg

/-- What a filter of a table gives is given, for columns of the table. -/
theorem of_mem_ofTable (hg : g ∈ (ofTable t v).given) :
    t.column? g.column.name = some g.column ∧ isGiven g.operand = true := by
  refine forall_ofLevel
    (Q := fun g => t.column? g.column.name = some g.column ∧ isGiven g.operand = true) ?_ v g hg
  intro name w g hg
  rw [ofEntry] at hg
  split at hg
  · rename_i c hc
    obtain ⟨rfl, hgiven⟩ :=
      forall_ofLevel (Q := fun g => g.column = c ∧ isGiven g.operand = true)
        (fun _ _ _ => of_mem_ofOperator) w g hg
    exact ⟨Table.column?_name hc ▸ hc, hgiven⟩
  · cases hg

end Meaning

/-! ## Failures -/

namespace Offence

variable {t : Table} {c : Column} {v : Value} {e : Failure} {fits : Column → String → Value → Prop}

/-- A failure is that of an entry whose operand asks for more bytes than there can be. -/
def IsOverflow (given : List Given) (e : Failure) : Prop :=
  ∃ g ∈ given, ∃ m, e = .mishap m ∧ g.Overflows m

theorem refused_of_inLevel {under : String → Value → Failure → Prop} {f : Fault}
    {under' : String → Value → Meaning} (hbeside : IsRefusal t (.fault f))
    (hunder : ∀ key w e, under key w e → IsRefusal t e ∨ IsOverflow (under' key w).given e)
    (h : InLevel under f v e) : IsRefusal t e ∨ IsOverflow (Meaning.ofLevel under' v).given e := by
  induction h with
  | under hkv hoffends =>
    refine (hunder _ _ _ hoffends).imp_right ?_
    rintro ⟨g, hg, hoverflows⟩
    exact ⟨g, Meaning.mem_given_of_others hkv hg, hoverflows⟩
  | beside => exact .inl hbeside
  | branch hv _ ih =>
    refine ih.imp_right ?_
    rintro ⟨g, hg, hoverflows⟩
    exact ⟨g, Meaning.mem_given_of_branches hv hg, hoverflows⟩

theorem refused_of_inOperand {name : String} (h : InOperand t c name v e) :
    IsRefusal t e ∨ IsOverflow (Meaning.ofOperator c name v).given e := by
  cases h with
  | unknown | empty => exact .inl ⟨_, rfl, rfl, rfl, nofun, nofun⟩
  | @unfit op w m hgiven hop hw hread =>
    by_cases habout : m.isAboutInput = true
    · exact .inl (isRefusal_refusal habout)
    · rw [refusal, if_neg habout]
      have hkind : c.kind = .buffer := by
        by_contra hkind
        exact habout (Conversion.isAboutInput_of_readValue hkind w hread)
      refine .inr ⟨⟨c, op, v⟩, ?_, m, rfl, hkind, by simpa using habout, w, hw, hread⟩
      rw [Meaning.ofOperator, hop]
      dsimp only
      rw [if_pos hgiven]
      exact List.mem_singleton_self _

theorem refused_of_inTable (h : InTable t v e) :
    IsRefusal t e ∨ IsOverflow (Meaning.ofTable t v).given e := by
  refine refused_of_inLevel isRefusal_tableLevel ?_ h
  rintro name w e ⟨c, hc, hcolumn⟩
  rw [Meaning.ofEntry, hc]
  exact refused_of_inLevel isRefusal_columnLevel (fun _ _ _ => refused_of_inOperand) hcolumn

/-- A filter in levels, whatever its operands are, is refused as an invalid argument or compiled; no
other failure is met but that of an operand for a column of bytes which asks for more of them than
there can be. The condition of the predicate that it is compiled to can be stated, for the table or
any alias of it, just when no entry that is given orders the values of a column by `true`, or lists
rows of values that a statement cannot list. -/
theorem ofPredicate_compileWhere_iff (t : Table) (v : Value) (hkeys : v.keysDistinct)
    (h : v = .null ∨ IsTableFilter fits t v) :
    (∀ e, compileWhere t v = .error e →
        IsRefusal t e ∨ IsOverflow (Meaning.ofTable t v).given e) ∧
      ∀ p, compileWhere t v = .ok (some p) →
        ((∃ condition, Sql.Condition.ofPredicate t p = .ok condition) ↔
          ∀ g ∈ (Meaning.ofTable t v).given, ¬ g.OrdersByTrue ∧ g.ListsRows) := by
  refine ⟨fun e he => refused_of_inTable ((judged_table h).refused e he), fun p hp => ?_⟩
  rw [Sql.Condition.ofPredicate_isOk_iff (within_compileWhere hp)]
  have hcompared := (says_table v hkeys hp).comparisons
  constructor
  · intro hnone g hg
    obtain ⟨hc, hgiven⟩ := Meaning.of_mem_ofTable hg
    obtain ⟨q, hq, hcomparison⟩ := exists_of_forall₂ hcompared hg
    exact (Given.not_refused_iff hc hgiven hcomparison).mp fun f c hc' hrefused =>
      hnone f ⟨q, hq, c, hc', hrefused⟩
  · rintro hall f ⟨q, hq, c, hc', hrefused⟩
    obtain ⟨g, hg, hcomparison⟩ := exists_of_forall₂ hcompared.flip hq
    obtain ⟨hc, hgiven⟩ := Meaning.of_mem_ofTable hg
    exact (Given.not_refused_iff hc hgiven hcomparison).mpr (hall g hg) f c hc' hrefused

namespace Tasks

/-- Tasks, each with a title and whether it is done. -/
def table : Table :=
  Direct.Family.table "task" [Direct.Family.column "title" (.text false) true,
    Direct.Family.column "done" .boolean false] []

/-- Tasks whose mark is below `true`. -/
def undone : Value := .object [("done", .object [("lt", .bool true)])]

theorem isTableFilter_undone : IsTableFilter IsOperand table undone := by
  refine .plain rfl fun kv hkv => ?_
  obtain rfl := List.mem_singleton.mp hkv
  rintro c ⟨⟩
  refine .inr (.plain rfl fun kv hkv => ?_)
  obtain rfl := List.mem_singleton.mp hkv
  rintro ⟨⟩

theorem undone_stated_iff :
    (∀ e, compileWhere table undone = .error e →
        IsRefusal table e ∨ IsOverflow (Meaning.ofTable table undone).given e) ∧
      ∀ p, compileWhere table undone = .ok (some p) →
        ((∃ condition, Sql.Condition.ofPredicate table p = .ok condition) ↔
          ∀ g ∈ (Meaning.ofTable table undone).given, ¬ g.OrdersByTrue ∧ g.ListsRows) :=
  ofPredicate_compileWhere_iff table undone (by decide) (.inr isTableFilter_undone)

/-- The inputs of a schema offer to order truth values, and no statement does. -/
theorem undone_not_stated :
    IsTableFilter IsOperand table undone ∧
      (∃ fields, Sdl.filterInput "BooleanFieldFilter" (.named "Boolean") =
        .input "BooleanFieldFilter" fields ∧
        { name := "lt", type := .named "Boolean" } ∈ fields) ∧
      ∃ p, compileWhere table undone = .ok (some p) ∧
        Sql.Condition.ofPredicate table p = .error (.mishap .literalComparison) :=
  ⟨isTableFilter_undone, ⟨_, rfl, by decide⟩, .compare "done" .lt (.bool true), by cbv, by cbv⟩

end Tasks

end Offence

end RelGraph
