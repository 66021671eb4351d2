import Mathlib.Data.List.Permutation
import RelGraph.Filter
import RelGraph.Proofs.Fetch.Agreement
/-!
What filters mean, read off the values that callers write. A level is made of parts: the conditions
under its names, in the place of `OR` the branches that are listed there. A row has to meet all
parts of a plain level and any branch of one that lists branches; parts in which nothing is given do
not count. The predicate that a value is compiled to compares what is given, in the order in which
it is written, and is as true of a row as this meaning.
-/
namespace RelGraph

/-! ## Values as callers write them -/

namespace Value

mutual

/-- Whether no object in a value has two members under one name, as none has that callers write. -/
def keysDistinct : Value → Bool
  | .list items => eachDistinct items
  | .tuple items => eachDistinct items
  | .object ms => decide (Members.names ms).Nodup && membersDistinct ms
  | _ => true

/-- Whether no object in some values has two members under one name. -/
def eachDistinct : List Value → Bool
  | [] => true
  | v :: rest => keysDistinct v && eachDistinct rest

/-- Whether no object in some members has two members under one name. -/
def membersDistinct : List (String × Value) → Bool
  | [] => true
  | (_, v) :: rest => keysDistinct v && membersDistinct rest

end

theorem keysDistinct_of_mem {items : List Value} {v : Value} (h : eachDistinct items)
    (hv : v ∈ items) : v.keysDistinct := by
  induction items with
  | nil => cases hv
  | cons w rest ih =>
    rw [eachDistinct, Bool.and_eq_true] at h
    rcases List.mem_cons.mp hv with rfl | hv
    · exact h.1
    · exact ih h.2 hv

theorem keysDistinct_of_member {ms : List (String × Value)} {kv : String × Value}
    (h : membersDistinct ms) (hkv : kv ∈ ms) : kv.2.keysDistinct := by
  induction ms with
  | nil => cases hkv
  | cons first rest ih =>
    rw [membersDistinct, Bool.and_eq_true] at h
    rcases List.mem_cons.mp hkv with rfl | hkv
    · exact h.1
    · exact ih h.2 hkv

theorem keysDistinct_object {ms : List (String × Value)} (h : (object ms).keysDistinct) :
    (Members.names ms).Nodup ∧ ∀ kv ∈ ms, kv.2.keysDistinct := by
  rw [keysDistinct, Bool.and_eq_true] at h
  exact ⟨of_decide_eq_true h.1, fun kv hkv => keysDistinct_of_member h.2 hkv⟩

theorem keysDistinct_items {w : Value} {items : List Value} (h : w.keysDistinct)
    (hitems : w.items? = some items) : ∀ v ∈ items, v.keysDistinct := by
  cases w with
  | list _ | tuple _ =>
    obtain rfl := Option.some.inj hitems
    rw [keysDistinct] at h
    exact fun v hv => keysDistinct_of_mem h hv
  | _ => cases hitems

end Value

/-! ## What filters mean -/

namespace Predicate

mutual

/-- The comparisons of a predicate, from left to right. -/
def comparisons : Predicate → List (String × Operator × Value)
  | .compare column op value => [(column, op, value)]
  | .all items => comparisonsOfAll items
  | .any items => comparisonsOfAll items

/-- The comparisons of some predicates, from left to right. -/
def comparisonsOfAll : List Predicate → List (String × Operator × Value)
  | [] => []
  | p :: rest => comparisons p ++ comparisonsOfAll rest

end

end Predicate

/-- An operator entry of a column whose operand is given. -/
structure Given where
  column : Column
  operator : Operator
  operand : Value

namespace Given

/-- The operand as it is compared: coerced for the column, item by item for a list, and as it is
shown for a pattern. -/
def value? (e : Given) : Option Value :=
  let coerced := fun v => (Conversion.readValue e.column v).toOption
  if e.operator.asksForNull then some .null
  else if e.operator.takesList then
    ((e.operand.items?.getD [e.operand]).mapM coerced).map .tuple
  else if e.operator.takesPattern then some (.text e.operand.display)
  else coerced e.operand

/-- The comparison that is asked for. -/
def comparison? (e : Given) : Option (String × Operator × Value) :=
  e.value?.map fun v => (e.column.name, e.operator, v)

/-- The truth of the comparison on a row. -/
def truth (e : Given) (row : Store.StoredRow) : Store.Truth :=
  e.value?.bind fun v =>
    Store.comparisonTruth e.column e.operator (Direct.operandOf e.column e.operator v)
      (row.cell e.column)

end Given

/-- What something written comes to: the given entries in the order in which they are written, and
the truth on a row. -/
structure Meaning where
  given : List Given
  truth : Store.StoredRow → Store.Truth

namespace Meaning

/-- Nothing is given. -/
def nothing : Meaning := ⟨[], fun _ => some true⟩

/-- The parts in which something is given. -/
def counted (parts : List Meaning) : List Meaning := parts.filter fun m => !m.given.isEmpty

/-- Parts that are joined. -/
def join (connective : List Store.Truth → Store.Truth) (parts : List Meaning) : Meaning :=
  ⟨parts.flatMap (·.given), fun row => connective ((counted parts).map (·.truth row))⟩

/-- Whether a level lists branches. -/
def isBranching (ms : Members Value) : Bool := (Members.get? ms branchKey).any Value.truthy

mutual

/-- What a level means, given what the conditions under its names mean. -/
def ofLevel (under : String → Value → Meaning) : Value → Meaning
  | .object ms =>
    join (if isBranching ms then Store.Truth.any else Store.Truth.all) (ofParts under ms)
  | _ => nothing

/-- What the parts of a level mean. -/
def ofParts (under : String → Value → Meaning) : List (String × Value) → List Meaning
  | [] => []
  | (key, v) :: rest =>
    (if key = branchKey then ofBranches under v else [under key v]) ++ ofParts under rest

/-- What the branches mean that a value lists. -/
def ofBranches (under : String → Value → Meaning) : Value → List Meaning
  | .list items => ofItems under items
  | .tuple items => ofItems under items
  | _ => []

/-- What levels mean. -/
def ofItems (under : String → Value → Meaning) : List Value → List Meaning
  | [] => []
  | v :: rest => ofLevel under v :: ofItems under rest

end

/-- What an operator entry means. -/
def ofOperator (c : Column) (name : String) (v : Value) : Meaning :=
  match Operator.ofName? name with
  | some op => if isGiven v then ⟨[⟨c, op, v⟩], Given.truth ⟨c, op, v⟩⟩ else nothing
  | none => nothing

/-- What the filter of a column means. -/
def ofColumn (c : Column) : Value → Meaning := ofLevel (ofOperator c)

/-- What an entry of a table's filter means; unknown columns mean nothing. -/
def ofEntry (t : Table) (name : String) (v : Value) : Meaning :=
  match t.column? name with
  | some c => ofColumn c v
  | none => nothing

/-- What the filter of a table means. -/
def ofTable (t : Table) : Value → Meaning := ofLevel (ofEntry t)

/-! ## Parts of levels -/

section Parts

variable {under : String → Value → Meaning} {parts parts' : List Meaning}
  {connective : List Store.Truth → Store.Truth} {ms : List (String × Value)} {v w : Value}

theorem counted_append : counted (parts ++ parts') = counted parts ++ counted parts' :=
  List.filter_append parts parts'

theorem counted_eq_nil : counted parts = [] ↔ ∀ m ∈ parts, m.given = [] := by
  simp [counted, List.filter_eq_nil_iff]

theorem given_join : (join connective parts).given = (counted parts).flatMap (·.given) := by
  show parts.flatMap _ = _
  induction parts with
  | nil => rfl
  | cons m parts ih =>
    rw [List.flatMap_cons, ih]
    by_cases h : m.given = [] <;> simp [counted, h]

/-- Only the parts count in which something is given. -/
theorem join_congr (h : counted parts = counted parts') :
    join connective parts = join connective parts' := by
  have hgiven : (join connective parts).given = (join connective parts').given := by
    rw [given_join, given_join, h]
  have htruth : (join connective parts).truth = (join connective parts').truth := by
    show (fun row => connective _) = fun row => connective _
    rw [h]
  exact Meaning.mk.injEq .. ▸ ⟨hgiven, htruth⟩

theorem ofItems_eq_map (items : List Value) : ofItems under items = items.map (ofLevel under) := by
  induction items with
  | nil => rfl
  | cons v items ih => rw [ofItems, ih, List.map_cons]

theorem ofBranches_items {items : List Value} (h : w.items? = some items) :
    ofBranches under w = items.map (ofLevel under) := by
  cases w with
  | list _ | tuple _ =>
    obtain rfl := Option.some.inj h
    rw [ofBranches, ofItems_eq_map]
  | _ => cases h

theorem ofBranches_of_no_items (h : w.items? = none) : ofBranches under w = [] := by
  cases w with
  | list _ | tuple _ => cases h
  | _ => rw [ofBranches] <;> simp

theorem ofBranches_of_falsy (h : w.truthy = false) : ofBranches under w = [] := by
  cases w with
  | list items | tuple items =>
    obtain rfl : items = [] := by simpa [Value.truthy] using h
    rfl
  | _ => rw [ofBranches] <;> simp

/-- The parts of a plain level are the conditions under its names. -/
theorem ofParts_of_plain (hnames : (Members.names ms).Nodup) (h : isBranching ms = false) :
    ofParts under ms =
      (ms.filter fun kv => kv.1 ≠ branchKey).map fun kv => under kv.1 kv.2 := by
  have hnone : ∀ w, (branchKey, w) ∈ ms → ofBranches under w = [] := fun w hw => by
    refine ofBranches_of_falsy ?_
    simpa [isBranching, Members.get?_of_mem hnames hw] using h
  clear h hnames
  induction ms with
  | nil => rfl
  | cons kv rest ih =>
    obtain ⟨key, v⟩ := kv
    have hrest := ih fun w hw => hnone w (List.mem_cons_of_mem _ hw)
    rw [ofParts, hrest]
    by_cases hkey : key = branchKey
    · subst hkey
      rw [if_pos rfl, hnone v List.mem_cons_self]
      simp
    · simp [hkey]

/-- On a level with nothing but branches only these count. -/
theorem counted_ofParts (hnames : (Members.names ms).Nodup)
    (hw : Members.get? ms branchKey = some w)
    (hquiet : ∀ kv ∈ ms, kv.1 ≠ branchKey → (under kv.1 kv.2).given = []) :
    counted (ofParts under ms) = counted (ofBranches under w) := by
  induction ms with
  | nil => cases hw
  | cons kv rest ih =>
    obtain ⟨key, v⟩ := kv
    obtain ⟨hkey, hrest⟩ := List.nodup_cons.mp hnames
    have hquiet' : ∀ kv ∈ rest, kv.1 ≠ branchKey → (under kv.1 kv.2).given = [] :=
      fun kv hkv => hquiet kv (List.mem_cons_of_mem _ hkv)
    rw [ofParts, counted_append]
    by_cases hbranch : key = branchKey
    · subst hbranch
      obtain rfl : v = w := by simpa [Members.get?] using hw
      have hplain : isBranching rest = false := by
        rw [isBranching, Members.get?_eq_none.mpr hkey]
        rfl
      have hnone : counted (ofParts under rest) = [] := by
        rw [counted_eq_nil, ofParts_of_plain hrest hplain]
        simp only [List.mem_map, List.mem_filter, forall_exists_index, and_imp]
        rintro m kv hkv hne rfl
        exact hquiet' kv hkv (by simpa using hne)
      rw [if_pos rfl, hnone, List.append_nil]
    · have hfirst : counted [under key v] = [] := by
        rw [counted_eq_nil]
        simpa using hquiet (key, v) List.mem_cons_self hbranch
      rw [if_neg hbranch, hfirst, List.nil_append]
      exact ih hrest (by simpa [Members.get?, hbranch] using hw) hquiet'

/-- Nothing is given in what is empty. -/
theorem given_of_falsy (h : v.truthy = false) : (ofLevel under v).given = [] := by
  cases v with
  | object ms =>
    obtain rfl : ms = [] := by simpa [Value.truthy] using h
    rfl
  | _ => rw [ofLevel] <;> first | rfl | simp

end Parts

end Meaning

/-! ## What filters are compiled to -/

open Store Outcome Meaning

variable {t : Table} {c : Column} {p : Option Predicate}

/-- Whether a predicate says what something written means: it compares what is given, in order,
there is none where nothing is given, and it is as true of every row. -/
structure Says (t : Table) (m : Meaning) (p : Option Predicate) : Prop where
  comparisons : List.Forall₂ (fun e q => e.comparison? = some q) m.given
    (p.elim [] Predicate.comparisons)
  isNone : p = none ↔ m.given = []
  truth : ∀ q, p = some q → ∀ row, Direct.truth t row q = m.truth row

theorem says_nothing {m : Meaning} (h : m.given = []) : Says t m none where
  comparisons := by
    rw [h]
    exact .nil
  isNone := by simp [h]
  truth := by simp

/-! ### Joining -/

/-- The parts that count say what the predicates say that are there. -/
theorem says_counted {parts : List Meaning} {ps : List (Option Predicate)}
    (h : List.Forall₂ (Says t) parts ps) :
    List.Forall₂ (fun m q => Says t m (some q)) (counted parts) (ps.filterMap id) := by
  induction h with
  | nil => exact .nil
  | @cons m p parts ps hmeant _ ih =>
    cases p with
    | none =>
      have hm : m.given = [] := hmeant.isNone.mp rfl
      simpa [counted, hm] using ih
    | some q =>
      have hm : m.given ≠ [] := fun heq => by simpa using hmeant.isNone.mpr heq
      simpa [counted, hm] using And.intro hmeant ih

theorem comparisons_counted {parts : List Meaning} {qs : List Predicate}
    (h : List.Forall₂ (fun m q => Says t m (some q)) parts qs) :
    List.Forall₂ (fun e q => e.comparison? = some q) (parts.flatMap (·.given))
      (Predicate.comparisonsOfAll qs) := by
  induction h with
  | nil => exact .nil
  | cons hmeant _ ih =>
    rw [List.flatMap_cons, Predicate.comparisonsOfAll]
    exact List.rel_append hmeant.comparisons ih

theorem truths_counted {parts : List Meaning} {qs : List Predicate}
    (h : List.Forall₂ (fun m q => Says t m (some q)) parts qs) (row : StoredRow) :
    Direct.truths t row qs = parts.map (·.truth row) := by
  induction h with
  | nil => rfl
  | cons hmeant _ ih => rw [Direct.truths, ih, hmeant.truth _ rfl row, List.map_cons]

/-- A join of several parts says what a predicate says that holds their comparisons in order and
joins their truths. -/
theorem says_join {connective : List Truth → Truth} {parts : List Meaning} {qs : List Predicate}
    {q : Predicate} (h : List.Forall₂ (fun m q => Says t m (some q)) (counted parts) qs)
    (hqs : qs ≠ []) (hcomparisons : q.comparisons = Predicate.comparisonsOfAll qs)
    (htruth : ∀ row, Direct.truth t row q = connective (Direct.truths t row qs)) :
    Says t (Meaning.join connective parts) (some q) where
  comparisons := by
    rw [given_join, Option.elim, hcomparisons]
    exact comparisons_counted h
  isNone := by
    obtain ⟨q', qs', rfl⟩ := List.exists_cons_of_ne_nil hqs
    obtain ⟨m, rest, hmeant, -, hparts⟩ := List.forall₂_cons_right_iff.mp h
    have hm : m.given ≠ [] := fun heq => by simpa using hmeant.isNone.mpr heq
    rw [given_join, hparts]
    simp [hm]
  truth q' hq' row := by
    obtain rfl := Option.some.inj hq'
    rw [htruth, truths_counted h]
    rfl

theorem all_singleton (a : Truth) : Truth.all [a] = a := by
  rcases a with _ | _ | _ <;> rfl

theorem any_singleton (a : Truth) : Truth.any [a] = a := by
  rcases a with _ | _ | _ <;> rfl

/-- The conditions that are there are gathered in a group; a single one stands alone. -/
theorem says_gathered {connective : List Truth → Truth} {group : List Predicate → Predicate}
    (hone : ∀ a, connective [a] = a)
    (hcomparisons : ∀ qs, (group qs).comparisons = Predicate.comparisonsOfAll qs)
    (htruth : ∀ row qs, Direct.truth t row (group qs) = connective (Direct.truths t row qs))
    {parts : List Meaning} {ps : List (Option Predicate)} (h : List.Forall₂ (Says t) parts ps) :
    Says t (Meaning.join connective parts) (match ps.filterMap id with
      | [] => none
      | [q] => some q
      | qs => some (group qs)) := by
  have hcounted := says_counted h
  split
  · rename_i hnone
    rw [hnone] at hcounted
    refine says_nothing ?_
    rw [given_join, List.forall₂_nil_right_iff.mp hcounted]
    rfl
  · rename_i q hsingle
    rw [hsingle] at hcounted
    exact says_join hcounted (by simp) (by simp [Predicate.comparisonsOfAll]) fun row =>
      (hone _).symm
  · rename_i qs hsome _
    exact says_join hcounted (by simpa using hsome) (hcomparisons _) fun row => htruth row _

theorem says_conjoin {parts : List Meaning} {ps : List (Option Predicate)}
    (h : List.Forall₂ (Says t) parts ps) :
    Says t (Meaning.join Truth.all parts) (Predicate.conjoin ps) :=
  says_gathered all_singleton (fun _ => rfl) (fun _ _ => rfl) h

theorem says_disjoin {parts : List Meaning} {ps : List (Option Predicate)}
    (h : List.Forall₂ (Says t) parts ps) :
    Says t (Meaning.join Truth.any parts) (Predicate.disjoin ps) :=
  says_gathered any_singleton (fun _ => rfl) (fun _ _ => rfl) h

/-! ### Operators -/

theorem readOperand_eq_ok {op : Operator} {v w : Value} (h : readOperand t c op v = .ok w) :
    (Conversion.readValue c v).toOption = some w := by
  rw [readOperand] at h
  split at h
  · rename_i w' hw
    rw [hw]
    exact congrArg some (Except.ok.inj h)
  · split at h <;> cases h

theorem mapM_readOperand_eq_ok {op : Operator} {items ws : List Value}
    (h : items.mapM (readOperand t c op) = .ok ws) :
    (items.mapM fun v => (Conversion.readValue c v).toOption) = some ws := by
  replace h := mapM_eq_ok.mp h
  induction h with
  | nil => rfl
  | cons hv _ ih =>
    rw [List.mapM_cons, readOperand_eq_ok hv, ih]
    rfl

/-- The comparison of an operand compares the operand as it is coerced. -/
theorem comparison_eq_ok {op : Operator} {v : Value} {q : Predicate}
    (h : comparison t c op v = .ok q) :
    ∃ w, (Given.mk c op v).value? = some w ∧ q = .compare c.name op w := by
  simp only [Given.value?]
  rw [comparison] at h
  split at h
  · rename_i hnull
    exact ⟨_, if_pos hnull, (Except.ok.inj h).symm⟩
  rename_i hnull
  rw [if_neg hnull]
  split at h
  · rename_i hlist
    rw [if_pos hlist]
    split at h
    · cases h
    · rename_i hitems
      obtain ⟨ws, hws, hq⟩ := bind_eq_ok.mp h
      exact ⟨.tuple ws, by rw [mapM_readOperand_eq_ok hws]; rfl, (pure_eq_ok.mp hq).symm⟩
  rename_i hlist
  rw [if_neg hlist]
  split at h
  · rename_i hpattern
    exact ⟨_, if_pos hpattern, (Except.ok.inj h).symm⟩
  · rename_i hpattern
    rw [if_neg hpattern]
    obtain ⟨w, hw, hq⟩ := bind_eq_ok.mp h
    exact ⟨w, readOperand_eq_ok hw, (pure_eq_ok.mp hq).symm⟩

theorem says_operator (hc : t.column? c.name = some c) {kv : String × Value}
    (h : operatorEntry t c kv = .ok p) : Says t (ofOperator c kv.1 kv.2) p := by
  rw [operatorEntry] at h
  split at h
  · rename_i hgiven
    obtain rfl := Except.ok.inj h
    refine says_nothing ?_
    rw [ofOperator]
    split
    · rw [if_neg (by simpa using hgiven)]
      rfl
    · rfl
  rename_i hgiven
  split at h
  · cases h
  · rename_i op hop
    obtain ⟨q, hq, rfl⟩ := map_eq_ok.mp h
    obtain ⟨w, hw, rfl⟩ := comparison_eq_ok hq
    have hmeaning : ofOperator c kv.1 kv.2 =
        ⟨[⟨c, op, kv.2⟩], Given.truth ⟨c, op, kv.2⟩⟩ := by
      rw [ofOperator, hop]
      exact if_pos (by simpa using hgiven)
    rw [hmeaning]
    refine ⟨.cons ?_ .nil, by simp, fun q' hq' row => ?_⟩
    · rw [Given.comparison?, hw]
      rfl
    · obtain rfl := Option.some.inj hq'
      simp only [Given.truth, hw, Direct.truth, hc, Option.bind_some]

/-! ### Levels -/

/-- What a plain level means. -/
theorem ofLevel_of_plain {under : String → Value → Meaning} {ms : List (String × Value)}
    (hnames : (Members.names ms).Nodup) (h : isBranching ms = false) :
    ofLevel under (.object ms) = Meaning.join Truth.all
      ((ms.filter fun kv => kv.1 ≠ branchKey).map fun kv => under kv.1 kv.2) := by
  rw [ofLevel, h, ofParts_of_plain hnames h]
  rfl

/-- What a level means that lists branches and gives nothing else. -/
theorem ofLevel_of_branching {under : String → Value → Meaning} {ms : List (String × Value)}
    {w : Value} (hnames : (Members.names ms).Nodup) (hw : Members.get? ms branchKey = some w)
    (htruthy : w.truthy = true)
    (hquiet : ∀ kv ∈ ms, kv.1 ≠ branchKey → (under kv.1 kv.2).given = []) :
    ofLevel under (.object ms) = Meaning.join Truth.any (ofBranches under w) := by
  have hbranching : isBranching ms = true := by simp [isBranching, hw, htruthy]
  rw [ofLevel, hbranching, join_congr (counted_ofParts hnames hw hquiet)]
  rfl

theorem items_ne_nil {w : Value} {items : List Value} (htruthy : w.truthy = true)
    (h : w.items? = some items) : items ≠ [] := by
  rintro rfl
  cases w <;> simp_all [Value.items?, Value.truthy]

theorem parts_ne_nil {w : Value} {parts : List Value} (htruthy : w.truthy = true)
    (h : Shape.parts? w = some parts) : parts ≠ [] := by
  rintro rfl
  cases w <;> simp_all [Shape.parts?, Value.truthy]

namespace ColumnFilter

theorem branchesOf_eq (ms : List (String × Value)) :
    branchesOf ms = ((Members.get? ms branchKey).map ofBranches).getD [] := by
  induction ms with
  | nil => rw [branchesOf]; rfl
  | cons kv rest ih =>
    obtain ⟨key, v⟩ := kv
    rw [branchesOf, Members.get?]
    split <;> simp_all

theorem ofItems_eq (items : List Value) : ofItems items = items.map ofItem := by
  induction items with
  | nil => rw [ofItems]; rfl
  | cons v items ih => rw [ofItems, ih, List.map_cons]

/-- The branches that a value lists are the items of a list; else there are none, or the first is no
filter. -/
theorem ofBranches_cases (w : Value) :
    (w.truthy = false ∧ ofBranches w = []) ∨
      w.truthy = true ∧ ((∃ items, w.items? = some items ∧ ofBranches w = items.map ofItem) ∨
        ∃ reason rest, ofBranches w = misshapen reason :: rest) := by
  cases htruthy : w.truthy with
  | false =>
    refine .inl ⟨rfl, ?_⟩
    cases w with
    | list items | tuple items =>
      obtain rfl : items = [] := by simpa [Value.truthy] using htruthy
      rw [ofBranches, ofItems_eq]
      rfl
    | _ => rw [ofBranches, htruthy] <;> simp
  | true =>
    refine .inr ⟨rfl, ?_⟩
    cases w with
    | list items | tuple items => exact .inl ⟨items, rfl, by rw [ofBranches, ofItems_eq]⟩
    | _ =>
      right
      rw [ofBranches, htruthy, Bool.not_true, if_neg Bool.false_ne_true]
      · split
        · rename_i parts hparts
          obtain ⟨first, rest, rfl⟩ := List.exists_cons_of_ne_nil (parts_ne_nil htruthy hparts)
          exact ⟨_, _, rfl⟩
        · exact ⟨_, _, rfl⟩
      all_goals simp

end ColumnFilter

/-! ### Columns -/

theorem compileColumns_eq (fs : List ColumnFilter) :
    compileColumns t c fs = fs.mapM (compileColumn t c) := by
  induction fs with
  | nil => rw [compileColumns]; rfl
  | cons f fs ih => rw [compileColumns, List.mapM_cons, ih]

theorem sizeOf_item {w v : Value} {items : List Value} (hitems : w.items? = some items)
    (hv : v ∈ items) : sizeOf v < sizeOf w := by
  have hlt := List.sizeOf_lt_of_mem hv
  cases w with
  | list _ | tuple _ =>
    obtain rfl := Option.some.inj hitems
    simp
    omega
  | _ => cases hitems

theorem sizeOf_member {ms : List (String × Value)} {key : String} {w : Value}
    (h : (key, w) ∈ ms) : sizeOf w < sizeOf (Value.object ms) := by
  have hlt := List.sizeOf_lt_of_mem h
  simp at hlt ⊢
  omega

/-- Beside branches no operator is given. -/
theorem given_ofOperator_of_null {name : String} {v : Value} (h : v.isNull) :
    (ofOperator c name v).given = [] := by
  cases v with
  | null =>
    rw [ofOperator]
    split <;> rfl
  | _ => cases h

theorem says_plainColumn (hc : t.column? c.name = some c) {ms : List (String × Value)}
    (hnames : (Members.names ms).Nodup) (hplain : isBranching ms = false)
    (h : compileColumn t c (.level [] (ms.filter fun kv => kv.1 ≠ branchKey)) = .ok p) :
    Says t (ofColumn c (.object ms)) p := by
  rw [compileColumn] at h
  obtain ⟨ps, hps, hp⟩ := bind_eq_ok.mp h
  obtain rfl := pure_eq_ok.mp hp
  rw [ofColumn, ofLevel_of_plain hnames hplain]
  refine says_conjoin (List.forall₂_map_left_iff.mpr ((mapM_eq_ok.mp hps).imp fun kv p hkv => ?_))
  exact says_operator hc hkv

/-- The branches of a column's filter say what they mean if each of them does. -/
theorem says_columnBranches {ms : List (String × Value)} {w : Value} {items : List Value}
    (hnames : (Members.names ms).Nodup) (hw : Members.get? ms branchKey = some w)
    (htruthy : w.truthy = true) (hitems : w.items? = some items)
    (hmeant : ∀ v ∈ items, ∀ p, compileColumn t c (ColumnFilter.ofItem v) = .ok p →
      Says t (ofColumn c v) p)
    (h : compileColumn t c (.level (items.map ColumnFilter.ofItem)
      (ms.filter fun kv => kv.1 ≠ branchKey)) = .ok p) :
    Says t (ofColumn c (.object ms)) p := by
  obtain ⟨v, rest, rfl⟩ : ∃ v rest, items = v :: rest :=
    List.exists_cons_of_ne_nil (items_ne_nil htruthy hitems)
  rw [List.map_cons, compileColumn] at h
  split at h
  · cases h
  rename_i hquiet
  obtain ⟨first, hfirst, h⟩ := bind_eq_ok.mp h
  obtain ⟨ps, hps, hp⟩ := bind_eq_ok.mp h
  obtain rfl := pure_eq_ok.mp hp
  rw [compileColumns_eq] at hps
  have hall : List.Forall₂ (fun v p => compileColumn t c (ColumnFilter.ofItem v) = .ok p)
      (v :: rest) (first :: ps) := .cons hfirst (List.forall₂_map_left_iff.mp (mapM_eq_ok.mp hps))
  have hothers : ∀ kv ∈ ms, kv.1 ≠ branchKey → (ofOperator c kv.1 kv.2).given = [] := by
    intro kv hkv hne
    refine given_ofOperator_of_null ?_
    simp only [List.any_eq_true, List.mem_filter, not_exists, not_and] at hquiet
    simpa using hquiet kv ⟨hkv, by simpa using hne⟩
  rw [ofColumn, ofLevel_of_branching hnames hw htruthy hothers, ofBranches_items hitems]
  refine says_disjoin (List.forall₂_map_left_iff.mpr ?_)
  exact ((List.forall₂_and_left _ _).mpr ⟨hmeant, hall⟩).imp fun v p h => h.1 p h.2

/-- A column's filter is compiled to a predicate that says what it means. -/
theorem says_column (hc : t.column? c.name = some c) (v : Value) (hkeys : v.keysDistinct)
    {p : Option Predicate} (h : compileColumn t c (ColumnFilter.ofItem v) = .ok p) :
    Says t (ofColumn c v) p := by
  match v with
  | .object ms =>
    obtain ⟨hnames, hmembers⟩ := Value.keysDistinct_object hkeys
    rw [ColumnFilter.ofItem, ColumnFilter.ofMembers, ColumnFilter.branchesOf_eq] at h
    cases hget : Members.get? ms branchKey with
    | none =>
      rw [hget] at h
      exact says_plainColumn hc hnames (by simp [isBranching, hget]) h
    | some w =>
      have hw := Members.mem_of_get? hget
      rw [hget, Option.map_some, Option.getD_some] at h
      rcases ColumnFilter.ofBranches_cases w with ⟨hfalsy, hnone⟩ | ⟨htruthy, hsome⟩
      · rw [hnone] at h
        exact says_plainColumn hc hnames (by simp [isBranching, hget, hfalsy]) h
      rcases hsome with ⟨items, hitems, hbranches⟩ | ⟨reason, rest, hbranches⟩
      · rw [hbranches] at h
        refine says_columnBranches hnames hget htruthy hitems (fun v hv p hp => ?_) h
        have hlt := Nat.lt_trans (sizeOf_item hitems hv) (sizeOf_member hw)
        exact says_column hc v (Value.keysDistinct_items (hmembers _ hw) hitems v hv) hp
      · rw [hbranches, compileColumn] at h
        split at h
        · cases h
        · obtain ⟨first, hfirst, -⟩ := bind_eq_ok.mp h
          rw [compileColumn] at hfirst
          cases hfirst
  | .null | .bool _ | .int _ | .float _ | .decimal _ | .text _ | .bytes _ | .date _ | .moment _
  | .time _ | .uuid _ | .list _ | .tuple _ =>
    rw [ColumnFilter.ofItem, compileColumn] at h
    · cases h
    all_goals simp
termination_by sizeOf v
decreasing_by exact hlt

/-! ### Tables -/

namespace TableFilter

theorem branchesOf_eq (ms : List (String × Value)) :
    branchesOf ms = ((Members.get? ms branchKey).map ofBranches).getD [] := by
  induction ms with
  | nil => rw [branchesOf]; rfl
  | cons kv rest ih =>
    obtain ⟨key, v⟩ := kv
    rw [branchesOf, Members.get?]
    split <;> simp_all

theorem ofItems_eq (items : List Value) : ofItems items = items.map ofItem := by
  induction items with
  | nil => rw [ofItems]; rfl
  | cons v items ih => rw [ofItems, ih, List.map_cons]

/-- Whether a filter is none, or that of a level on which nothing is written. -/
def IsBlank (f : TableFilter) : Prop := (∃ reason, f = misshapen reason) ∨ f = level [] []

theorem isBlank_ofOther (v : Value) : (ofOther v).IsBlank := by
  rw [ofOther]
  split
  · exact .inl ⟨_, rfl⟩
  · exact .inr rfl

/-- The branches that a value lists are the items of a list; else there are none, or nothing is
written in any of them. -/
theorem ofBranches_cases (w : Value) :
    (w.truthy = false ∧ ofBranches w = []) ∨
      w.truthy = true ∧ ((∃ items, w.items? = some items ∧ ofBranches w = items.map ofItem) ∨
        w.items? = none ∧ ∃ first rest, ofBranches w = first :: rest ∧
          ∀ f ∈ first :: rest, f.IsBlank) := by
  cases htruthy : w.truthy with
  | false =>
    refine .inl ⟨rfl, ?_⟩
    cases w with
    | list items | tuple items =>
      obtain rfl : items = [] := by simpa [Value.truthy] using htruthy
      rw [ofBranches, ofItems_eq]
      rfl
    | _ => rw [ofBranches, htruthy] <;> simp
  | true =>
    refine .inr ⟨rfl, ?_⟩
    cases w with
    | list items | tuple items => exact .inl ⟨items, rfl, by rw [ofBranches, ofItems_eq]⟩
    | _ =>
      refine .inr ⟨rfl, ?_⟩
      rw [ofBranches, htruthy, Bool.not_true, if_neg Bool.false_ne_true]
      · split
        · rename_i parts hparts
          obtain ⟨first, rest, rfl⟩ := List.exists_cons_of_ne_nil (parts_ne_nil htruthy hparts)
          refine ⟨_, _, rfl, fun f hf => ?_⟩
          rw [← List.map_cons] at hf
          obtain ⟨v, -, rfl⟩ := List.mem_map.mp hf
          exact isBlank_ofOther v
        · refine ⟨_, _, rfl, fun f hf => ?_⟩
          obtain rfl := List.mem_singleton.mp hf
          exact .inl ⟨_, rfl⟩
      all_goals simp

end TableFilter

theorem compileFilters_eq (fs : List TableFilter) :
    compileFilters t fs = fs.mapM (compileFilter t) := by
  induction fs with
  | nil => rw [compileFilters]; rfl
  | cons f fs ih => rw [compileFilters, List.mapM_cons, ih]

theorem compileFilter_of_blank {f : TableFilter} (hf : f.IsBlank) (h : compileFilter t f = .ok p) :
    p = none := by
  obtain ⟨reason, rfl⟩ | rfl := hf
  · rw [compileFilter] at h
    cases h
  · rw [compileFilter] at h
    exact (Except.ok.inj h).symm

/-- The entry of a table's filter for a column is compiled to what it means. -/
theorem says_entry {kv : String × Value} (hkeys : kv.2.keysDistinct)
    (h : compileEntry t (TableFilter.entryOf kv) = .ok p) : Says t (ofEntry t kv.1 kv.2) p := by
  rw [compileEntry, TableFilter.entryOf] at h
  rw [ofEntry]
  cases hcolumn : t.column? kv.1 with
  | none =>
    rw [hcolumn] at h
    have hp : p = none := by
      split at h
      · rename_i hsome
        cases hsome
      · exact (Except.ok.inj h).symm
    exact hp ▸ says_nothing rfl
  | some c =>
    have hc : t.column? c.name = some c := Table.column?_name hcolumn ▸ hcolumn
    rw [hcolumn] at h
    cases htruthy : kv.2.truthy with
    | false =>
      rw [htruthy] at h
      obtain rfl := Except.ok.inj h
      exact says_nothing (given_of_falsy htruthy)
    | true =>
      rw [htruthy] at h
      exact says_column hc kv.2 hkeys h

theorem given_ofEntry_of_null {name : String} {v : Value} (h : v.isNull) :
    (ofEntry t name v).given = [] := by
  rw [ofEntry]
  split
  · exact given_of_falsy (by cases v <;> simp_all [Value.isNull, Value.truthy])
  · rfl

theorem says_plainTable {ms : List (String × Value)} (hnames : (Members.names ms).Nodup)
    (hmembers : ∀ kv ∈ ms, kv.2.keysDistinct) (hplain : isBranching ms = false)
    (h : compileFilter t (.level []
      ((ms.filter fun kv => kv.1 ≠ branchKey).map TableFilter.entryOf)) = .ok p) :
    Says t (ofTable t (.object ms)) p := by
  rw [compileFilter] at h
  obtain ⟨ps, hps, hp⟩ := bind_eq_ok.mp h
  obtain rfl := pure_eq_ok.mp hp
  rw [ofTable, ofLevel_of_plain hnames hplain]
  have hentries := List.forall₂_map_left_iff.mp (mapM_eq_ok.mp hps)
  have hdistinct : ∀ kv ∈ ms.filter fun kv => kv.1 ≠ branchKey, kv.2.keysDistinct := fun kv hkv =>
    hmembers kv (List.mem_filter.mp hkv).1
  refine says_conjoin (List.forall₂_map_left_iff.mpr ?_)
  exact ((List.forall₂_and_left _ _).mpr ⟨hdistinct, hentries⟩).imp fun kv p h =>
    says_entry h.1 h.2

/-- The branches of a table's filter say what they mean if each of them does. -/
theorem says_tableBranches (parts : List Meaning) {ms : List (String × Value)} {w : Value}
    {first : TableFilter} {rest : List TableFilter}
    (hnames : (Members.names ms).Nodup) (hw : Members.get? ms branchKey = some w)
    (htruthy : w.truthy = true)
    (hparts : counted (ofBranches (ofEntry t) w) = counted parts)
    (hmeant : ∀ ps, List.Forall₂ (fun f p => compileFilter t f = .ok p) (first :: rest) ps →
      List.Forall₂ (Says t) parts ps)
    (h : compileFilter t (.level (first :: rest)
      ((ms.filter fun kv => kv.1 ≠ branchKey).map TableFilter.entryOf)) = .ok p) :
    Says t (ofTable t (.object ms)) p := by
  rw [compileFilter] at h
  split at h
  · cases h
  rename_i hquiet
  obtain ⟨q, hq, h⟩ := bind_eq_ok.mp h
  obtain ⟨ps, hps, hp⟩ := bind_eq_ok.mp h
  obtain rfl := pure_eq_ok.mp hp
  rw [compileFilters_eq] at hps
  have hothers : ∀ kv ∈ ms, kv.1 ≠ branchKey → (ofEntry t kv.1 kv.2).given = [] := by
    intro kv hkv hne
    refine given_ofEntry_of_null ?_
    simp only [List.any_map, List.any_eq_true, List.mem_filter, not_exists, not_and] at hquiet
    simpa [TableFilter.entryOf] using hquiet kv ⟨hkv, by simpa using hne⟩
  rw [ofTable, ofLevel_of_branching hnames hw htruthy hothers, join_congr hparts]
  exact says_disjoin (hmeant _ (.cons hq (mapM_eq_ok.mp hps)))

/-- A table's filter is compiled to a predicate that says what it means. -/
theorem says_table (v : Value) (hkeys : v.keysDistinct) {p : Option Predicate}
    (h : compileFilter t (TableFilter.ofItem v) = .ok p) : Says t (ofTable t v) p := by
  match v with
  | .object ms =>
    obtain ⟨hnames, hmembers⟩ := Value.keysDistinct_object hkeys
    rw [TableFilter.ofItem, TableFilter.ofMembers, TableFilter.branchesOf_eq] at h
    cases hget : Members.get? ms branchKey with
    | none =>
      rw [hget] at h
      exact says_plainTable hnames hmembers (by simp [isBranching, hget]) h
    | some w =>
      have hw := Members.mem_of_get? hget
      rw [hget, Option.map_some, Option.getD_some] at h
      rcases TableFilter.ofBranches_cases w with ⟨hfalsy, hnone⟩ | ⟨htruthy, hsome⟩
      · rw [hnone] at h
        exact says_plainTable hnames hmembers (by simp [isBranching, hget, hfalsy]) h
      rcases hsome with ⟨items, hitems, hbranches⟩ | ⟨hitems, first, rest, hbranches, hblank⟩
      · obtain ⟨v, rest, rfl⟩ := List.exists_cons_of_ne_nil (items_ne_nil htruthy hitems)
        rw [hbranches, List.map_cons] at h
        refine says_tableBranches ((v :: rest).map (ofTable t)) hnames hget htruthy
          (by rw [ofBranches_items hitems]; rfl) (fun ps hps => ?_) h
        rw [← List.map_cons] at hps
        have hmeant : ∀ v' ∈ v :: rest, ∀ p, compileFilter t (TableFilter.ofItem v') = .ok p →
            Says t (ofTable t v') p := fun v' hv p hp => by
          have hlt := Nat.lt_trans (sizeOf_item hitems hv) (sizeOf_member hw)
          exact says_table v' (Value.keysDistinct_items (hmembers _ hw) hitems v' hv) hp
        refine List.forall₂_map_left_iff.mpr ?_
        exact ((List.forall₂_and_left _ _).mpr ⟨hmeant, List.forall₂_map_left_iff.mp hps⟩).imp
          fun v' p h => h.1 p h.2
      · rw [hbranches] at h
        refine says_tableBranches ((first :: rest).map fun _ => Meaning.nothing) hnames
          hget htruthy ?_ (fun ps hps => ?_) h
        · rw [ofBranches_of_no_items hitems]
          exact (counted_eq_nil.mpr (by simp [Meaning.nothing])).symm
        · refine List.forall₂_map_left_iff.mpr ?_
          exact ((List.forall₂_and_left _ _).mpr ⟨hblank, hps⟩).imp fun f p h =>
            compileFilter_of_blank h.1 h.2 ▸ says_nothing rfl
  | .null | .bool _ | .int _ | .float _ | .decimal _ | .text _ | .bytes _ | .date _ | .moment _
  | .time _ | .uuid _ | .list _ | .tuple _ =>
    rw [TableFilter.ofItem] at h
    · exact compileFilter_of_blank (TableFilter.isBlank_ofOther _) h ▸ says_nothing rfl
    all_goals simp
termination_by sizeOf v
decreasing_by exact hlt

/-- Whatever is accepted under `where` is compiled to a predicate that compares, from left to right,
the given operands of known columns in the order in which they are written, coerced; there is none
exactly when nothing is given; and on every row the predicate, with the condition that is sent to
the database for it, is as true as all parts of a plain level are and any branch of one that lists
branches, where parts do not count in which nothing is given. -/
theorem compileWhere_means (t : Table) (v : Value) (hkeys : v.keysDistinct) {p : Option Predicate}
    (h : compileWhere t v = .ok p) :
    List.Forall₂ (fun e q => e.comparison? = some q) (ofTable t v).given
        (p.elim [] Predicate.comparisons) ∧
      (p = none ↔ (ofTable t v).given = []) ∧
      ∀ q, p = some q → ∀ row, Direct.truth t row q = (ofTable t v).truth row ∧
        ∀ condition, Sql.Condition.ofPredicate t q = .ok condition →
          conditionTruth row.cell condition = (ofTable t v).truth row := by
  have hmeant : Says t (ofTable t v) p := says_table v hkeys h
  refine ⟨hmeant.comparisons, hmeant.isNone, fun q hq row => ⟨hmeant.truth q hq row, ?_⟩⟩
  intro condition hcondition
  rw [Direct.conditionTruth_of_ofPredicate row hcondition, hmeant.truth q hq row]

namespace Meaning

/-- Notes, each with a key and a title. -/
def notes : Table :=
  Direct.Family.table "note" [Direct.Family.column "id" (.text false) true,
    Direct.Family.column "title" (.text false) false] []

/-- Notes with a title, or with none of two keys; a branch and some entries give nothing. -/
def titleOrKeys : Value :=
  .object [("OR", .list [.object [("title", .object [("eq", .text "a")])], .object [],
    .object [("title", .object [("isNull", .bool false)]), ("author", .object [("eq", .text "b")]),
      ("id", .object [("OR", .list [.object [("notInArray", .list [.text "x", .text "y"]),
        ("like", .null)], .object [("eq", .null)]])])]])]

/-- The predicate for these notes. -/
def titleOrKeysPredicate : Predicate :=
  .any [.compare "title" .eq (.text "a"),
    .compare "id" .notInArray (.tuple [.text "x", .text "y"])]

/-- A branch in which nothing is given is no branch. -/
theorem titleOrKeys_means :
    List.Forall₂ (fun e q => e.comparison? = some q) (ofTable notes titleOrKeys).given
        titleOrKeysPredicate.comparisons ∧
      (some titleOrKeysPredicate = none ↔ (ofTable notes titleOrKeys).given = []) ∧
      ∀ q, some titleOrKeysPredicate = some q → ∀ row,
        Direct.truth notes row q = (ofTable notes titleOrKeys).truth row ∧
        ∀ condition, Sql.Condition.ofPredicate notes q = .ok condition →
          conditionTruth row.cell condition = (ofTable notes titleOrKeys).truth row :=
  compileWhere_means notes titleOrKeys (p := some titleOrKeysPredicate) (by decide) (by cbv)

end Meaning
end RelGraph
