import RelGraph.Proofs.Schema.Registry
import RelGraph.Proofs.Fetch.Direct
/-!
What a statement is made of says what the plan says: its conditions are as true as the predicates
that they were made from, its joins hold where rows are linked, and its sort keys order rows as the
entries of the plan do. Each of these is read off rows; in which scope a statement finds its rows is
not looked at here.
-/
namespace RelGraph.Direct

open Store Sql Outcome

/-! ## Columns -/

theorem columnsOf_of_mapM {t : Table} {names : List String} {columns : List Column}
    (h : names.mapM t.column = .ok columns) : columnsOf t names = columns := by
  replace h := mapM_eq_ok.mp h
  induction h with
  | nil => rfl
  | cons hc _ ih =>
    rw [columnsOf, List.filterMap_cons_some (Table.column_eq_ok.mp hc)]
    exact congrArg _ ih

/-- Every column that was looked up by a name is found by its own name again. -/
theorem column?_of_mem {t : Table} {names : List String} {columns : List Column}
    (h : names.mapM t.column = .ok columns) {c : Column} (hc : c ∈ columns) :
    t.column? c.name = some c ∧ c.name ∈ names := by
  obtain ⟨name, hmem, hname⟩ := exists_of_mem_mapM h hc
  have hname := Table.column_eq_ok.mp hname
  obtain rfl := Table.column?_name hname
  exact ⟨hname, hmem⟩

theorem mem_of_column? {t : Table} {names : List String} {columns : List Column}
    (h : names.mapM t.column = .ok columns) {name : String} {c : Column} (hname : name ∈ names)
    (hc : t.column? name = some c) : c ∈ columns := by
  replace h := mapM_eq_ok.mp h
  induction h with
  | nil => simp at hname
  | @cons name' c' names columns hfound _ ih =>
    rcases List.mem_cons.mp hname with rfl | hname
    · have : c' = c := by simpa [hc] using (Table.column_eq_ok.mp hfound).symm
      simp [this]
    · exact List.mem_cons_of_mem _ (ih hname)

/-! ## Truth -/

@[simp] theorem both_holds (a b : Truth) : (a.both b).holds = (a.holds && b.holds) := by
  rcases a with _ | _ | _ <;> rcases b with _ | _ | _ <;> rfl

@[simp] theorem all_holds (ts : List Truth) : (Truth.all ts).holds = ts.all Truth.holds := by
  induction ts with
  | nil => rfl
  | cons t ts ih => rw [Truth.all, List.foldr_cons, both_holds, List.all_cons, ← ih, Truth.all]

@[simp] theorem either_holds (a b : Truth) : (a.either b).holds = (a.holds || b.holds) := by
  rcases a with _ | _ | _ <;> rcases b with _ | _ | _ <;> rfl

@[simp] theorem any_holds (ts : List Truth) : (Truth.any ts).holds = ts.any Truth.holds := by
  induction ts with
  | nil => rfl
  | cons t ts ih => rw [Truth.any, List.foldr_cons, either_holds, List.any_cons, ← ih, Truth.any]

@[simp] theorem equalTruth_holds (o : Option Ordering) :
    (orderTruth (· == .eq) o).holds = (o == some .eq) := by
  rcases o with _ | o
  · rfl
  · cases o <;> rfl

/-! ## Conditions -/

theorem operandOf_eq {c : Column} {op : Operator} {v w : Value}
    (h : Condition.operand c op v = .ok w) : operandOf c op v = w := by
  simp [operandOf, h]

/-- The condition of a comparison is the comparison of the column that goes by the name. -/
theorem ofPredicate_compare {t : Table} {name : String} {op : Operator} {v : Value} {c : Condition}
    (h : Condition.ofPredicate t (.compare name op v) = .ok c) :
    ∃ column, t.column? name = some column ∧ c = .compare column op (operandOf column op v) := by
  rw [Condition.ofPredicate] at h
  obtain ⟨column, hcolumn, h⟩ := bind_eq_ok.mp h
  split at h
  · obtain ⟨w, hw, h⟩ := bind_eq_ok.mp h
    refine ⟨column, Table.column_eq_ok.mp hcolumn, ?_⟩
    rw [operandOf_eq hw]
    exact (pure_eq_ok.mp h).symm
  · cases h

mutual

/-- A condition is as true of a row as the predicate that it was made from. -/
theorem conditionTruth_of_ofPredicate {t : Table} (row : StoredRow) {p : Predicate} {c : Condition}
    (h : Condition.ofPredicate t p = .ok c) : conditionTruth row.cell c = truth t row p := by
  match p with
  | .compare name op v =>
    obtain ⟨column, hcolumn, rfl⟩ := ofPredicate_compare h
    simp [conditionTruth, truth, hcolumn]
  | .all items =>
    rw [Condition.ofPredicate] at h
    obtain ⟨cs, hcs, h⟩ := bind_eq_ok.mp h
    obtain rfl := pure_eq_ok.mp h
    rw [conditionTruth, truth, conditionTruths_of_ofPredicates row hcs]
  | .any items =>
    rw [Condition.ofPredicate] at h
    obtain ⟨cs, hcs, h⟩ := bind_eq_ok.mp h
    obtain rfl := pure_eq_ok.mp h
    rw [conditionTruth, truth, conditionTruths_of_ofPredicates row hcs]

theorem conditionTruths_of_ofPredicates {t : Table} (row : StoredRow) {ps : List Predicate}
    {cs : List Condition} (h : Condition.ofPredicates t ps = .ok cs) :
    conditionTruths row.cell cs = truths t row ps := by
  match ps with
  | [] =>
    obtain rfl := pure_eq_ok.mp h
    rfl
  | p :: ps =>
    rw [Condition.ofPredicates] at h
    obtain ⟨c, hc, h⟩ := bind_eq_ok.mp h
    obtain ⟨cs, hcs, h⟩ := bind_eq_ok.mp h
    obtain rfl := pure_eq_ok.mp h
    rw [conditionTruths, truths, conditionTruth_of_ofPredicate row hc,
      conditionTruths_of_ofPredicates row hcs]

end

mutual

theorem hasLongMatch_of_ofPredicate {t : Table} {p : Predicate} {c : Condition}
    (h : Condition.ofPredicate t p = .ok c) : Store.hasLongMatch c = hasLongMatch t p := by
  match p with
  | .compare name op v =>
    obtain ⟨column, hcolumn, rfl⟩ := ofPredicate_compare h
    simp [Store.hasLongMatch, hasLongMatch, hcolumn]
  | .all items =>
    rw [Condition.ofPredicate] at h
    obtain ⟨cs, hcs, h⟩ := bind_eq_ok.mp h
    obtain rfl := pure_eq_ok.mp h
    rw [Store.hasLongMatch, hasLongMatch, haveLongMatch_of_ofPredicates hcs]
  | .any items =>
    rw [Condition.ofPredicate] at h
    obtain ⟨cs, hcs, h⟩ := bind_eq_ok.mp h
    obtain rfl := pure_eq_ok.mp h
    rw [Store.hasLongMatch, hasLongMatch, haveLongMatch_of_ofPredicates hcs]

theorem haveLongMatch_of_ofPredicates {t : Table} {ps : List Predicate} {cs : List Condition}
    (h : Condition.ofPredicates t ps = .ok cs) : Store.haveLongMatch cs = haveLongMatch t ps := by
  match ps with
  | [] =>
    obtain rfl := pure_eq_ok.mp h
    rfl
  | p :: ps =>
    rw [Condition.ofPredicates] at h
    obtain ⟨c, hc, h⟩ := bind_eq_ok.mp h
    obtain ⟨cs, hcs, h⟩ := bind_eq_ok.mp h
    obtain rfl := pure_eq_ok.mp h
    rw [Store.haveLongMatch, haveLongMatch, hasLongMatch_of_ofPredicate hc,
      haveLongMatch_of_ofPredicates hcs]

end

/-- The condition of a level, if it has one, holds of the rows that meet it. -/
theorem holds_of_ofPredicate? {t : Table} {p : Option Predicate} {c : Option Condition}
    (h : Condition.ofPredicate? t p = .ok c) (row : StoredRow) :
    (rowTruth c row).holds = meets t p row := by
  cases p with
  | none =>
    obtain rfl := pure_eq_ok.mp h
    rfl
  | some p =>
    obtain ⟨c', hc', h⟩ := bind_eq_ok.mp h
    obtain rfl := pure_eq_ok.mp h
    simp only [rowTruth, meets, Option.all_some, conditionTruth_of_ofPredicate row hc']

theorem checkPatterns_of_ofPredicate? {t : Table} {p : Option Predicate} {c : Option Condition}
    (h : Condition.ofPredicate? t p = .ok c) {α : Type} (items : List α) (rows : List StoredRow)
    (hrows : items.isEmpty = rows.isEmpty) : checkPatterns c items = checkMatches t p rows := by
  rw [checkPatterns, checkMatches, hrows]
  cases p with
  | none =>
    obtain rfl := pure_eq_ok.mp h
    rfl
  | some p =>
    obtain ⟨c', hc', h⟩ := bind_eq_ok.mp h
    obtain rfl := pure_eq_ok.mp h
    rw [Option.any_some, Option.any_some, hasLongMatch_of_ofPredicate hc']

/-! ## Joins -/

/-- The joins of a relation are its pairs, each side looked up in its table. -/
theorem joins_eq_ok {above target : Table} {rel : Relation} {joins : List Join}
    (h : Fetch.joins above target rel = .ok joins) :
    List.Forall₂ (fun pair j => above.column? pair.1 = some j.outer ∧
      target.column? pair.2 = some j.own) rel.pairs joins := by
  refine (mapM_eq_ok.mp h).imp ?_
  rintro ⟨field, reference⟩ j hj
  obtain ⟨own, hown, hj⟩ := bind_eq_ok.mp hj
  obtain ⟨outer, houter, hj⟩ := bind_eq_ok.mp hj
  obtain rfl := pure_eq_ok.mp hj
  exact ⟨Table.column_eq_ok.mp houter, Table.column_eq_ok.mp hown⟩

/-- What the row above has to show for a join stands under one of the relation's fields. -/
theorem outer_of_mem_joins {above target : Table} {rel : Relation} {joins : List Join}
    (h : Fetch.joins above target rel = .ok joins) {j : Join} (hj : j ∈ joins) :
    ∃ field ∈ rel.fields, above.column? field = some j.outer := by
  obtain ⟨⟨field, reference⟩, hpair, hj⟩ := exists_of_mem_mapM h hj
  obtain ⟨own, _, hj⟩ := bind_eq_ok.mp hj
  obtain ⟨outer, houter, hj⟩ := bind_eq_ok.mp hj
  obtain rfl := pure_eq_ok.mp hj
  exact ⟨field, (List.of_mem_zip hpair).1, Table.column_eq_ok.mp houter⟩

theorem linked_eq {above target : Table} {rel : Relation} {joins : List Join}
    (h : Fetch.joins above target rel = .ok joins) (parent child : StoredRow) :
    linked above target rel parent child =
      joins.all fun j => sameCell j.own j.outer (child.cell j.own) (parent.cell j.outer) := by
  replace h := joins_eq_ok h
  rw [linked]
  generalize rel.pairs = pairs at h
  induction h with
  | nil => rfl
  | cons hpair _ ih => simp only [List.all_cons, hpair.1, hpair.2, ih]

/-! ## Order -/

/-- Sort keys order rows as the entries do that they were made from. -/
theorem orderByKeys_of_ofOrder {t : Table} {entries : List OrderEntry} {keys : List SortKey}
    (h : SortKey.ofOrder t entries = .ok keys) {read : Frame → Column → Cell} {a b : StoredRow}
    {fa fb : Frame} (ha : ∀ c, read fa c = a.cell c) (hb : ∀ c, read fb c = b.cell c) :
    orderByKeys read keys fa fb = rowOrder t entries a b := by
  replace h := mapM_eq_ok.mp h
  rw [orderByKeys, rowOrder]
  induction h with
  | nil => rfl
  | cons hkey _ ih =>
    obtain ⟨c, hc, hkey⟩ := bind_eq_ok.mp hkey
    obtain rfl := pure_eq_ok.mp hkey
    rw [List.foldr_cons, List.foldr_cons, ih]
    simp only [Table.column_eq_ok.mp hc, ha, hb]

end RelGraph.Direct
