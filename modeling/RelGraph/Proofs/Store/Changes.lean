import RelGraph.Proofs.Fetch.ByKey
import RelGraph.Proofs.Store.Session
/-!
What updates and deletions change. An update rewrites the rows that it is about one after the other,
and each is checked against all others as they are by then; so in the end no two rows repeat what
may not repeat, just as if the rewritten rows had been added to those that the update is not about.
A deletion leaves out the rows that it is about. Neither touches another table.
-/
namespace RelGraph

/-- The columns of a table have names of their own in the database, and the column that stands for
the numbers of rows, if there is one, is the key. -/
structure Table.KeptBy (t : Table) (c : Column) : Prop extends t.KeyColumn c where
  names : (t.columns.map (·.declaration.name)).Nodup
  number : ∀ other ∈ t.columns, Store.isRowNumber t other = true → other = c

/-- A table that is declared with one key column, and with columns that have names of their own, is
kept by its key. -/
theorem Table.keptBy_ofDeclaration {name : String} {t : TableDeclaration}
    {model : Option String} {table : Table} {key : ColumnDeclaration}
    (h : Table.ofDeclaration name t model = .ok table) (hkey : t.primaryColumns = [key])
    (hgiven : key.computed = none) (hkeys : (t.columns.map (·.key)).Nodup)
    (hstored : (t.columns.map (·.name)).Nodup) :
    ∃ c, table.KeptBy c ∧ c.declaration = key := by
  obtain ⟨c, hcolumn, rfl⟩ := keyColumn_ofDeclaration h hkey hgiven hkeys hstored
  obtain ⟨hdeclaration, -, hdeclared, hcolumns⟩ := columns_ofDeclaration h
  refine ⟨c, ⟨hcolumn, ?_, fun other hother hnumber => ?_⟩, rfl⟩
  · rwa [hdeclared, List.map_map] at hstored
  · obtain ⟨key', hkey', hname⟩ := Store.primaryColumns_of_isRowNumber hnumber
    rw [hdeclaration, hkey] at hkey'
    obtain rfl := List.singleton_inj.mp hkey'
    have hsame : other.name = c.name := hname.symm.trans (hcolumns c hcolumn.mem).1.symm
    exact List.inj_on_of_nodup_map (nodup_names_ofDeclaration h hkeys) hother hcolumn.mem hsame

end RelGraph

namespace RelGraph.Store

open Sql Outcome Direct

/-! ## Rows in the order of their numbers -/

/-- Rows are in the order of their numbers, no two under one number, and the column that stands for
the number has it. -/
structure Numbered (t : Table) (rows : List StoredRow) : Prop where
  ordered : rows.Pairwise fun a b => a.number < b.number
  kept : ∀ c ∈ t.columns, isRowNumber t c = true → ∀ row ∈ rows, row.cell c = .integer row.number

namespace Numbered

variable {t : Table} {rows : List StoredRow} {new : StoredRow}

theorem nil (t : Table) : Numbered t [] := ⟨.nil, by simp⟩

theorem filter (h : Numbered t rows) (p : StoredRow → Bool) : Numbered t (rows.filter p) :=
  ⟨h.ordered.filter p, fun c hc hnumber row hrow =>
    h.kept c hc hnumber row (List.mem_of_mem_filter hrow)⟩

theorem nodup (h : Numbered t rows) : (rows.map (·.number)).Nodup := by
  rw [List.Nodup, List.pairwise_map]
  exact h.ordered.imp fun hlt => Int.ne_of_lt hlt

/-- A row whose number no other has can be placed among others. -/
theorem placeRow (h : Numbered t rows) (hnew : ∀ row ∈ rows, row.number ≠ new.number)
    (hcell : ∀ c ∈ t.columns, isRowNumber t c = true → new.cell c = .integer new.number) :
    Numbered t (placeRow new rows) := by
  have hperm := placeRow_perm new rows
  refine ⟨?_, fun c hc hnumber row hrow => ?_⟩
  · have hbefore : ∀ row ∈ rows.takeWhile (fun row => row.number < new.number),
        row.number < new.number := fun row hrow => by
      simpa using List.all_eq_true.mp List.all_takeWhile row hrow
    -- What follows the first row that is not less is greater, since the rows are in order.
    have hafter : ∀ row ∈ rows.dropWhile (fun row => row.number < new.number),
        new.number < row.number := by
      have hsome := List.head?_dropWhile_not (fun row => decide (row.number < new.number)) rows
      have hordered := h.ordered.sublist (List.dropWhile_sublist fun row =>
        decide (row.number < new.number))
      have hmem : ∀ row ∈ rows.dropWhile (fun row => row.number < new.number), row ∈ rows :=
        fun row hrow => (List.dropWhile_sublist _).subset hrow
      generalize rows.dropWhile (fun row => decide (row.number < new.number)) = after at *
      cases after with
      | nil => simp
      | cons first rest =>
        have hfirst : new.number < first.number := by
          have hle : ¬ first.number < new.number := by simpa using hsome
          have hne := hnew first (hmem first List.mem_cons_self)
          omega
        refine List.forall_mem_cons.mpr ⟨hfirst, fun row hrow => ?_⟩
        have hlt := (List.pairwise_cons.mp hordered).1 row hrow
        omega
    rw [Store.placeRow, List.pairwise_append]
    refine ⟨h.ordered.sublist (List.takeWhile_sublist _),
      List.pairwise_cons.mpr ⟨hafter, h.ordered.sublist (List.dropWhile_sublist _)⟩, ?_⟩
    intro a ha b hb
    rcases List.mem_cons.mp hb with rfl | hb
    · exact hbefore a ha
    · have := hbefore a ha
      have := hafter b hb
      omega
  · rcases List.mem_cons.mp (hperm.mem_iff.mp hrow) with rfl | hrow
    · exact hcell c hc hnumber
    · exact h.kept c hc hnumber row hrow

/-- A row can be placed among others that it does not repeat. Its number is no other's: the number
is its key, or else it is new. -/
theorem placeRow_of_violation? {c : Column} (hkept : t.KeptBy c) (h : Numbered t rows)
    (hcell : isRowNumber t c = true → new.cell c = .integer new.number)
    (hfresh : t.columns.find? (isRowNumber t) = none → ∀ row ∈ rows, row.number ≠ new.number)
    (hviolation : violation? t rows new = none) : Numbered t (Store.placeRow new rows) := by
  refine h.placeRow ?_ fun col hcol hnumber => ?_
  · cases hfind : t.columns.find? (isRowNumber t) with
    | none => exact hfresh hfind
    | some col =>
      intro row hrow heq
      have hmem := List.mem_of_find?_eq_some hfind
      have hnumber := List.find?_some hfind
      obtain rfl := hkept.number col hmem hnumber
      have hrepeats := Insert.repeats_of_violation? hviolation
        (mem_uniqueGroups hkept.toKeyColumn) row hrow
      have hne := order_of_repeats (by rw [hcell hnumber]; rfl) hrepeats
      rw [hcell hnumber, h.kept col hmem hnumber row hrow, heq] at hne
      exact hne (Cell.order_self _)
  · obtain rfl := hkept.number col hcol hnumber
    exact hcell hnumber

end Numbered

/-! ## Updates -/

section Updates

variable {t : Table} {c : Column} {u : Update} {rows rows' kept todo news : List StoredRow}
  {old new : StoredRow}

/-- What an update makes of a row: the columns that it sets have what it sets, and all others keep
what they had, those aside that are computed. -/
structure Changed (t : Table) (values : Members Value) (old new : StoredRow) : Prop where
  set : ∀ col ∈ t.columns, ∀ v, Members.get? values col.name = some v →
    new.cell col = storedCell col (Binding.accepted col.declaration.type v)
  kept : ∀ col ∈ t.columns, Members.get? values col.name = none →
    col.declaration.computed = none → new.cell col = old.cell col

theorem get?_withComputed {cells cells' : Members Cell} {col : Column}
    (hnames : (t.columns.map (·.declaration.name)).Nodup) (hcol : col ∈ t.columns)
    (hgiven : col.declaration.computed = none) (h : withComputed t cells = .ok cells') :
    Members.get? cells' col.declaration.name = Members.get? cells col.declaration.name := by
  refine Insert.get?_computeCells h fun other hother hname => ?_
  obtain ⟨hmem, hcomputed⟩ := List.mem_filter.mp hother
  rw [List.inj_on_of_nodup_map hnames hmem hcol hname, hgiven] at hcomputed
  cases hcomputed

namespace Update

theorem mem_assigned {col : Column} {v : Value} :
    (col, v) ∈ u.assigned ↔ col ∈ u.table.columns ∧ Members.get? u.values col.name = some v := by
  simp only [Sql.Update.assigned, List.mem_filterMap, Option.map_eq_some_iff, Prod.mk.injEq]
  constructor
  · rintro ⟨col', hcol, v', hv, rfl, rfl⟩
    exact ⟨hcol, hv⟩
  · rintro ⟨hcol, hv⟩
    exact ⟨col, hcol, v, hv, rfl, rfl⟩

/-- An update that can be run sets no computed column. -/
theorem given_of_check (h : Update.check u = .ok ()) {col : Column} {v : Value}
    (hcol : (col, v) ∈ u.assigned) : col.declaration.computed = none := by
  obtain ⟨-, -, h⟩ := bind_eq_ok.mp h
  rw [refuseComputed] at h
  split at h
  · cases h
  · rename_i hnone
    simpa using List.find?_eq_none.mp hnone col (List.mem_map_of_mem hcol)

/-- The cells that are set, under the names of their columns. -/
def setCells (u : Update) : Members Cell :=
  u.assigned.map fun (c, v) =>
    (c.declaration.name, storedCell c (Binding.accepted c.declaration.type v))

theorem nodup_names_setCells (hnames : (u.table.columns.map (·.declaration.name)).Nodup) :
    (Members.names (setCells u)).Nodup := by
  have hsub : (Members.names (setCells u)).Sublist (u.table.columns.map (·.declaration.name)) := by
    rw [Members.names, setCells, Sql.Update.assigned, List.map_map]
    generalize u.table.columns = columns
    induction columns with
    | nil => exact .slnil
    | cons col rest ih =>
      rw [List.filterMap_cons]
      split
      · exact ih.cons _
      · rename_i x hx
        obtain ⟨v, -, rfl⟩ := Option.map_eq_some_iff.mp hx
        exact ih.cons_cons _
  exact hnames.sublist hsub

theorem not_mem_names_setCells (hnames : (u.table.columns.map (·.declaration.name)).Nodup)
    {col : Column} (hcol : col ∈ u.table.columns) (hnone : Members.get? u.values col.name = none) :
    col.declaration.name ∉ Members.names (setCells u) := by
  intro hmem
  rw [Members.names, setCells, List.map_map, List.mem_map] at hmem
  obtain ⟨⟨other, v⟩, hother, hname⟩ := hmem
  obtain ⟨hother, hv⟩ := mem_assigned.mp hother
  obtain rfl := List.inj_on_of_nodup_map hnames hother hcol hname
  rw [hnone] at hv
  cases hv

theorem changedCells_eq : changedCells u old = Members.update old.cells (setCells u) := rfl

/-- A changed row has the cells that are set, and what is computed from all of its cells. -/
theorem cells_of_changedRow (h : changedRow u old = .ok new) :
    withComputed u.table (Members.update old.cells (setCells u)) = .ok new.cells ∧
      (u.table.columns.find? (isRowNumber u.table) = none → new.number = old.number) ∧
      ∀ col, u.table.columns.find? (isRowNumber u.table) = some col →
        Members.get? (Members.update old.cells (setCells u)) col.declaration.name =
          some (.integer new.number) := by
  simp only [changedRow, changedCells_eq] at h
  split at h
  · rename_i hnone
    obtain ⟨cells, hcells, h⟩ := bind_eq_ok.mp h
    obtain rfl := pure_eq_ok.mp h
    exact ⟨hcells, fun _ => rfl, fun col hcol => by rw [hnone] at hcol; cases hcol⟩
  · rename_i col hcol
    obtain ⟨given, hgiven, h⟩ := bind_eq_ok.mp h
    split at h
    · rename_i number
      obtain ⟨cells, hcells, h⟩ := bind_eq_ok.mp h
      obtain rfl := pure_eq_ok.mp h
      refine ⟨hcells, fun hnone => ?_, fun col' hcol' => ?_⟩
      · rw [hcol] at hnone
        cases hnone
      · obtain rfl := Option.some.inj (hcol.symm.trans hcol')
        simp only [givenNumber, hcol] at hgiven
        split at hgiven
        · rename_i n hn
          obtain rfl := Option.some.inj (Except.ok.inj hgiven)
          exact (Option.getD_eq_iff.mp hn).resolve_right fun h => by cases h.2
        · cases hgiven
        · cases hgiven
    · cases h

/-- A row is changed where the update can be run. -/
theorem changed_of_changedRow (hnames : (u.table.columns.map (·.declaration.name)).Nodup)
    (hcheck : Update.check u = .ok ()) (h : changedRow u old = .ok new) :
    Changed u.table u.values old new := by
  obtain ⟨hcells, -, -⟩ := cells_of_changedRow h
  constructor
  · intro col hcol v hv
    have hmem : (col, v) ∈ u.assigned := mem_assigned.mpr ⟨hcol, hv⟩
    have hset : (col.declaration.name,
        storedCell col (Binding.accepted col.declaration.type v)) ∈ setCells u :=
      List.mem_map_of_mem hmem
    rw [StoredRow.cell, get?_withComputed hnames hcol (given_of_check hcheck hmem) hcells,
      Members.get?_update_of_mem (nodup_names_setCells hnames) hset]
    rfl
  · intro col hcol hnone hgiven
    rw [StoredRow.cell, get?_withComputed hnames hcol hgiven hcells,
      Members.get?_update_of_not_mem (not_mem_names_setCells hnames hcol hnone)]
    rfl

/-- The column that stands for the number of a row has it after an update. -/
theorem cell_of_number (hkept : u.table.KeptBy c) (h : changedRow u old = .ok new)
    (hnumber : isRowNumber u.table c = true) : new.cell c = .integer new.number := by
  obtain ⟨hcells, -, hset⟩ := cells_of_changedRow h
  have hfind := find?_isRowNumber hkept.toKeyColumn hnumber
  rw [StoredRow.cell, get?_withComputed hkept.names hkept.mem hkept.given hcells, hset c hfind]
  rfl

theorem changeRow_eq_ok (h : changeRow u rows old = .ok (rows', new)) :
    changedRow u old = .ok new ∧
      violation? u.table (rows.filter fun row => row.number ≠ old.number) new = none ∧
      rows' = placeRow new (rows.filter fun row => row.number ≠ old.number) := by
  obtain ⟨new', hnew, h⟩ := bind_eq_ok.mp h
  dsimp only at h
  split at h
  · cases h
  · rename_i hviolation
    obtain ⟨rfl, rfl⟩ := Prod.mk.inj (pure_eq_ok.mp h)
    exact ⟨hnew, hviolation, rfl⟩

/-- Without the rows of one number there is one row less. -/
theorem filter_number_perm {others : List StoredRow} (h : Numbered t rows)
    (hperm : rows.Perm (old :: others)) :
    (rows.filter fun row => row.number ≠ old.number).Perm others := by
  have hnodup : ((old :: others).map (·.number)).Nodup := (hperm.map _).nodup_iff.mp h.nodup
  have hapart := (List.nodup_cons.mp hnodup).1
  have hothers : others.filter (fun row => row.number ≠ old.number) = others :=
    List.filter_eq_self.mpr fun row hrow => by
      simpa using fun heq => hapart (List.mem_map.mpr ⟨row, hrow, heq⟩)
  have hfound := hperm.filter fun row => decide (row.number ≠ old.number)
  rwa [List.filter_cons_of_neg (by simp), hothers] at hfound

/-- Changing a row keeps rows in the order of their numbers. -/
theorem numbered_of_changedRow {others : List StoredRow} (hkept : u.table.KeptBy c)
    (hnumbered : Numbered u.table others) (hold : ∀ row ∈ others, row.number ≠ old.number)
    (h : changedRow u old = .ok new) (hviolation : violation? u.table others new = none) :
    Numbered u.table (placeRow new others) :=
  hnumbered.placeRow_of_violation? hkept (cell_of_number hkept h)
    (fun hnone row hrow => (cells_of_changedRow h).2.1 hnone ▸ hold row hrow) hviolation

/-- Rows that are changed one after the other take the places of those that they were, as if they
had been added to the rows that are not changed. -/
theorem changeRows_eq_ok (hkept : u.table.KeptBy c) (hnumbered : Numbered u.table rows)
    (hperm : rows.Perm (kept ++ todo)) (h : changeRows u rows todo = .ok (rows', news)) :
    List.Forall₂ (fun old new => changedRow u old = .ok new) todo news ∧
      Insert.Adds u.table kept news rows' ∧ Numbered u.table rows' := by
  induction todo generalizing rows kept news with
  | nil =>
    obtain ⟨rfl, rfl⟩ := Prod.mk.inj (Except.ok.inj h)
    exact ⟨.nil, ⟨hperm, by simp, by simp⟩, hnumbered⟩
  | cons old rest ih =>
    rw [changeRows] at h
    obtain ⟨⟨middle, new⟩, hfirst, h⟩ := bind_eq_ok.mp h
    obtain ⟨⟨last, more⟩, hrest, h⟩ := bind_eq_ok.mp h
    obtain ⟨rfl, rfl⟩ := Prod.mk.inj (pure_eq_ok.mp h)
    obtain ⟨hnew, hviolation, rfl⟩ := changeRow_eq_ok hfirst
    have hothers := filter_number_perm hnumbered (hperm.trans List.perm_middle)
    have hold : ∀ row ∈ rows.filter fun row => row.number ≠ old.number,
        row.number ≠ old.number := fun row hrow => by simpa using (List.mem_filter.mp hrow).2
    have hplaced : (placeRow new (rows.filter fun row => row.number ≠ old.number)).Perm
        ((kept ++ [new]) ++ rest) := by
      refine (placeRow_perm new _).trans ((hothers.cons new).trans ?_)
      rw [List.append_assoc, List.singleton_append]
      exact List.perm_middle.symm
    obtain ⟨hchanged, hadds, hafter⟩ := ih
      (numbered_of_changedRow hkept (hnumbered.filter _) hold hnew hviolation) hplaced hrest
    have hone : Insert.Adds u.table kept [new] (kept ++ [new]) := by
      refine ⟨.rfl, ?_, fun _ _ => List.pairwise_singleton _ _⟩
      intro cs hcs new' hnew' row hrow
      obtain rfl := List.mem_singleton.mp hnew'
      exact Insert.repeats_of_violation? hviolation hcs row
        (hothers.mem_iff.mpr (List.mem_append_left _ hrow))
    exact ⟨.cons hnew hchanged, hone.append hadds, hafter⟩

end Update

end Updates

/-! ## What is left in the database -/

section Left

variable {t : Table} {c : Column} {values : Members Value} {p : Option Predicate}
  {db db' : Database} {news gone : List StoredRow} {keys : List Value}

/-- What an update leaves in a database: the rows for which its predicate held are changed, and all
others, also those of other tables, are as they were. -/
structure Updated (t : Table) (values : Members Value) (p : Option Predicate) (db db' : Database)
    (news : List StoredRow) : Prop where
  changed : List.Forall₂ (Changed t values) ((db.rows t).filter (meets t p)) news
  rows : (db'.rows t).Perm ((db.rows t).filter (fun row => !meets t p row) ++ news)
  others : ∀ other : Table, other.declaration.name ≠ t.declaration.name →
    db'.rows other = db.rows other

/-- What a deletion leaves in a database: the rows for which its predicate held are gone, and all
others, also those of other tables, are as they were. -/
structure Deleted (t : Table) (p : Option Predicate) (db db' : Database) : Prop where
  rows : db'.rows t = (db.rows t).filter fun row => !meets t p row
  others : ∀ other : Table, other.declaration.name ≠ t.declaration.name →
    db'.rows other = db.rows other

theorem Update.ofPredicate_eq_ok {u : Update} (h : Update.ofPredicate t values p = .ok u) :
    u.table = t ∧ u.values = values ∧
      ∀ row, (rowTruth u.condition row).holds = meets t p row := by
  obtain ⟨condition, hcondition, h⟩ := bind_eq_ok.mp h
  obtain ⟨-, -, h⟩ := bind_eq_ok.mp h
  obtain rfl := pure_eq_ok.mp h
  exact ⟨rfl, rfl, holds_of_ofPredicate? hcondition⟩

/-- An update changes the rows of its table that it is about. -/
theorem Update.rows_of_run {u : Update} (h : Update.run db u = .ok (db', news)) :
    changeRows u (db.rows u.table) (chosen db u) = .ok (db'.rows u.table, news) ∧
      ∀ other : Table, other.declaration.name ≠ u.table.declaration.name →
        db'.rows other = db.rows other := by
  obtain ⟨-, -, h⟩ := bind_eq_ok.mp h
  obtain ⟨⟨rows, news'⟩, hchanged, h⟩ := bind_eq_ok.mp h
  obtain ⟨rfl, rfl⟩ := Prod.mk.inj (pure_eq_ok.mp h)
  rw [Database.rows_setRows_self]
  exact ⟨hchanged, fun other hother => Database.rows_setRows_of_ne hother⟩

/-- Rows are those that an update is not about, and those that it is about. -/
theorem Update.rows_perm_chosen (db : Database) (u : Update) : (db.rows u.table).Perm
    ((db.rows u.table).filter (fun row => !(rowTruth u.condition row).holds) ++ chosen db u) :=
  (List.perm_append_comm.trans (List.filter_append_perm _ _)).symm

/-- What an update writes. The new rows are as if they had been added to those that the update is
not about. -/
theorem Update.run_eq_ok {u : Update} (hkept : t.KeptBy c)
    (hu : Update.ofPredicate t values p = .ok u) (hcheck : Update.check u = .ok ())
    (hnumbered : Numbered t (db.rows t)) (h : Update.run db u = .ok (db', news)) :
    Updated t values p db db' news ∧
      Insert.Adds t ((db.rows t).filter fun row => !meets t p row) news (db'.rows t) ∧
      Numbered t (db'.rows t) := by
  obtain ⟨rfl, rfl, hholds⟩ := Update.ofPredicate_eq_ok hu
  obtain ⟨hchanged, hothers⟩ := Update.rows_of_run h
  obtain ⟨hmade, hadds, hafter⟩ :=
    changeRows_eq_ok hkept hnumbered (Update.rows_perm_chosen db u) hchanged
  simp only [chosen, hholds] at hmade hadds
  exact ⟨⟨hmade.imp fun _ _ => changed_of_changedRow hkept.names hcheck, hadds.perm, hothers⟩,
    hadds, hafter⟩

theorem Delete.ofPredicate_eq_ok {d : Delete} {names : List String}
    (h : Delete.ofPredicate t p names = .ok d) : d.table = t ∧
      (returnedNames t names).mapM t.column = .ok d.columns ∧
      ∀ row, (rowTruth d.condition row).holds = meets t p row := by
  obtain ⟨condition, hcondition, h⟩ := bind_eq_ok.mp h
  obtain ⟨columns, hcolumns, h⟩ := bind_eq_ok.mp h
  obtain rfl := pure_eq_ok.mp h
  exact ⟨rfl, hcolumns, holds_of_ofPredicate? hcondition⟩

/-- What a deletion takes away. -/
theorem Delete.run_eq_ok {d : Delete} {names : List String}
    (hd : Delete.ofPredicate t p names = .ok d) (h : Delete.run db d = .ok (db', gone)) :
    Deleted t p db db' ∧ gone = (db.rows t).filter (meets t p) := by
  obtain ⟨rfl, -, hholds⟩ := Delete.ofPredicate_eq_ok hd
  obtain ⟨-, -, h⟩ := bind_eq_ok.mp h
  simp only [List.partition_eq_filter_filter, hholds] at h
  obtain ⟨rfl, rfl⟩ := Prod.mk.inj (pure_eq_ok.mp h)
  refine ⟨⟨?_, fun other hother => Database.rows_setRows_of_ne hother⟩, rfl⟩
  rw [Database.rows_setRows_self]
  rfl

end Left

/-! ## Through the storage -/

namespace Storage

section Calls

variable {α : Type} {t : Table} {c : Column} {values : Members Value} {p : Option Predicate}
  {db db' : Database} {s s' : Storage} {access : Access} {keys : List Value}

theorem check_of_boundCells {check : Except Refusal Unit} {phrase : Phrase} {cells : List Cell}
    (h : boundCells check phrase = .ok cells) : check = .ok () := by
  obtain ⟨_, -, h⟩ := bind_eq_ok.mp h
  obtain ⟨_, hcheck, -⟩ := bind_eq_ok.mp h
  exact hcheck

theorem updateResult_eq_ok {u : Update} {result : Except Refusal (List Value)}
    (h : updateResult db u = .ok (db', result)) : Update.check u = .ok () ∧
      ∃ news, Update.run db u = .ok (db', news) ∧ result = writtenKeys u.table news := by
  rw [updateResult] at h
  split at h
  · cases h
  · obtain ⟨_, hbound, h⟩ := bind_eq_ok.mp h
    obtain ⟨⟨db'', news⟩, hrun, h⟩ := bind_eq_ok.mp h
    obtain ⟨rfl, rfl⟩ := Prod.mk.inj (pure_eq_ok.mp h)
    exact ⟨check_of_boundCells hbound, news, hrun, rfl⟩

theorem deleteResult_eq_ok {d : Delete} {result : Except Refusal (List Value)}
    (h : deleteResult db d = .ok (db', result)) :
    ∃ gone, Delete.run db d = .ok (db', gone) ∧ result = writtenRows d.columns gone := by
  obtain ⟨_, -, h⟩ := bind_eq_ok.mp h
  obtain ⟨⟨db'', gone⟩, hrun, h⟩ := bind_eq_ok.mp h
  obtain ⟨rfl, rfl⟩ := Prod.mk.inj (pure_eq_ok.mp h)
  exact ⟨gone, hrun, rfl⟩

/-- All that a storage holds is committed. -/
def Settled (s : Storage) (db : Database) : Prop := s.committed = db ∧ s.working = db

theorem Settled.seen_eq (h : Settled s db) (access : Access) : s.seen access = db := by
  cases access
  · exact h.1
  · exact h.2

/-- A write that goes well is committed. -/
theorem settleWrite_eq_ok {table : String} {outcome : Except Refusal (Change α)} {a : α}
    (h : settleWrite table outcome s = (.ok a, s')) :
    ∃ db, outcome = .ok (db, .ok a) ∧ Settled s' db := by
  rw [settleWrite.eq_def] at h
  dsimp only at h
  split at h
  · obtain ⟨ha, rfl⟩ := Prod.mk.inj h
    obtain rfl := Except.ok.inj ha
    exact ⟨_, rfl, rfl, rfl⟩
  · cases (Prod.mk.inj h).1
  · cases (Prod.mk.inj h).1

/-- What a call has settled when it goes well stays settled when its session ends. -/
theorem inSession_settled {call : Storage → Outcome α} {a : α}
    (h : s.inSession access call = (.ok a, s')) :
    ∃ before after, access.hasSession = true ∧ before.working = s.seen access ∧
      call before = (.ok a, after) ∧ ∀ db, Settled after db → Settled s' db := by
  cases access with
  | own =>
    rcases hcall : call s.rollback with ⟨outcome, after⟩
    rw [inSession, hcall] at h
    obtain ⟨rfl, rfl⟩ := Prod.mk.inj h
    exact ⟨s.rollback, after, rfl, rfl, hcall, fun db hdb => ⟨hdb.1, hdb.1⟩⟩
  | borrowed carrier =>
    simp only [inSession] at h
    split at h
    · rename_i hsession
      exact ⟨s, s', hsession, rfl, h, fun _ hdb => hdb⟩
    · cases (Prod.mk.inj h).1

/-- An update that goes well has changed the rows for which its predicate held in the database that
it saw, and has committed them; it gives their keys. -/
theorem update_eq_ok (hkept : t.KeptBy c) (hnumbered : Numbered t ((s.seen access).rows t))
    (h : Storage.update t access values p s = (.ok keys, s')) :
    ∃ db news, access.hasSession = true ∧ Settled s' db ∧
      Updated t values p (s.seen access) db news ∧
      Insert.Adds t (((s.seen access).rows t).filter fun row => !meets t p row) news (db.rows t) ∧
      Numbered t (db.rows t) ∧
      List.Forall₂ (fun new key => keyOf t new = .ok key) news keys := by
  obtain ⟨before, after, hsession, hseen, hcall, hafter⟩ := inSession_settled h
  rw [hseen] at hcall
  split at hcall
  · cases (Prod.mk.inj hcall).1
  · rename_i u hu
    obtain ⟨db, hresult, hsettled⟩ := settleWrite_eq_ok hcall
    obtain ⟨hcheck, news, hrun, hkeys⟩ := updateResult_eq_ok hresult
    obtain ⟨hupdated, hadds, hnumbered'⟩ := Update.run_eq_ok hkept hu hcheck hnumbered hrun
    rw [(Update.ofPredicate_eq_ok hu).1] at hkeys
    exact ⟨db, news, hsession, hafter db hsettled, hupdated, hadds, hnumbered',
      writtenKeys_eq_ok hkeys.symm⟩

/-- A deletion that goes well has taken away the rows for which its predicate held in the database
that it saw, and has committed that; it gives these rows as callers see them. -/
theorem delete_eq_ok {r : Registry} {n : Node} {rows : List Value}
    (h : Storage.delete r t access n s = (.ok rows, s')) :
    ∃ db columns fetched, access.hasSession = true ∧ Settled s' db ∧
      Deleted t n.condition (s.seen access) db ∧
      (returnedNames t n.columns).mapM t.column = .ok columns ∧
      writtenRows columns (((s.seen access).rows t).filter (meets t n.condition)) = .ok fetched ∧
      Hydration.rows r n fetched = .ok rows := by
  have hdelete : Storage.delete r t access n s =
      ((s.inSession access (deleteCall t n)).1.bind (Hydration.rows r n),
        (s.inSession access (deleteCall t n)).2) := rfl
  rcases hcall : s.inSession access (deleteCall t n) with ⟨outcome, s''⟩
  rw [hcall] at hdelete
  obtain ⟨hrows, rfl⟩ := Prod.mk.inj (hdelete.symm.trans h)
  obtain ⟨fetched, rfl, hrows⟩ := bind_eq_ok.mp hrows
  obtain ⟨before, after, hsession, hseen, hcall, hafter⟩ := inSession_settled hcall
  rw [deleteCall, hseen] at hcall
  split at hcall
  · cases (Prod.mk.inj hcall).1
  · rename_i d hd
    obtain ⟨db, hresult, hsettled⟩ := settleWrite_eq_ok hcall
    obtain ⟨gone, hrun, hfetched⟩ := deleteResult_eq_ok hresult
    obtain ⟨hdeleted, rfl⟩ := Delete.run_eq_ok hd hrun
    exact ⟨db, d.columns, fetched, hsession, hafter db hsettled, hdeleted,
      (Delete.ofPredicate_eq_ok hd).2.1, hfetched.symm, hrows⟩

/-- An update in a session of its own commits what its statement writes. -/
theorem update_of_run {u : Update} {news : List StoredRow}
    (hu : Update.ofPredicate t values p = .ok u) (hshared : u.sharedName? = none)
    (hbound : (boundCells (Update.check u) (Dialect.sqlite.update u)).toOption.isSome)
    (hrun : Update.run s.committed u = .ok (db, news))
    (hkeys : writtenKeys u.table news = .ok keys) :
    Storage.update t .own values p s = (.ok keys, ⟨db, db, s.statements + 1⟩) := by
  obtain ⟨cells, hcells⟩ := eq_ok_of_isSome hbound
  have hresult : updateResult s.committed u = .ok (db, .ok keys) := by
    rw [updateResult, hshared]
    dsimp only
    rw [bind_of_eq_ok hcells, bind_of_eq_ok hrun]
    exact congrArg (fun keys => Except.ok (db, keys)) hkeys
  rw [Storage.update, inSession, hu]
  dsimp only [rollback]
  rw [hresult]
  rfl

/-- A deletion in a session of its own commits what its statement takes away. -/
theorem delete_of_run {r : Registry} {n : Node} {d : Delete} {gone : List StoredRow}
    {fetched rows : List Value} (hd : Delete.ofPredicate t n.condition n.columns = .ok d)
    (hbound : (boundCells (Delete.checkSize d) (Dialect.sqlite.delete d)).toOption.isSome)
    (hrun : Delete.run s.committed d = .ok (db, gone))
    (hfetched : writtenRows d.columns gone = .ok fetched)
    (hrows : Hydration.rows r n fetched = .ok rows) :
    Storage.delete r t .own n s = (.ok rows, ⟨db, db, s.statements + 1⟩) := by
  obtain ⟨cells, hcells⟩ := eq_ok_of_isSome hbound
  have hresult : deleteResult s.committed d = .ok (db, .ok fetched) := by
    rw [deleteResult, bind_of_eq_ok hcells, bind_of_eq_ok hrun]
    exact congrArg (fun rows => Except.ok (db, rows)) hfetched
  have hcall : s.inSession .own (deleteCall t n) = (.ok fetched, ⟨db, db, s.statements + 1⟩) := by
    rw [inSession, deleteCall, hd]
    dsimp only [rollback]
    rw [hresult]
    rfl
  show ((s.inSession .own (deleteCall t n)).1.bind (Hydration.rows r n),
    (s.inSession .own (deleteCall t n)).2) = _
  rw [hcall]
  exact congrArg (fun rows => (rows, (⟨db, db, s.statements + 1⟩ : Storage))) hrows

end Calls

end Storage

end RelGraph.Store
