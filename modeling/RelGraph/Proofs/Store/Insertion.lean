import RelGraph.Store.Storage
import RelGraph.Proofs.Outcome
import RelGraph.Proofs.Members
import RelGraph.Proofs.Store.Grouping
/-!
What inserts write. An insert adds to a table one row for each row that it is given, and leaves all
others, and all other tables, as they were; no new row repeats what may not repeat. Rows that name
different columns are written by inserts one after the other, which together add all of them.
-/
namespace RelGraph.Store

open Sql Outcome

namespace Database

variable {db : Database} {t u : Table} {rows : List StoredRow}

theorem rows_setRows_self : (db.setRows t rows).rows t = rows := by
  rw [Database.rows, setRows, Members.get?_put_self, Option.getD_some]

theorem rows_setRows_of_ne (h : u.declaration.name ≠ t.declaration.name) :
    (db.setRows t rows).rows u = db.rows u := by
  rw [Database.rows, setRows, Members.get?_put_of_ne _ _ h, Database.rows]

end Database

theorem placeRow_perm (new : StoredRow) (rows : List StoredRow) :
    (placeRow new rows).Perm (new :: rows) := by
  rw [placeRow]
  refine List.perm_middle.trans (List.Perm.cons new ?_)
  rw [List.takeWhile_append_dropWhile]

namespace Insert

/-- A stored row is made of what an inserted row gives: its cells, with the number that they give it
or else one of its own, and with what is computed from them. -/
structure Makes (s : Insert) (row : Members Value) (new : StoredRow) : Prop where
  made : ∃ cells given, newCells s row = .ok cells ∧ givenNumber s.table cells = .ok given ∧
    (∀ number, given = some number → new.number = number) ∧
    withComputed s.table (numbered s.table new.number cells) = .ok new.cells

variable {s : Insert} {rows rows' : List StoredRow} {row : Members Value} {new : StoredRow}

theorem addRow_eq_ok (h : addRow s rows row = .ok (rows', new)) :
    Makes s row new ∧ violation? s.table rows new = none ∧ rows' = placeRow new rows := by
  obtain ⟨cells, hcells, h⟩ := bind_eq_ok.mp h
  obtain ⟨given, hgiven, h⟩ := bind_eq_ok.mp h
  obtain ⟨computed, hcomputed, h⟩ := bind_eq_ok.mp h
  dsimp only at h
  split at h
  · cases h
  · rename_i hviolation
    obtain ⟨rfl, rfl⟩ := Prod.mk.inj (pure_eq_ok.mp h)
    refine ⟨⟨cells, given, hcells, hgiven, ?_, hcomputed⟩, hviolation, rfl⟩
    rintro number rfl
    rfl

/-- What does not violate a table repeats none of its groups of unique columns. -/
theorem repeats_of_violation? {t : Table} (h : violation? t rows new = none) {cs : List Column}
    (hcs : cs ∈ uniqueGroups t) : ∀ other ∈ rows, repeats cs new other = false := by
  rw [violation?] at h
  split at h
  · cases h
  · split at h
    · cases h
    · rename_i hnone
      intro other hother
      have hany := List.find?_eq_none.mp hnone cs hcs
      exact Bool.eq_false_iff.mpr fun hrepeats =>
        hany (List.any_eq_true.mpr ⟨other, hother, hrepeats⟩)

/-- What inserts add to rows: a row for each of those that are inserted, none of which repeats what
may not repeat of the rows before it. -/
structure Adds (t : Table) (rows news rows' : List StoredRow) : Prop where
  perm : rows'.Perm (rows ++ news)
  apart : ∀ cs ∈ uniqueGroups t, ∀ new ∈ news, ∀ old ∈ rows, repeats cs new old = false
  pairwise : ∀ cs ∈ uniqueGroups t, news.Pairwise fun a b => repeats cs b a = false

theorem Adds.nil {t : Table} : Adds t rows [] rows :=
  ⟨by simp, by simp, fun _ _ => .nil⟩

theorem Adds.append {t : Table} {news more rows'' : List StoredRow} (h : Adds t rows news rows')
    (h' : Adds t rows' more rows'') : Adds t rows (news ++ more) rows'' := by
  have hmem : ∀ r, r ∈ rows' ↔ r ∈ rows ∨ r ∈ news := fun r => by
    rw [h.perm.mem_iff, List.mem_append]
  refine ⟨?_, fun cs hcs new hnew old hold => ?_, fun cs hcs => ?_⟩
  · rw [← List.append_assoc]
    exact h'.perm.trans (h.perm.append_right more)
  · rcases List.mem_append.mp hnew with hnew | hnew
    · exact h.apart cs hcs new hnew old hold
    · exact h'.apart cs hcs new hnew old ((hmem old).mpr (.inl hold))
  · refine List.pairwise_append.mpr ⟨h.pairwise cs hcs, h'.pairwise cs hcs, ?_⟩
    exact fun a ha b hb => h'.apart cs hcs b hb a ((hmem a).mpr (.inr ha))

theorem adds_addRow (h : addRow s rows row = .ok (rows', new)) :
    Adds s.table rows [new] rows' := by
  obtain ⟨-, hviolation, rfl⟩ := addRow_eq_ok h
  refine ⟨?_, fun cs hcs new' hnew => ?_, fun _ _ => List.pairwise_singleton _ _⟩
  · exact (placeRow_perm new rows).trans (List.perm_append_singleton new rows).symm
  · obtain rfl := List.mem_singleton.mp hnew
    exact repeats_of_violation? hviolation hcs

theorem addRows_eq_ok {news : List StoredRow} {given : List (Members Value)}
    (h : addRows s rows given = .ok (rows', news)) :
    List.Forall₂ (Makes s) given news ∧ Adds s.table rows news rows' := by
  induction given generalizing rows news with
  | nil =>
    obtain ⟨rfl, rfl⟩ := Prod.mk.inj (Except.ok.inj h)
    exact ⟨.nil, .nil⟩
  | cons row rest ih =>
    rw [addRows] at h
    obtain ⟨⟨middle, new⟩, hfirst, h⟩ := bind_eq_ok.mp h
    obtain ⟨⟨last, more⟩, hrest, h⟩ := bind_eq_ok.mp h
    obtain ⟨rfl, rfl⟩ := Prod.mk.inj (pure_eq_ok.mp h)
    obtain ⟨hmade, hadds⟩ := ih hrest
    exact ⟨.cons (addRow_eq_ok hfirst).1 hmade, (adds_addRow hfirst).append hadds⟩

/-- What an insert writes. -/
theorem run_eq_ok {db db' : Database} {news : List StoredRow} (h : run db s = .ok (db', news)) :
    List.Forall₂ (Makes s) s.rows news ∧ Adds s.table (db.rows s.table) news (db'.rows s.table) ∧
      ∀ u : Table, u.declaration.name ≠ s.table.declaration.name → db'.rows u = db.rows u := by
  obtain ⟨-, -, h⟩ := bind_eq_ok.mp h
  obtain ⟨⟨rows, news'⟩, hadded, h⟩ := bind_eq_ok.mp h
  obtain ⟨rfl, rfl⟩ := Prod.mk.inj (pure_eq_ok.mp h)
  obtain ⟨hmade, hadds⟩ := addRows_eq_ok hadded
  rw [Database.rows_setRows_self]
  exact ⟨hmade, hadds, fun u hu => Database.rows_setRows_of_ne hu⟩

end Insert

/-! ## Runs of rows -/

/-- What the inserts of some runs of rows write, one after the other. -/
def written (t : Table) (db : Database) : List (List (Members Value)) → Written
  | [] => .ok (db, [])
  | run :: rest => do
    let (db, news) ← Insert.run db ⟨t, run⟩
    let (db, more) ← written t db rest
    return (db, news ++ more)

/-- A stored row is made of a row of one of some runs. -/
def NewRow (t : Table) (runs : List (List (Members Value))) (row : Members Value)
    (new : StoredRow) : Prop :=
  ∃ run ∈ runs, row ∈ run ∧ Insert.Makes ⟨t, run⟩ row new

variable {t : Table} {db db' : Database} {news : List StoredRow}
  {runs : List (List (Members Value))}

theorem forall₂_with_mem {α β : Type} {R : α → β → Prop} {l : List α} {bs : List β}
    (h : List.Forall₂ R l bs) : List.Forall₂ (fun a b => a ∈ l ∧ R a b) l bs := by
  induction h with
  | nil => exact .nil
  | cons hab _ ih => exact .cons ⟨by simp, hab⟩ (ih.imp fun _ _ h => ⟨by simp [h.1], h.2⟩)

theorem written_eq_ok (h : written t db runs = .ok (db', news)) :
    List.Forall₂ (NewRow t runs) runs.flatten news ∧
      Insert.Adds t (db.rows t) news (db'.rows t) ∧
      ∀ u : Table, u.declaration.name ≠ t.declaration.name → db'.rows u = db.rows u := by
  induction runs generalizing db news with
  | nil =>
    obtain ⟨rfl, rfl⟩ := Prod.mk.inj (Except.ok.inj h)
    exact ⟨.nil, .nil, fun _ _ => rfl⟩
  | cons run rest ih =>
    rw [written] at h
    obtain ⟨⟨middle, first⟩, hfirst, h⟩ := bind_eq_ok.mp h
    obtain ⟨⟨last, more⟩, hrest, h⟩ := bind_eq_ok.mp h
    obtain ⟨rfl, rfl⟩ := Prod.mk.inj (pure_eq_ok.mp h)
    obtain ⟨hmade, hadds, hothers⟩ := Insert.run_eq_ok hfirst
    obtain ⟨hmade', hadds', hothers'⟩ := ih hrest
    refine ⟨?_, hadds.append hadds', fun u hu => (hothers' u hu).trans (hothers u hu)⟩
    rw [List.flatten_cons]
    refine List.rel_append ?_ ?_
    · exact (forall₂_with_mem hmade).imp fun row new h => ⟨run, by simp, h.1, h.2⟩
    · exact hmade'.imp fun row new ⟨run', hrun, hrow, h⟩ => ⟨run', by simp [hrun], hrow, h⟩

/-- The rows that inserts of some rows add to a table, in order; none where they are refused. -/
def newRows (t : Table) (db : Database) (rows : List (Members Value)) : List StoredRow :=
  match written t db (runsOf rows) with
  | .ok (_, news) => news
  | .error _ => []

theorem newRows_of_written {rows : List (Members Value)}
    (h : written t db (runsOf rows) = .ok (db', news)) : newRows t db rows = news := by
  rw [newRows, h]

end RelGraph.Store
