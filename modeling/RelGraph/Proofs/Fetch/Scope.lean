import RelGraph.Proofs.Fetch.Sources
/-!
What references mean. A reference finds the nearest row that goes by its source. Where a way of
referring tells the sources of a statement apart, it finds the row that is meant: the row of the
level itself, or a row of a level above that nothing in between hides.
-/
namespace RelGraph.Sql

namespace Source

/-- The name of a source as a statement tells names apart. -/
def plainName (s : Source) : String := s.name.toLower

/-- Whether rows of a source stay in sight of the levels below. Those of a related table do not:
the levels below see them through a subquery. -/
def staysInSight : Source → Bool
  | again _ => false
  | _ => true

private theorem lower_digits (n : Nat) :
    (Nat.toDigits 10 n).map Char.toLower = Nat.toDigits 10 n := by
  conv_rhs => rw [← List.map_id (Nat.toDigits 10 n)]
  refine List.map_congr_left fun c hc => ?_
  have hdigit := Nat.isDigit_of_mem_toDigits (by decide) (by decide) hc
  have hupper : ¬ (c.val ≥ 'A'.val ∧ c.val ≤ 'Z'.val) := by
    simp only [Char.isDigit, Bool.and_eq_true, decide_eq_true_eq] at hdigit
    grind
  exact dif_neg hupper

private theorem toList_plain (letter : Char) (s : String) (n : Nat) (hs : s.toList = [letter])
    (hletter : letter.toLower = letter) :
    (s ++ toString n).toLower.toList = letter :: Nat.toDigits 10 n := by
  show ((s ++ toString n).map Char.toLower).toList = _
  rw [String.toList_map, String.toList_append, hs, Nat.toString_eq_repr, Nat.toList_repr,
    List.map_append, lower_digits]
  simp [hletter]

theorem toList_plainName_again (n : Nat) :
    (again n).plainName.toList = 't' :: Nat.toDigits 10 n :=
  toList_plain 't' "t" n rfl rfl

theorem toList_plainName_derived (n : Nat) :
    (derived n).plainName.toList = 's' :: Nat.toDigits 10 n :=
  toList_plain 's' "s" n rfl rfl

private theorem toDigits_inj {m n : Nat} (h : Nat.toDigits 10 m = Nat.toDigits 10 n) : m = n := by
  rw [← Nat.ofDigitChars_ten_toDigits (n := m), h, Nat.ofDigitChars_ten_toDigits]

/-- Numbered sources go by names of their own. -/
theorem eq_of_plainName_eq {a b : Source} (ha : ∀ name, a ≠ .table name)
    (hb : ∀ name, b ≠ .table name) (h : a.plainName = b.plainName) : a = b := by
  -- The first letter tells again from derived, and the digits tell the numbers.
  have h := congrArg String.toList h
  cases a with
  | table name => exact absurd rfl (ha name)
  | again m =>
    cases b with
    | table name => exact absurd rfl (hb name)
    | again n =>
      rw [toList_plainName_again, toList_plainName_again] at h
      exact congrArg again (toDigits_inj (List.cons.inj h).2)
    | derived n =>
      rw [toList_plainName_again, toList_plainName_derived] at h
      exact absurd (List.cons.inj h).1 (by decide)
  | derived m =>
    cases b with
    | table name => exact absurd rfl (hb name)
    | again n =>
      rw [toList_plainName_derived, toList_plainName_again] at h
      exact absurd (List.cons.inj h).1 (by decide)
    | derived n =>
      rw [toList_plainName_derived, toList_plainName_derived] at h
      exact congrArg derived (toDigits_inj (List.cons.inj h).2)

end Source

namespace Fetch

open Outcome

mutual

/-- The sources of relations are numbered. -/
theorem numbered_of_gathered {r : Registry} {above : Table} {aboveSource : Source}
    {number next : Nat} {g : Gathered} (n : Node)
    (h : gathered r above aboveSource number n = .ok (g, next)) :
    ∀ s ∈ g.sources, ∀ name, s ≠ .table name := by
  obtain ⟨target, rel, exposed, rows, columns, nested, -, -, -, hrows, -, hnested, rfl⟩ :=
    gathered_eq_ok h
  obtain ⟨_, _, _, -, -, -, rfl⟩ := relatedRows_eq_ok.mp hrows
  match n, hnested with
  | ⟨_, _, _, _, _, _, _, relations, _⟩, hnested =>
    simp only [Gathered.sources, List.forall_mem_cons]
    exact ⟨by simp, by simp, numbered_of_gatheredAll relations hnested⟩

theorem numbered_of_gatheredAll {r : Registry} {above : Table} {aboveSource : Source}
    {number next : Nat} {nested : List (String × Gathered)} (relations : List (String × Node))
    (h : gatheredAll r above aboveSource number relations = .ok (nested, next)) :
    ∀ s ∈ sourcesOf nested, ∀ name, s ≠ .table name := by
  match relations with
  | [] =>
    obtain ⟨rfl, -⟩ := Prod.mk.inj (pure_eq_ok.mp h)
    simp [sourcesOf]
  | (key, child) :: rest =>
    obtain ⟨g, middle, others, hg, hothers, rfl⟩ := gatheredAll_cons_eq_ok h
    rw [sourcesOf, List.forall_mem_append]
    exact ⟨numbered_of_gathered child hg, numbered_of_gatheredAll rest hothers⟩

end

/-- No source of a relation goes by the name of the table of the root. -/
def RootApart (f : Fetch) : Prop :=
  ∀ s ∈ sourcesOf f.nested, s.plainName ≠ f.rows.source.plainName

end Fetch
end RelGraph.Sql

namespace RelGraph.Store

open Sql Direct

/-! ## Telling sources apart -/

/-- A way of referring tells sources apart: a reference to one of them means no other. -/
def Scoping.TellsApart (how : Scoping) (sources : List Source) : Prop :=
  ∀ a ∈ sources, ∀ b ∈ sources, how.admits a b → a = b

theorem Scoping.admits_self (how : Scoping) (s : Source) : how.admits s s = true := by
  cases how <;> simp [admits]

/-- What a reference means tells all sources apart. -/
theorem Scoping.tellsApart_bySource (sources : List Source) : bySource.TellsApart sources := by
  intro a _ b _ h
  simpa [admits] using h

/-- Names tell the sources of a statement apart if that of the root is not one of the others. -/
theorem Scoping.tellsApart_byName {root : String} {sources : List Source}
    (hnumbered : ∀ s ∈ sources, ∀ name, s ≠ .table name)
    (hroot : ∀ s ∈ sources, s.plainName ≠ (Source.table root).plainName) :
    byName.TellsApart (.table root :: sources) := by
  intro a ha b hb h
  replace h : a.plainName = b.plainName := by simpa [admits, Source.plainName] using h
  -- Only the root is not numbered, and its name is not that of a numbered source.
  rcases List.mem_cons.mp ha with rfl | ha <;> rcases List.mem_cons.mp hb with rfl | hb
  · rfl
  · exact absurd h.symm (hroot b hb)
  · exact absurd h (hroot a ha)
  · exact Source.eq_of_plainName_eq (hnumbered a ha) (hnumbered b hb) h

/-- Names tell the sources of a statement apart unless the root is named like one of the others. -/
theorem Scoping.tellsApart_of_rootApart {r : Registry} {n : Node} {f : Fetch}
    (h : Fetch.ofNode r n = .ok f) (hroot : f.RootApart) : byName.TellsApart f.sources := by
  obtain ⟨t, own, nested, next, rows, -, -, hnested, hrows, rfl⟩ := Fetch.ofNode_eq_ok h
  have hsource : rows.source = .table t.declaration.name := by
    obtain ⟨_, _, -, -, rfl⟩ := Fetch.rowsOf_eq_ok hrows
    rfl
  rw [Fetch.RootApart] at hroot
  simp only [Fetch.sources, hsource] at hroot ⊢
  exact tellsApart_byName (Fetch.numbered_of_gatheredAll n.relations hnested) hroot

/-! ## Scopes -/

/-- A scope in which a level stands: rows of sources of the statement that stay in sight. -/
structure Standing (sources : List Source) (scope : Scope) : Prop where
  mem : ∀ f ∈ scope, f.source ∈ sources
  inSight : ∀ f ∈ scope, f.source.staysInSight

theorem Standing.nil (sources : List Source) : Standing sources [] := ⟨by simp, by simp⟩

theorem Standing.cons {sources : List Source} {scope : Scope} (h : Standing sources scope)
    {f : Frame} (hmem : f.source ∈ sources) (hsight : f.source.staysInSight) :
    Standing sources (f :: scope) :=
  ⟨List.forall_mem_cons.mpr ⟨hmem, h.mem⟩, List.forall_mem_cons.mpr ⟨hsight, h.inSight⟩⟩

variable {how : Scoping} {sources : List Source} {scope : Scope}

/-- A row that a reference does not mean is passed over. -/
theorem cellIn_cons_of_not_admits {f : Frame} {s : Source} (h : ¬ how.admits s f.source)
    (c : Column) : cellIn how (f :: scope) s c = cellIn how scope s c := by
  simp [cellIn, h]

/-- A cell that the nearest row of the source has is the cell that is meant. -/
theorem cellIn_cons_of_get? {f : Frame} {s : Source} {c : Column} {cell : Cell}
    (hf : f.source = s) (hcell : Members.get? f.cells (s.columnName c) = some cell) :
    cellIn how (f :: scope) s c = cell := by
  simp [cellIn, hf, how.admits_self, hcell]

theorem cellIn_of_forall_not_admits {s : Source} (h : ∀ f ∈ scope, ¬ how.admits s f.source)
    (c : Column) : cellIn how scope s c = .null := by
  induction scope with
  | nil => rfl
  | cons f rest ih =>
    rw [cellIn_cons_of_not_admits (h f (by simp)), ih fun g hg => h g (by simp [hg])]

/-- A row of a table that no row above hides is read as it is stored, also where it is short of a
cell. -/
theorem cellIn_row {s : Source} {row : StoredRow} (hs : ∀ n, s ≠ .derived n)
    (h : ∀ f ∈ scope, ¬ how.admits s f.source) (c : Column) :
    cellIn how (⟨s, row.cells⟩ :: scope) s c = row.cell c := by
  have hname : s.columnName c = c.declaration.name := by
    cases s with
    | table | again => rfl
    | derived n => exact absurd rfl (hs n)
  cases hcell : Members.get? row.cells c.declaration.name with
  | some cell => rw [cellIn_cons_of_get? rfl (hname ▸ hcell), StoredRow.cell, hcell]; rfl
  | none =>
    -- A row without the cell is passed over, and those above are other sources.
    have habove := cellIn_of_forall_not_admits h c
    simp only [cellIn, List.findSome?_cons, how.admits_self, hname, hcell, if_true]
      at habove ⊢
    rw [habove, StoredRow.cell, hcell]
    rfl

/-- In a standing scope a related table is read as it is stored. -/
theorem Standing.cellIn_again (hscope : Standing sources scope) (hapart : how.TellsApart sources)
    {number : Nat} (hmem : .again number ∈ sources) (row : StoredRow) (c : Column) :
    cellIn how (⟨.again number, row.cells⟩ :: scope) (.again number) c = row.cell c := by
  refine cellIn_row (by simp) (fun f hf hadmits => ?_) c
  have heq := hapart _ hmem _ (hscope.mem f hf) hadmits
  have hsight := hscope.inSight f hf
  simp [← heq, Source.staysInSight] at hsight

/-- The rows of a related table hide nothing that stays in sight. -/
theorem Scoping.TellsApart.cellIn_below (hapart : how.TellsApart sources) {number : Nat}
    (hmem : .again number ∈ sources) {s : Source} (hs : s ∈ sources) (hsight : s.staysInSight)
    (cells : Members Cell) (c : Column) :
    cellIn how (⟨.again number, cells⟩ :: scope) s c = cellIn how scope s c := by
  refine cellIn_cons_of_not_admits (fun hadmits => ?_) c
  have heq := hapart _ hs _ hmem hadmits
  simp [heq, Source.staysInSight] at hsight

theorem get?_map_columns {columns : List Column} {c : Column} (hc : c ∈ columns)
    (hname : ∀ e ∈ columns, e.name = c.name → e = c) (read : Column → Cell) :
    Members.get? (columns.map fun e => (e.name, read e)) c.name = some (read c) := by
  induction columns with
  | nil => simp at hc
  | cons e rest ih =>
    rw [List.map_cons, Members.get?]
    by_cases he : e.name = c.name
    · rw [if_pos he, hname e (by simp) he]
    · rw [if_neg he]
      refine ih ?_ fun e' he' => hname e' (by simp [he'])
      rcases List.mem_cons.mp hc with rfl | hc
      · exact absurd rfl he
      · exact hc

/-- A subquery shows its columns as its rows have them. -/
theorem cellIn_exposed {inner : Scope} {source : Source} {number : Nat} {exposed : List Column}
    {f : Frame} {c : Column} (hc : c ∈ exposed)
    (hname : ∀ e ∈ exposed, e.name = c.name → e = c) :
    cellIn how (exposedFrame how inner source (.derived number) exposed f :: scope)
        (.derived number) c = cellIn how (f :: inner) source c :=
  cellIn_cons_of_get? rfl (get?_map_columns hc hname _)

end RelGraph.Store
