import RelGraph.Proofs.Fetch.ByKey
import RelGraph.Proofs.Fetch.Showing
import RelGraph.Proofs.Store.Session
/-!
What a read shows of single rows. A read without a window gives each row that meets its condition
once, and what it gives for a row depends on the row and on what is asked for, and not on the other
rows that are read with it. Rows that were written are found again by the keys that the write
returned, those aside whose key is null: nothing is equal to a null.
-/
namespace RelGraph.Direct

open Store Sql Outcome

/-! ## Views -/

section Views

variable {r : Registry} {db : Database} {n m : Node} {t : Table} {col : Column} {f f' : Fetch}
  {row : StoredRow} {v v' : Value} {columns : List Column} {ms rows : List (String × Value)}

/-- What a read of a plan shows of a row of its table. -/
def Presents (r : Registry) (db : Database) (n : Node) (row : StoredRow) (v : Value) : Prop :=
  ∃ f, Fetch.ofNode r n = .ok f ∧ Seen r db f n row v

theorem Presents.unique (h : Presents r db n row v) (h' : Presents r db n row v') : v = v' := by
  obtain ⟨f, hf, fetched, hfetched, hrow⟩ := h
  obtain ⟨f', hf', fetched', hfetched', hrow'⟩ := h'
  obtain rfl := Except.ok.inj (hf.symm.trans hf')
  obtain rfl := Except.ok.inj (hfetched.symm.trans hfetched')
  exact Except.ok.inj (hrow.symm.trans hrow')

theorem Presents.hasFields (h : Presents r db n row v) : Hydration.HasFields n v := by
  obtain ⟨f, -, hseen⟩ := h
  exact hasFields_of_seen hseen

/-- Among result columns each has the value of its cell. -/
theorem get?_resultMembers {ms : Members Value} (h : resultMembers row.cell columns = .ok ms)
    (hcol : col ∈ columns) (hown : ∀ other ∈ columns, other.name = col.name → other = col) :
    ∃ x, Binding.result col.declaration.type (row.cell col) = .ok x ∧
      Members.get? ms col.name = some x := by
  rw [resultMembers_eq_mapM] at h
  obtain ⟨-, hthere, hback⟩ := mapM_named_eq_ok h
  obtain ⟨x, hx, hmem⟩ := hthere col hcol
  refine ⟨x, hx, ?_⟩
  cases hget : Members.get? ms col.name with
  | none => exact absurd (Members.mem_names_of_mem hmem) (Members.get?_eq_none.mp hget)
  | some y =>
    obtain ⟨other, hother, hname, hy⟩ := hback _ (Members.mem_of_get? hget)
    obtain rfl := hown other hother hname
    exact congrArg some (Except.ok.inj (hy.symm.trans hx))

/-- What a column shows of the value of its cell is what it shows of the cell. -/
theorem rootShown_of_shownColumn {ms : Members Value} {x : Value}
    (hcol : t.column? col.name = some col)
    (hread : Binding.result col.declaration.type (row.cell col) = .ok x)
    (hget : Members.get? ms col.name = some x)
    (h : Hydration.shownColumn t ms col.name = .ok v) :
    rootShown col (row.cell col) = some v := by
  rw [Hydration.shownColumn, Table.column_eq_ok.mpr hcol] at h
  dsimp only [bind, Except.bind] at h
  rw [hget, Option.getD_some] at h
  split at h
  · rename_i w hw
    obtain rfl := pure_eq_ok.mp h
    rw [rootShown, hread]
    show (Conversion.showValue col x).toOption = some w
    rw [hw]
    rfl
  · cases h

/-- Under the name of a column a row shows what the column shows of its cell, unless a relation goes
by that name. -/
theorem Presents.field_column (h : Presents r db n row v) (ht : r.table? n.table = some t)
    (hname : col.name ∈ n.columns) (hrelations : col.name ∉ Members.names n.relations)
    (htruncated : col.name ∉ Members.names n.truncated) (hcol : t.column? col.name = some col) :
    rootShown col (row.cell col) = some (v.field col.name) := by
  obtain ⟨f, hf, fetched, hfetched, hrow⟩ := h
  obtain ⟨-, own, left, -, hown, -, hnodup, rfl⟩ := fetchedRow_eq_ok.mp hfetched
  obtain ⟨t', ht', hfield⟩ := Hydration.field_column hrow hname hrelations htruncated
  obtain rfl : t' = t := Option.some.inj (ht'.symm.trans ht)
  have hcolumns : f.columns = columnsOf t' n.columns := by
    obtain ⟨t'', _, _, _, _, ht'', -, -, -, rfl⟩ := Fetch.ofNode_eq_ok hf
    obtain rfl : t'' = t' := Option.some.inj (ht''.symm.trans ht)
    have hne : n.columns ≠ [] := List.ne_nil_of_mem hname
    simp [rootColumns, hne]
  rw [hcolumns] at hown
  obtain ⟨x, hread, hget⟩ := get?_resultMembers hown
    (List.mem_filterMap.mpr ⟨col.name, hname, hcol⟩) fun other hother hsame => by
      have hfound := (column?_of_mem_columnsOf hother).1
      rw [hsame] at hfound
      exact Option.some.inj (hfound.symm.trans hcol)
  exact rootShown_of_shownColumn hcol hread
    (Members.get?_of_mem hnodup (List.mem_append_left _ (Members.mem_of_get? hget))) hfield

theorem checkMatches_of_result {fetched : List Value} (h : Fetch.ofNode r n = .ok f)
    (ht : r.table? n.table = some t) (hresult : Fetch.result .byName db f = .ok fetched) :
    checkMatches t n.condition (db.rows t) = .ok () := by
  have hroute := routeOf_root h
  obtain ⟨t', own, nested, next, rows, ht', -, -, hrows, rfl⟩ := Fetch.ofNode_eq_ok h
  obtain rfl : t = t' := Option.some.inj (ht.symm.trans ht')
  obtain ⟨hchecked, -⟩ : checkRows .byName db [] rows = _ ∧ chosenRows .byName db [] rows _ =
    _ := rootLevel_eq hrows hroute
  obtain ⟨_, hcheck, -⟩ := bind_eq_ok.mp hresult
  exact hchecked.symm.trans hcheck

/-- A read without a window shows each row that meets its condition, in some order. -/
theorem presents_of_fetch {s : Storage} {access : Access} {rows : List Value}
    (ht : r.table? n.table = some t) (hlimit : n.limit = none) (hoffset : n.offset = none)
    (h : (Storage.fetch r access n s).1 = .ok rows) :
    ∃ shown, List.Forall₂ (Presents r (s.seen access) n)
      (((s.seen access).rows t).filter (meets t n.condition)) shown ∧ rows.Perm shown := by
  obtain ⟨f, fetched, hf, hresult, hrows⟩ := Storage.fetch_eq_ok h
  have hread := mapM_eq_ok.mp
    ((result_eq_ok_iff hf ht (checkMatches_of_result hf ht hresult)).mp hresult)
  have hviews : List.Forall₂ (Presents r (s.seen access) n)
      (rootRows (scanOf r) (s.seen access) t n) rows :=
    (forall₂_exists.mpr ⟨fetched, hread, mapM_eq_ok.mp hrows⟩).imp
      fun row v ⟨w, hw, hv⟩ => ⟨f, hf, w, hw, hv⟩
  obtain ⟨shown, hshown, hperm⟩ :=
    List.perm_comp_forall₂ (rootRows_perm (scanOf r) hlimit hoffset).symm hviews
  exact ⟨shown, hshown, hperm.symm⟩

end Views

/-! ## Keys that a write returns -/

section Keys

variable {t : Table} {c : Column} {row new : StoredRow} {before news rows : List StoredRow}
  {key : Value} {keys : List Value}

/-- The types of whole numbers, of big numbers and of texts. -/
def isPlainKey : ColumnType → Bool
  | .integer | .bigInteger | .text _ => true
  | _ => false

/-- The key of a row is a number or a text as its column has them, or it is null. -/
def KeyOfKind (c : Column) (row : StoredRow) : Prop :=
  match c.declaration.type, row.cell c with
  | _, .null => True
  | .integer, .integer n | .bigInteger, .integer n => Cell.fits n = true
  | .text _, .text _ => True
  | _, _ => False

/-- Whether a row has a key. -/
def hasKey (c : Column) (row : StoredRow) : Bool := !(row.cell c).isNull

/-- A key was read from a row: null, or one by which the row can be found again. -/
def ReadsKey (c : Column) (row : StoredRow) (key : Value) : Prop :=
  row.cell c = .null ∧ key = .null ∨ KeepsKey c row key

theorem keepsKey_of_kind (h : KeyOfKind c row) (hsome : hasKey c row = true) :
    ∃ key, KeepsKey c row key := by
  rw [KeyOfKind.eq_def] at h
  split at h
  · rename_i hcell
    rw [hasKey, hcell] at hsome
    cases hsome
  · rename_i n htype hcell
    refine ⟨.int n, ?_⟩
    rw [KeepsKey, hcell, storedCell, affinityOf, htype]
    exact ⟨rfl, .integer h⟩
  · rename_i n htype hcell
    refine ⟨.int n, ?_⟩
    rw [KeepsKey, hcell, storedCell, affinityOf, htype]
    exact ⟨rfl, .bigInteger h⟩
  · rename_i s htype hcell
    refine ⟨.text s, ?_⟩
    rw [KeepsKey, hcell, storedCell, affinityOf, htype]
    exact ⟨rfl, .text⟩
  · cases h

theorem keyOfKind_of_keyCell (hplain : isPlainKey c.declaration.type = true)
    (h : KeyCell c.declaration.type (row.cell c) key) : KeyOfKind c row := by
  rw [KeyOfKind.eq_def]
  generalize row.cell c = cell at h
  generalize c.declaration.type = type at hplain h
  cases h with
  | integer hn | bigInteger hn => exact hn
  | text => trivial
  | _ => cases hplain

theorem plainKey_cases {type : ColumnType} (h : isPlainKey type = true) :
    type = .integer ∨ type = .bigInteger ∨ ∃ long, type = .text long := by
  cases type <;> simp_all [isPlainKey]

/-- Keys that were read from rows bind by the type of their column, and are the cells of the
rows. -/
theorem itemCells_of_readsKey (hplain : isPlainKey c.declaration.type = true)
    (h : List.Forall₂ (ReadsKey c) news keys) :
    itemCells c (.tuple keys) = news.map (·.cell c) := by
  show keys.map (Binding.accepted (itemType c keys)) = _
  have htype : itemType c keys = c.declaration.type := by
    have hnull : operandType c .null = c.declaration.type := by
      obtain hc | hc | ⟨long, hc⟩ := plainKey_cases hplain <;>
        rw [operandType.eq_def, hc] <;> rfl
    cases h with
    | nil => exact hnull
    | cons hfirst _ =>
      obtain ⟨-, rfl⟩ | hkept := hfirst
      · exact hnull
      · exact hkept.2.operandType_eq rfl
  rw [htype]
  refine (map_eq_of_forall₂ (h.imp fun new key hkey => ?_)).symm
  obtain ⟨hcell, rfl⟩ | hkept := hkey
  · rw [hcell]
    obtain hc | hc | ⟨long, hc⟩ := plainKey_cases hplain <;> rw [hc] <;> rfl
  · exact hkept.2.accepted

/-- The rows that are found by keys that were read from rows are those whose cell is that of one of
these, unless it is null. -/
theorem meets_readKeys (hkey : t.KeyColumn c) (hplain : isPlainKey c.declaration.type = true)
    (h : List.Forall₂ (ReadsKey c) news keys) :
    meets t (some (.compare c.name .inArray (.tuple keys))) row = true ↔
      ∃ new ∈ news, hasKey c new = true ∧ (row.cell c).order (new.cell c) = .eq := by
  have hoperand : Condition.operand c .inArray (.tuple keys) = .ok (.tuple keys) := by
    have hrows : listsRows c keys = false := by
      obtain hc | hc | ⟨long, hc⟩ := plainKey_cases hplain <;> simp [listsRows, hc, ColumnType.bare]
    simp [Condition.operand, Value.items?, hrows]
  rw [meets, Option.all_some, truth, hkey.found]
  dsimp only
  rw [operandOf_eq hoperand, comparisonTruth, memberTruth, itemCells_of_readsKey hplain h,
    any_holds]
  simp only [List.map_map, List.any_map, List.any_eq_true, Function.comp, equalTruth_holds,
    beq_iff_eq]
  refine exists_congr fun new => and_congr_right fun hnew => ?_
  obtain ⟨key, -, hnull | hkept⟩ := exists_of_forall₂ h hnew
  · -- Nothing is equal to a null.
    rw [hasKey, hnull.1]
    refine iff_of_false (fun hequal => ?_) (by simp [Cell.isNull])
    rw [operandOrder?, Affinity.compare?] at hequal
    simp [Cell.isNull] at hequal
  · rw [operandOrder?_of_keepsKey hkept, hasKey, hkept.2.isNull_eq_false]
    simp

/-- Rows that are as if they had been added are all that is found by their keys, those aside that
have no key. -/
theorem filter_readKeys (hkey : t.KeyColumn c) (hplain : isPlainKey c.declaration.type = true)
    (hadds : Insert.Adds t before news rows) (h : List.Forall₂ (ReadsKey c) news keys) :
    (rows.filter (meets t (some (.compare c.name .inArray (.tuple keys))))).Perm
      (news.filter (hasKey c)) := by
  have hbefore : before.filter (meets t (some (.compare c.name .inArray (.tuple keys)))) = [] := by
    refine List.filter_eq_nil_iff.mpr fun old hold hmeets => ?_
    obtain ⟨new, hnew, hsome, hsame⟩ := (meets_readKeys hkey hplain h).mp hmeets
    have hrepeats := hadds.apart [c] (mem_uniqueGroups hkey) new hnew old hold
    rw [Cell.order_eq_comm] at hsame
    exact order_of_repeats (by simpa [hasKey] using hsome) hrepeats hsame
  have hnews : news.filter (meets t (some (.compare c.name .inArray (.tuple keys)))) =
      news.filter (hasKey c) := by
    refine List.filter_congr fun row hrow => ?_
    rw [Bool.eq_iff_iff, meets_readKeys hkey hplain h]
    constructor
    · rintro ⟨new, -, hsome, hsame⟩
      rw [hasKey, Bool.not_eq_true', Bool.eq_false_iff]
      intro hnull
      have hcell : row.cell c = .null := by
        cases hcell : row.cell c <;> simp_all [Cell.isNull]
      rw [hcell] at hsame
      exact Cell.order_null_ne_eq (by simpa [hasKey] using hsome) hsame
    · exact fun hsome => ⟨row, hrow, hsome, Cell.order_self _⟩
  have hfound := hadds.perm.filter (meets t (some (.compare c.name .inArray (.tuple keys))))
  rwa [List.filter_append, hbefore, hnews, List.nil_append] at hfound

end Keys

end RelGraph.Direct
