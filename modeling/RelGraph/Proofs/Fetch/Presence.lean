import Mathlib.Data.List.Permutation
import RelGraph.Proofs.Fetch.Places
import RelGraph.Proofs.Store.Storage
/-!
When a relation to one row shows null. A row that is found is shown as an object, and null means
that there is none, unless nothing at all is asked for of the row: it then has no members, and a row
without members is taken for no row.
-/
namespace RelGraph

open Store Sql Outcome

namespace Store.Storage

/-- The rows of a fetch that went well: it was planned, and its statement names no source like the
table of the root. -/
structure Fetched (r : Registry) (access : Access) (s : Storage) (n : Node) (rows : List Value) :
    Prop where
  planned : n.Planned
  apart : ∃ f, Fetch.ofNode r n = .ok f ∧ f.RootApart
  fetched : (Storage.fetch r access n s).1 = .ok rows

end Store.Storage

namespace Direct

variable {scan : Scan} {r : Registry} {db : Database} {n : Node} {t : Table} {row : StoredRow}

/-- A relation to one row has none exactly where no row is linked and meets the condition. -/
theorem relatedRows_eq_nil (scan : Scan) {above target : Table} {parent : StoredRow}
    {rel : Relation} {child : Node} (hone : rel.toMany = false) (hoffset : child.offset = none) :
    relatedRows scan db above parent target rel child = [] ↔ ∀ other ∈ db.rows target,
      ¬ (linked above target rel parent other && meets target child.condition other) := by
  have hmem : ∀ other, other ∈ scan.arrange (some above) child (db.rows target) ↔
      other ∈ db.rows target := fun other => (scan.perm _ _ _).mem_iff
  -- Sorting and keeping the first row leave nothing only of nothing.
  have hnil : relatedRows scan db above parent target rel child = [] ↔
      (scan.arrange (some above) child (db.rows target)).filter (fun row =>
        linked above target rel parent row && meets target child.condition row) = [] := by
    simp [relatedRows, hone, hoffset, window, sorted, ← List.length_eq_zero_iff]
  rw [hnil, List.filter_eq_nil_iff]
  simp only [hmem]

/-- A relation to one row shows an object or null, and null exactly where there is no row or nothing
is asked for of it. -/
theorem SeenAs.toOne {read : Column → Cell → Except Refusal Value} {v : Value}
    (h : SeenAs read scan r db n t row v) {key : String} {child : Node} {rel : Relation}
    {target : Table} (hkey : (key, child) ∈ n.relations) (hrel : child.relation = some rel)
    (hone : rel.toMany = false) (htarget : r.table? child.table = some target) :
    (v.field key = .null ∨ ∃ shown, v.field key = .object shown) ∧
      (v.field key = .null ↔ (child.columns = [] ∧ child.relations = []) ∨
        ∀ other ∈ db.rows target,
          ¬ (linked t target rel row other && meets target child.condition other)) := by
  obtain ⟨rel', target', objects, hrel', htarget', hoffset, -, -, hobjects, hvalue⟩ :=
    h.relation hkey
  obtain rfl : rel' = rel := Option.some.inj (hrel'.symm.trans hrel)
  obtain rfl : target' = target := Option.some.inj (htarget'.symm.trans htarget)
  rw [hone, if_neg (by decide)] at hvalue
  have hshown := Hydration.relationValue_toOne hrel hone hvalue
  rw [← relatedRows_eq_nil scan hone (hoffset hone)]
  generalize relatedRows scan db t row target' rel' child = found at hobjects
  cases hobjects with
  | nil =>
    have hfield : v.field key = .null := hshown
    simp [hfield]
  | @cons crow ms found objects hcarried _ =>
    -- The row that is found has no members exactly where nothing is asked for of it.
    by_cases hempty : ms = []
    · have hfield : v.field key = .null := by simpa [hempty, Value.truthy] using hshown
      simp [hfield, hcarried.2.mp hempty]
    · have hrow : Hydration.row r child (.object ms) = .ok (v.field key) := by
        simpa [hempty, Value.truthy] using hshown
      obtain ⟨shown, hfield⟩ := Hydration.isObject_of_row hrow
      have hasked : ¬ (child.columns = [] ∧ child.relations = []) := fun h =>
        hempty (hcarried.2.mpr h)
      simp [hfield, hasked]

/-- Wherever callers see a row in what was fetched, the plan has one, and what they see of it is
what was fetched of it. -/
theorem seen_of_fetched {access : Access} {s : Storage} {rows : List Value}
    (h : s.Fetched r access n rows) {i : Nat} {path : Path} {m : Node} {v : Value}
    (hat : shownAt n rows i path = some (m, v)) :
    ∃ t row, rowAt (scanOf r) r (s.seen access) n i path = some (m, t, row) ∧
      SeenAs (if path = [] then fun c cell => Binding.result c.declaration.type cell else jsonOf)
        (scanOf r) r (s.seen access) m t row v := by
  obtain ⟨hplanned, ⟨f, hf, hroot⟩, hfetch⟩ := h
  obtain ⟨f', fetched, hf', hfetched, hrows⟩ := Storage.fetch_eq_ok hfetch
  obtain rfl : f' = f := Except.ok.inj (hf'.symm.trans hf)
  exact seen_at hplanned hf (Scoping.tellsApart_of_rootApart hf hroot) hfetched hrows hat

/-! ## A family with one child -/

theorem Scan.arrange_singleton (scan : Scan) (above : Option Table) (n : Node) (row : StoredRow) :
    scan.arrange above n [row] = [row] :=
  List.perm_singleton.mp (scan.perm above n [row])

theorem relatedRows_eq_singleton (scan : Scan) {above target : Table} {parent row : StoredRow}
    {rel : Relation} {n : Node} (hone : rel.toMany = false) (hoffset : n.offset = none)
    (hrows : db.rows target = [row])
    (hkept : (linked above target rel parent row && meets target n.condition row) = true) :
    relatedRows scan db above parent target rel n = [row] := by
  simp [relatedRows, hone, hoffset, hrows, Scan.arrange_singleton, sorted, window, hkept]

theorem rootRows_eq_singleton (scan : Scan) {n : Node} (hlimit : n.limit = none)
    (hoffset : n.offset = none) (hrows : db.rows t = [row])
    (hkept : meets t n.condition row = true) : rootRows scan db t n = [row] := by
  simp [rootRows, hlimit, hoffset, hrows, Scan.arrange_singleton, sorted, window, hkept]

namespace Family

def parentRow : StoredRow :=
  ⟨1, [("id", .integer 1), ("mark", .text "12345678123456781234567812345678")]⟩

def childRow : StoredRow := ⟨5, [("id", .integer 5), ("parent_id", .integer 1)]⟩

/-- One parent with one child. -/
def storage : Storage :=
  let db : Database := { tables := [("parent", [parentRow]), ("child", [childRow])] }
  { committed := db, working := db }

/-- All children, each with columns of its parent. -/
def parentOfEach (names : List String) : Node :=
  { table := "child", columns := ["id"],
    relations := [("parent", { table := "parent", columns := names, relation := some toParent })] }

/-- A selection of all children, each with fields of its parent. -/
def childrenWith (fields : List String) : Selection :=
  ⟨"childFindMany", none, [], [("id", ⟨"id", none, [], []⟩), ("parent",
    ⟨"parent", none, [], fields.map fun name => (name, ⟨name, none, [], []⟩)⟩)]⟩

theorem value_parent (scan : Scan) {names : List String} {own : Members Value}
    (hown : jsonCells parentRow (columnsOf parent names) = .ok own) :
    value scan registry storage.committed child childRow
      { table := "parent", columns := names, relation := some toParent } =
      .ok (.object (Members.ofPairs own)) := by
  have hkept : linked child parent toParent childRow parentRow = true := rfl
  rw [value_eq scan child childRow rfl rfl,
    relatedRows_eq_singleton scan rfl rfl rfl ((Bool.and_true _).trans hkept), List.mapM_cons, hown]
  show Except.ok (Value.object (Members.ofPairs (own ++ []))) = _
  rw [List.append_nil]

theorem result_parentOfEach (scan : Scan) {names : List String} {own : Members Value}
    (hown : jsonCells parentRow (columnsOf parent names) = .ok own)
    (hleft : leaving (.object (Members.ofPairs own)) = .ok (.object (Members.ofPairs own))) :
    Direct.result scan registry storage.committed (parentOfEach names) =
      .ok [.object [("id", .int 5), ("parent", .object (Members.ofPairs own))]] := by
  have htable : registry.table? (parentOfEach names).table = some child := rfl
  have hroot : rootRows scan storage.committed child (parentOfEach names) = [childRow] :=
    rootRows_eq_singleton scan rfl rfl rfl rfl
  unfold Direct.result
  rw [htable]
  dsimp only
  rw [hroot]
  simp only [List.mapM_cons, List.mapM_nil, parentOfEach, value_parent scan hown, bind,
    Except.bind, pure, Except.pure, hleft]
  rfl

/-- The fetch of all children can be sent, with the mark of the parent of each or with nothing of
it, and its sources go by names of their own. -/
theorem sent_parentOfEach {names : List String} {f : Fetch} (hnames : names = ["mark"] ∨ names = [])
    (hf : Fetch.ofNode registry (parentOfEach names) = .ok f) : f.RootApart ∧
      (Storage.boundCells (Fetch.checkSize f) (Dialect.sqlite.fetch f)).toOption.isSome := by
  have hapart : ∀ s ∈ [Source.again 1, .derived 2],
      s.plainName ≠ (Source.table "child").plainName := by decide +kernel
  rcases hnames with rfl | rfl <;> cases hf <;> exact ⟨hapart, by decide +kernel⟩

/-- What the fetch of all children gives, with columns of the parent of each. -/
theorem fetched_parentOfEach (fields : List String) {names : List String} {f : Fetch}
    {own : Members Value} {rows : List Value} (hnames : names = ["mark"] ∨ names = [])
    (hplan : (Plan.ofSelection registry 5 "child" (childrenWith fields) []).1 =
      .ok (parentOfEach names))
    (hf : Fetch.ofNode registry (parentOfEach names) = .ok f)
    (hown : jsonCells parentRow (columnsOf parent names) = .ok own)
    (hleft : leaving (.object (Members.ofPairs own)) = .ok (.object (Members.ofPairs own)))
    (hrows : Hydration.rows registry (parentOfEach names)
      [.object [("id", .int 5), ("parent", .object (Members.ofPairs own))]] = .ok rows) :
    storage.Fetched registry .own (parentOfEach names) rows := by
  obtain ⟨hroot, hbound⟩ := sent_parentOfEach hnames hf
  have hresult := (result_eq hf (Scoping.tellsApart_of_rootApart hf hroot)).trans
    (result_parentOfEach _ hown hleft)
  exact ⟨Plan.planned_ofSelection hplan, ⟨f, hf, hroot⟩,
    Storage.fetch_of_result hf hbound hresult hrows⟩

/-- Callers see the child with what identifies its parent, as it is stored. -/
theorem fetched_mark : storage.Fetched registry .own (parentOfEach ["mark"])
    [.object [("id", .int 5),
      ("parent", .object [("mark", .text "12345678123456781234567812345678")])]] := by
  refine fetched_parentOfEach ["mark"] (.inl rfl) (by cbv) rfl rfl rfl ?_
  simp only [Hydration.rows, List.mapM_cons, List.mapM_nil, parentOfEach, Hydration.row,
    Hydration.relationValues, Hydration.relationValue]
  rfl

/-- Nothing is asked for of the parent, and so the child is shown without one. -/
theorem fetched_typename : storage.Fetched registry .own (parentOfEach [])
    [.object [("id", .int 5), ("parent", .null)]] := by
  refine fetched_parentOfEach ["__typename"] (.inr rfl) (by cbv) rfl rfl rfl ?_
  simp only [Hydration.rows, List.mapM_cons, List.mapM_nil, parentOfEach, Hydration.row,
    Hydration.relationValues, Hydration.relationValue]
  rfl

end Family

/-! ## Relations to one row -/

/-- In what was fetched, wherever callers see a row, a relation to one row shows null exactly where
no row of its table is linked to the row seen and meets the condition, or where nothing is asked for
of the row; all else that it shows is an object. -/
theorem toOne_isNull_iff (r : Registry) (access : Access) (s : Storage) (n : Node)
    (rows : List Value) (h : s.Fetched r access n rows) :
    ∃ scan : Scan, ∀ i path m v, shownAt n rows i path = some (m, v) →
      ∃ t row, rowAt scan r (s.seen access) n i path = some (m, t, row) ∧
        ∀ key child rel target, (key, child) ∈ m.relations → child.relation = some rel →
          rel.toMany = false → r.table? child.table = some target →
          (v.field key = .null ∨ ∃ shown, v.field key = .object shown) ∧
            (v.field key = .null ↔ (child.columns = [] ∧ child.relations = []) ∨
              ∀ other ∈ (s.seen access).rows target,
                ¬ (linked t target rel row other && meets target child.condition other)) := by
  refine ⟨scanOf r, fun i path m v hat => ?_⟩
  obtain ⟨t, row, hrow, hseen⟩ := seen_of_fetched h hat
  exact ⟨t, row, hrow, fun key child rel target hkey hrel hone htarget =>
    hseen.toOne hkey hrel hone htarget⟩

namespace Family

/-- The parent of the child is shown as an object unless the child has none. -/
theorem toOne_isNull_mark :
    storage.Fetched registry .own (parentOfEach ["mark"])
        [.object [("id", .int 5),
          ("parent", .object [("mark", .text "12345678123456781234567812345678")])]] ∧
      ∃ scan t row,
        rowAt scan registry storage.committed (parentOfEach ["mark"]) 0 [] =
            some (parentOfEach ["mark"], t, row) ∧
          (Value.object [("mark", .text "12345678123456781234567812345678")] = .null ↔
            (["mark"] = [] ∧ ([] : List (String × Node)) = []) ∨
              ∀ other ∈ storage.committed.rows parent,
                ¬ (linked t parent toParent row other && meets parent none other)) := by
  obtain ⟨scan, h⟩ := toOne_isNull_iff registry .own storage _ _ fetched_mark
  obtain ⟨t, row, hrow, hparent⟩ := h 0 [] _ _ rfl
  exact ⟨fetched_mark, scan, t, row, hrow,
    (hparent "parent" _ toParent parent (List.mem_singleton_self _) rfl rfl rfl).2⟩

/-- The child has a parent, and yet is shown without one where nothing is asked for of the
parent. -/
theorem toOne_null_of_linked :
    (Plan.ofSelection registry 5 "child" (childrenWith ["__typename"]) []).1 =
        .ok (parentOfEach []) ∧
      storage.Fetched registry .own (parentOfEach [])
        [.object [("id", .int 5), ("parent", .null)]] ∧
      storage.committed.rows child = [childRow] ∧ parentRow ∈ storage.committed.rows parent ∧
      linked child parent toParent childRow parentRow = true :=
  ⟨by cbv, fetched_typename, rfl, List.mem_singleton_self _, by decide +kernel⟩

end Family

end Direct

end RelGraph
