import RelGraph.Proofs.Fetch.References
import RelGraph.Proofs.Plan.Names
/-!
Looking up while a statement is made. A statement is made from a plan by looking up every table and
every column that the plan names, and within subqueries again those that they expose. Where the plan
resolves nothing of this fails: what stops a statement from being made is a comparison that the
column or its operand does not admit, and nothing else. Every subquery exposes what the values made
of its rows show and what the relations below are joined on, each column under a name of its own.
-/
namespace RelGraph.Sql

open Outcome Direct

/-! ## What is read is there -/

/-- All that a level reads of its own source are columns of its table: what it shows, tests and
sorts by, and its side of its joins. -/
def Rows.ReadsTable (rows : Rows) (shown : List Column) : Prop :=
  (∀ c ∈ rows.ownColumns shown, c ∈ rows.table.columns) ∧
    ∀ j ∈ rows.joins, j.own ∈ rows.table.columns

/-- A column is one of several, none of which shares its name. -/
def Among (columns : List Column) (c : Column) : Prop :=
  c ∈ columns ∧ ∀ other ∈ columns, other.name = c.name → other = c

/-- The subquery of a relation's value exposes what is read from it: what the value shows of a row,
and what the relations below are joined on. Itself it reads columns of its table. -/
inductive Gathered.Exposes : Gathered → Prop
  | intro {g : Gathered} (rows : g.rows.ReadsTable g.exposed)
      (shown : ∀ c ∈ g.columns, Among g.exposed c)
      (joined : ∀ kv ∈ g.nested, kv.2.rows.above = some g.derived ∧
        ∀ j ∈ kv.2.rows.joins, Among g.exposed j.outer)
      (below : ∀ kv ∈ g.nested, Exposes kv.2) : Exposes g

/-- A statement reads columns of its table, joins relations on such, and every subquery in it
exposes what is read from it. -/
structure Fetch.Exposes (f : Fetch) : Prop where
  rows : f.rows.ReadsTable f.columns
  joined : ∀ kv ∈ f.nested, kv.2.rows.above = some f.rows.source ∧
    ∀ j ∈ kv.2.rows.joins, j.outer ∈ f.rows.table.columns
  below : ∀ kv ∈ f.nested, kv.2.Exposes

/-! ## Comparisons that are refused -/

namespace Condition

variable {t : Table} {p : Predicate} {ps : List Predicate} {f : Failure}

/-- A comparison of a predicate is refused: the operator does not compare a column with such a
value, or the value is no operand for the column. -/
def Refuses (t : Table) (p : Predicate) (f : Failure) : Prop :=
  ∃ q ∈ p.comparisons, ∃ c, t.column? q.1 = some c ∧
    (admits q.2.1 q.2.2 = false ∧ f = .mishap .literalComparison ∨
      operand c q.2.1 q.2.2 = .error f)

theorem listedRows_ne_keyMissing {items : List Value} {name : String} :
    listedRows items ≠ .error (.mishap (.keyMissing name)) := by
  intro h
  rcases bind_eq_error.mp h with h | ⟨rows, -, h⟩
  · obtain ⟨v, -, hv⟩ := exists_of_mapM_eq_error h
    rw [Shape.parts] at hv
    split at hv <;> cases hv
  · rcases bind_eq_error.mp h with h | ⟨listed, -, h⟩
    · obtain ⟨row, -, hrow⟩ := exists_of_mapM_eq_error h
      obtain ⟨j, -, hj⟩ := exists_of_mapM_eq_error hrow
      split at hj <;> cases hj
    · cases h

/-- No comparison is refused for a name that is not found. -/
theorem Refuses.ne_keyMissing {name : String} (h : Refuses t p f) :
    f ≠ .mishap (.keyMissing name) := by
  rintro rfl
  obtain ⟨q, -, c, -, ⟨-, hliteral⟩ | hoperand⟩ := h
  · cases hliteral
  · rw [operand] at hoperand
    split at hoperand
    · split at hoperand
      · exact listedRows_ne_keyMissing hoperand
      · cases hoperand
    · cases hoperand

mutual

/-- A condition of columns of the table can be stated unless one of its comparisons is refused. -/
theorem refuses_of_ofPredicate {f : Failure} (p : Predicate) (hp : p.Within t)
    (h : ofPredicate t p = .error f) : Refuses t p f := by
  match p with
  | .compare name op value =>
    obtain ⟨c, hc⟩ := Option.isSome_iff_exists.mp (hp (name, op, value) (List.mem_singleton_self _))
    refine ⟨(name, op, value), List.mem_singleton_self _, c, hc, ?_⟩
    rw [ofPredicate, bind_of_eq_ok (Table.column_eq_ok.mpr hc)] at h
    split at h
    · rcases bind_eq_error.mp h with h | ⟨v, -, h⟩
      · exact .inr h
      · cases h
    · rename_i hadmits
      exact .inl ⟨by simpa using hadmits, (Except.error.inj h).symm⟩
  | .all items =>
    rw [ofPredicate] at h
    rcases bind_eq_error.mp h with h | ⟨cs, -, h⟩
    · exact refuses_of_ofPredicates items hp h
    · cases h
  | .any items =>
    rw [ofPredicate] at h
    rcases bind_eq_error.mp h with h | ⟨cs, -, h⟩
    · exact refuses_of_ofPredicates items hp h
    · cases h

theorem refuses_of_ofPredicates {f : Failure} (ps : List Predicate)
    (hps : (Predicate.all ps).Within t) (h : ofPredicates t ps = .error f) :
    Refuses t (.all ps) f := by
  match ps with
  | [] => cases h
  | p :: rest =>
    rw [ofPredicates] at h
    rcases bind_eq_error.mp h with h | ⟨c, -, h⟩
    · obtain ⟨q, hq, hrefused⟩ :=
        refuses_of_ofPredicate p (fun q hq => hps q (List.mem_append_left _ hq)) h
      exact ⟨q, List.mem_append_left _ hq, hrefused⟩
    · rcases bind_eq_error.mp h with h | ⟨cs, -, h⟩
      · obtain ⟨q, hq, hrefused⟩ :=
          refuses_of_ofPredicates rest (fun q hq => hps q (List.mem_append_right _ hq)) h
        exact ⟨q, List.mem_append_right _ hq, hrefused⟩
      · cases h

end

end Condition

/-- A comparison at some level of a plan is refused. -/
def Node.Refuses (r : Registry) (n : Node) (f : Failure) : Prop :=
  ∃ levels m t p, n.Below levels m ∧ r.table? m.table = some t ∧ m.condition = some p ∧
    Condition.Refuses t p f

namespace Fetch

variable {r : Registry} {t above target : Table} {source aboveSource : Source} {n : Node}
  {rel : Relation} {f : Failure} {number next : Nat}

/-! ## What is looked up is found -/

theorem exists_columns {names : List String} (h : ∀ name ∈ names, t.hasColumn name = true) :
    ∃ columns, names.mapM t.column = .ok columns :=
  exists_mapM_eq_ok.mpr fun name hname =>
    (Option.isSome_iff_exists.mp (h name hname)).imp fun _ => Table.column_eq_ok.mpr

/-- In a consistent registry some column stands for a row of which none is needed. -/
theorem exists_fallback (hr : r.Consistent) (ht : t ∈ r.all) : ∃ c, fallback t = .ok c := by
  unfold fallback
  split
  · rename_i key hkey
    obtain ⟨c, hc⟩ := Option.isSome_iff_exists.mp (hr.rowKey t ht key hkey)
    exact ⟨c, Table.column_eq_ok.mpr hc⟩
  · exact ⟨_, rfl⟩
  · rename_i hnone
    exact absurd hnone (hr.columns t ht)

theorem exists_exposedColumns (hr : r.Consistent) (ht : t ∈ r.all) {names : List String}
    (h : ∀ name ∈ names, t.hasColumn name = true) :
    ∃ exposed, exposedColumns t names = .ok exposed := by
  cases names with
  | nil =>
    obtain ⟨c, hc⟩ := exists_fallback hr ht
    exact ⟨[c], by rw [exposedColumns, bind_of_eq_ok hc]; rfl⟩
  | cons first rest => exact exists_columns h

/-- What a subquery has to expose are columns of its table. -/
theorem hasColumn_of_mem_neededNames (hnames : n.NamesColumns t)
    (hjoined : ∀ kv ∈ n.relations, kv.2.JoinedTo r t) {name : String}
    (h : name ∈ neededNames n) : t.hasColumn name = true := by
  rcases mem_foldl_addNames.mp h with h | ⟨kv, hkv, h⟩
  · exact hnames.columns name h
  · obtain ⟨rel, target, hrel, -, hleads⟩ := hjoined kv hkv
    rw [hrel] at h
    exact hleads.field name h

theorem exists_joins (h : rel.Leads r above target) :
    ∃ pairs, joins above target rel = .ok pairs := by
  refine exists_mapM_eq_ok.mpr ?_
  rintro ⟨field, reference⟩ hpair
  obtain ⟨hfield, hreference⟩ := List.of_mem_zip hpair
  obtain ⟨own, hown⟩ := Option.isSome_iff_exists.mp (h.reference reference hreference)
  obtain ⟨outer, houter⟩ := Option.isSome_iff_exists.mp (h.field field hfield)
  exact ⟨⟨own, outer⟩, bind_eq_ok.mpr ⟨own, Table.column_eq_ok.mpr hown,
    bind_eq_ok.mpr ⟨outer, Table.column_eq_ok.mpr houter, rfl⟩⟩⟩

/-! ## What stops a statement -/

theorem refuses_of_rowsOf (hnames : n.NamesColumns t) (h : rowsOf t source n = .error f) :
    ∃ p, n.condition = some p ∧ Condition.Refuses t p f := by
  rcases bind_eq_error.mp h with h | ⟨condition, -, h⟩
  · cases hp : n.condition with
    | none =>
      rw [hp] at h
      cases h
    | some p =>
      rw [hp] at h
      rcases bind_eq_error.mp h with h | ⟨c, -, h⟩
      · exact ⟨p, rfl, Condition.refuses_of_ofPredicate p (hnames.condition p hp) h⟩
      · cases h
  · rcases bind_eq_error.mp h with h | ⟨orderBy, -, h⟩
    · obtain ⟨e, he, h⟩ := exists_of_mapM_eq_error h
      obtain ⟨c, hc⟩ := Option.isSome_iff_exists.mp (hnames.order e he)
      rw [bind_of_eq_ok (Table.column_eq_ok.mpr hc)] at h
      cases h
    · cases h

theorem refuses_of_relatedRows (hnames : n.NamesColumns target) (hleads : rel.Leads r above target)
    (h : relatedRows above aboveSource target source rel n = .error f) :
    ∃ p, n.condition = some p ∧ Condition.Refuses target p f := by
  obtain ⟨pairs, hpairs⟩ := exists_joins hleads
  rw [relatedRows, bind_of_eq_ok hpairs] at h
  rcases bind_eq_error.mp h with h | ⟨rows, -, h⟩
  · exact refuses_of_rowsOf hnames h
  · cases h

theorem gatheredAll_eq_error {relations : List (String × Node)}
    (h : gatheredAll r above aboveSource number relations = .error f) :
    ∃ kv ∈ relations, ∃ number, gathered r above aboveSource number kv.2 = .error f := by
  induction relations generalizing number with
  | nil => cases h
  | cons kv rest ih =>
    rw [gatheredAll] at h
    rcases bind_eq_error.mp h with h | ⟨⟨g, middle⟩, -, h⟩
    · exact ⟨kv, List.mem_cons_self, number, h⟩
    · rcases bind_eq_error.mp h with h | ⟨⟨others, next⟩, -, h⟩
      · obtain ⟨kv', hkv', hfound⟩ := ih h
        exact ⟨kv', List.mem_cons_of_mem _ hkv', hfound⟩
      · cases h

/-- The value of a relation of a plan that resolves can be stated unless a comparison is refused. -/
theorem refuses_of_gathered (hr : r.Consistent) (hn : n.Resolves r) (habove : n.JoinedTo r above)
    (h : gathered r above aboveSource number n = .error f) : Node.Refuses r n f := by
  induction hn generalizing above aboveSource number with
  | @intro n target htarget hnames hjoined _ ih =>
    obtain ⟨rel, _, hrel, hfound, hleads⟩ := habove
    obtain rfl := Option.some.inj (hfound.symm.trans htarget)
    obtain ⟨exposed, hexposed⟩ := exists_exposedColumns hr (Registry.mem_all_of_table? htarget)
      fun name => hasColumn_of_mem_neededNames hnames hjoined
    obtain ⟨columns, hcolumns⟩ := exists_columns hnames.columns
    obtain ⟨table, names, condition, orderBy, limit, offset, relation, relations, truncated⟩ := n
    obtain rfl : relation = some rel := hrel
    rw [gathered, bind_of_eq_ok (Registry.table_eq_ok.mpr htarget)] at h
    dsimp only at h
    rw [bind_of_eq_ok hexposed] at h
    rcases bind_eq_error.mp h with h | ⟨rows, -, h⟩
    · obtain ⟨p, hp, hrefused⟩ := refuses_of_relatedRows hnames hleads h
      exact ⟨0, _, _, p, .here, htarget, hp, hrefused⟩
    · rw [bind_of_eq_ok hcolumns] at h
      rcases bind_eq_error.mp h with h | ⟨⟨nested, next⟩, -, h⟩
      · obtain ⟨kv, hkv, number, h⟩ := gatheredAll_eq_error h
        obtain ⟨levels, m, t, p, hbelow, hrefused⟩ := ih kv hkv (hjoined kv hkv) h
        exact ⟨levels + 1, m, t, p, .relation hkv hbelow, hrefused⟩
      · cases h

/-- A plan that resolves has a statement unless a comparison is refused. -/
theorem refuses_of_ofNode (hr : r.Consistent) (hn : n.Resolves r) (h : ofNode r n = .error f) :
    Node.Refuses r n f := by
  cases hn with
  | @intro _ t ht hnames hjoined hbelow =>
    obtain ⟨own, hown⟩ := exists_columns hnames.columns
    rw [ofNode, bind_of_eq_ok (Registry.table_eq_ok.mpr ht)] at h
    dsimp only at h
    rw [bind_of_eq_ok hown] at h
    rcases bind_eq_error.mp h with h | ⟨⟨nested, next⟩, -, h⟩
    · obtain ⟨kv, hkv, number, h⟩ := gatheredAll_eq_error h
      obtain ⟨levels, m, t, p, hm, hrefused⟩ :=
        refuses_of_gathered hr (hbelow kv hkv) (hjoined kv hkv) h
      exact ⟨levels + 1, m, t, p, .relation hkv hm, hrefused⟩
    · rcases bind_eq_error.mp h with h | ⟨rows, -, h⟩
      · obtain ⟨p, hp, hrefused⟩ := refuses_of_rowsOf hnames h
        exact ⟨0, n, t, p, .here, ht, hp, hrefused⟩
      · obtain ⟨c, hc⟩ := exists_fallback hr (Registry.mem_all_of_table? ht)
        split at h
        · rw [bind_of_eq_ok hc] at h
          cases h
        · cases h

/-! ## What subqueries expose -/

theorem readsTable_of_relatedRows {rows : Rows} {exposed : List Column}
    (hexposed : exposedColumns target (neededNames n) = .ok exposed)
    (h : relatedRows above aboveSource target source rel n = .ok rows) :
    rows.ReadsTable exposed := by
  obtain ⟨pairs, hpairs, h⟩ := bind_eq_ok.mp h
  obtain ⟨level, hlevel, h⟩ := bind_eq_ok.mp h
  have hown : ∀ c ∈ level.ownColumns exposed, c ∈ target.columns := fun c hc =>
    mem_columns_of_ownColumns hlevel (fun e => mem_columns_of_exposedColumns hexposed) hc
  obtain ⟨condition, orderBy, -, -, rfl⟩ := rowsOf_eq_ok hlevel
  obtain rfl := pure_eq_ok.mp h
  exact ⟨hown, fun j hj => own_of_mem_joins hpairs hj⟩

/-- A relation's value is joined to the source above on the fields of its relation. -/
theorem joined_of_gathered {g : Gathered}
    (h : gathered r above aboveSource number n = .ok (g, next)) :
    g.rows.above = some aboveSource ∧ ∀ j ∈ g.rows.joins, ∃ rel, n.relation = some rel ∧
      ∃ field ∈ rel.fields, above.column? field = some j.outer := by
  obtain ⟨target, rel, exposed, rows, columns, nested, -, hrel, -, hrows, -, -, rfl⟩ :=
    gathered_eq_ok h
  obtain ⟨pairs, condition, orderBy, hpairs, -, -, rfl⟩ := relatedRows_eq_ok.mp hrows
  exact ⟨rfl, fun j hj => ⟨rel, hrel, outer_of_mem_joins hpairs hj⟩⟩

theorem exposes_of_gathered {g : Gathered}
    (h : gathered r above aboveSource number n = .ok (g, next)) : g.Exposes := by
  induction fetchable_of_gathered n h generalizing above aboveSource number g next with
  | @intro n _ _ _ _ _ ih =>
    obtain ⟨target, rel, exposed, rows, columns, nested, htarget, -, hexposed, hrows, hcolumns,
      hnested, rfl⟩ := gathered_eq_ok h
    have hshown : ∀ name ∈ neededNames n, ∀ c, target.column? name = some c → Among exposed c :=
      fun name hname c => exposedColumns_of_mem hexposed hname
    refine .intro (readsTable_of_relatedRows hexposed hrows) ?_ (fun kv hkv => ?_) fun kv hkv => ?_
    · intro c hc
      obtain ⟨hfound, hname⟩ := column?_of_mem hcolumns hc
      exact hshown c.name (mem_neededNames_of_mem hname) c hfound
    · obtain ⟨child, number', next', hchild, hg⟩ := exists_gathered_of_mem hnested hkv
      obtain ⟨habove, hjoins⟩ := joined_of_gathered hg
      refine ⟨habove, fun j hj => ?_⟩
      obtain ⟨rel, hrel, field, hfield, houter⟩ := hjoins j hj
      exact hshown field (mem_neededNames_of_field hchild hrel hfield) _ houter
    · obtain ⟨child, number', next', hchild, hg⟩ := exists_gathered_of_mem hnested hkv
      exact ih _ hchild hg

/-- In a statement all that is read is there, in tables and in subqueries. -/
theorem exposes_of_ofNode {f : Fetch} (h : ofNode r n = .ok f) : f.Exposes := by
  have hroot := fun kv (hkv : kv ∈ f.nested) => rootJoins_of_mem h hkv
  refine ⟨?_, fun kv hkv => ⟨(hroot kv hkv).2.1, (hroot kv hkv).2.2.2⟩, ?_⟩
  · obtain ⟨t, own, nested, next, rows, -, -, -, hrows, rfl⟩ := ofNode_eq_ok h
    have hown : ∀ c ∈ rows.ownColumns (rootColumns t n), c ∈ t.columns :=
      fun c hc => mem_columns_of_ownColumns hrows (fun e => mem_columns_of_rootColumns) hc
    obtain ⟨condition, orderBy, -, -, rfl⟩ := rowsOf_eq_ok hrows
    exact ⟨hown, fun j hj => nomatch hj⟩
  · obtain ⟨t, own, nested, next, rows, -, -, hnested, -, rfl⟩ := ofNode_eq_ok h
    intro kv hkv
    obtain ⟨child, number, next', -, hg⟩ := exists_gathered_of_mem hnested hkv
    exact exposes_of_gathered hg

end Fetch

/-! ## The plans that are fetched -/

/-- The plans by which the rows that one plan asks for are fetched: the plan itself, the plan for
its first row, and the plan for the rows with certain keys. -/
inductive FetchedBy (r : Registry) (n : Node) : Node → Prop
  | itself : FetchedBy r n n
  | first : FetchedBy r n { n with limit := some 1 }
  | byKeys {t : Table} {key : String} {keys : List Value} : r.table? n.table = some t →
      t.rowKey = some key →
      FetchedBy r n (Plan.addColumn { n with
        condition := Predicate.conjoin
          [n.condition, some (.compare key .inArray (.tuple keys))] } key)

/-- Rows are fetched by plans that name nothing else but the key of the table. -/
theorem FetchedBy.resolves {r : Registry} {n m : Node} (hr : r.Consistent) (hn : n.Resolves r)
    (h : FetchedBy r n m) : m.Resolves r := by
  cases hn with
  | @intro _ t ht hnames hjoined hbelow =>
    cases h with
    | itself => exact .intro ht hnames hjoined hbelow
    | first => exact .intro ht ⟨hnames.columns, hnames.condition, hnames.order⟩ hjoined hbelow
    | @byKeys t' key keys ht' hkey =>
      obtain rfl : t = t' := Option.some.inj (ht.symm.trans ht')
      have hcolumn := hr.rowKey t (Registry.mem_all_of_table? ht) key hkey
      have hcondition : ∀ p, Predicate.conjoin
          [n.condition, some (.compare key .inArray (.tuple keys))] = some p → p.Within t := by
        intro p hp
        refine Predicate.within_conjoin (fun q hq => ?_) hp
        rcases List.mem_cons.mp hq with hq | hq
        · exact hnames.condition q hq.symm
        · obtain rfl := Option.some.inj (List.mem_singleton.mp hq)
          simpa [Predicate.Within, Predicate.comparisons] using hcolumn
      unfold Plan.addColumn
      split
      · exact .intro ht ⟨hnames.columns, hcondition, hnames.order⟩ hjoined hbelow
      · refine .intro ht ⟨fun name hname => ?_, hcondition, hnames.order⟩ hjoined hbelow
        rcases List.mem_append.mp hname with hname | hname
        · exact hnames.columns name hname
        · obtain rfl := List.mem_singleton.mp hname
          exact hcolumn

/-- In a loaded schema whose tables have columns, and whose relations pair as many columns here as
there, all that a plan names is there: every table, every column that a level shows, tests and sorts
by, and every column on which levels are joined, whichever way the rows of the plan are fetched. So
looking up never stops a statement from being made; only a comparison that is refused does. And in a
statement that is made, every subquery exposes what is read from it. -/
theorem found_of_load {d : Declarations} {source : SchemaSource} {loaded : Loading.Loaded}
    (h : Loading.load d source = .ok loaded)
    (hcolumns : ∀ t ∈ loaded.registry.all, t.columns ≠ [])
    (heven : ∀ t ∈ loaded.registry.all, ∀ rel ∈ Members.values t.relations,
      rel.fields.length = rel.references.length)
    {maxDepth : Nat} {table : String} {s : Selection} {args : Members Value} {n m : Node}
    (hn : (Plan.ofSelection loaded.registry maxDepth table s args).1 = .ok n)
    (hm : FetchedBy loaded.registry n m) :
    m.Resolves loaded.registry ∧
      (∀ f, Fetch.ofNode loaded.registry m = .error f →
        Node.Refuses loaded.registry m f ∧ ∀ name, f ≠ .mishap (.keyMissing name)) ∧
      ∀ f, Fetch.ofNode loaded.registry m = .ok f → f.Exposes := by
  have hr := Loading.consistent_of_load h hcolumns heven
  have hresolves := hm.resolves hr (Plan.resolves_of_ofSelection hr hn)
  refine ⟨hresolves, fun f hf => ?_, fun f => Fetch.exposes_of_ofNode⟩
  have hrefuses := Fetch.refuses_of_ofNode hr hresolves hf
  refine ⟨hrefuses, fun name => ?_⟩
  obtain ⟨levels, level, t, p, -, -, -, hrefused⟩ := hrefuses
  exact hrefused.ne_keyMissing

/-! ## The writers of books -/

namespace Writers

open Loading.Catalogue

def toBooks : Relation := ⟨"books", true, "authors", "books", ["id"], ["author"]⟩

def toWriter : Relation := ⟨"writer", false, "books", "authors", ["author"], ["id"]⟩

/-- For each author the books, and for each book its writer. -/
def writersOfBooks : Selection :=
  let id : Selection := ⟨"id", none, [], []⟩
  let writer : Selection := ⟨"writer", none, [], [("id", id)]⟩
  let books : Selection := ⟨"books", none, [], [("writer", writer)]⟩
  ⟨"authorsFindMany", none, [], [("books", books)]⟩

/-- The plan for the writers of books. Of the books nothing is asked for but their writers. -/
def plan : Node :=
  { table := "authors"
    relations := [("books", { table := "books", relation := some toBooks
                              relations := [("writer", { table := "authors", columns := ["id"]
                                                         relation := some toWriter })] })] }

/-- The books are read with the column by which their writers are found, which nobody asked for. -/
theorem found_writersOfBooks : ∃ loaded f,
    Loading.load (declared ["author"]) everything = .ok loaded ∧
    (Plan.ofSelection loaded.registry 2 "authors" writersOfBooks []).1 = .ok plan ∧
    plan.Resolves loaded.registry ∧ Fetch.ofNode loaded.registry plan = .ok f ∧ f.Exposes ∧
    f.nested.map (fun kv => (kv.2.columns.map (·.name), kv.2.exposed.map (·.name))) =
      [([], ["author"])] := by
  obtain ⟨loaded, hloaded⟩ :
    ∃ loaded, Loading.load (declared ["author"]) everything = .ok loaded := ⟨_, rfl⟩
  obtain ⟨hcolumns, heven, ⟨authors, books, htables, hnames, hauthors, hbooks⟩, f, hf, hexposed⟩ :
      (∀ t ∈ loaded.registry.all, t.columns ≠ []) ∧
      (∀ t ∈ loaded.registry.all, ∀ rel ∈ Members.values t.relations,
        rel.fields.length = rel.references.length) ∧
      (∃ authors books, (loaded.registry.table "authors" = .ok authors ∧
          loaded.registry.table toBooks.target = .ok books ∧
          loaded.registry.table toWriter.target = .ok authors) ∧
        (authors.name = "authors" ∧ books.name = "books") ∧
        (authors.hasColumn "books" = false ∧ authors.hasColumn "id" = true ∧
          authors.relation? "books" = some toBooks) ∧
        books.hasColumn "writer" = false ∧ books.relation? "writer" = some toWriter) ∧
      ∃ f, Fetch.ofNode loaded.registry plan = .ok f ∧
        f.nested.map (fun kv => (kv.2.columns.map (·.name), kv.2.exposed.map (·.name))) =
          [([], ["author"])] := by
    cases hloaded
    exact ⟨by decide, by decide, ⟨_, _, ⟨rfl, rfl, rfl⟩, ⟨rfl, rfl⟩, ⟨rfl, rfl, rfl⟩, rfl, rfl⟩, _,
      rfl, rfl⟩
  have hn : (Plan.ofSelection loaded.registry 2 "authors" writersOfBooks []).1 = .ok plan := by
    simp [Plan.ofSelection, Plan.addFields, Plan.addField, writersOfBooks, htables, hnames,
      hauthors, hbooks, Plan.level_nil, Plan.relationKey, Plan.addColumn, Members.put, plan]
  obtain ⟨hresolves, -, hexposes⟩ := found_of_load hloaded hcolumns heven hn .itself
  exact ⟨loaded, f, hloaded, hn, hresolves, hf, hexposes f hf, hexposed⟩

end Writers

end RelGraph.Sql
