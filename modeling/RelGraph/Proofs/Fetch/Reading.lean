import RelGraph.Proofs.Plan.RowKeys
import RelGraph.Proofs.Fetch.Presence
/-!
What callers read of a relation. They read it under its response key, and the row has it under the
row key of that; so they read what was planned for the relation as long as no other relation of the
level has taken the row key.
-/
namespace RelGraph.Direct

open Store Sql Outcome Plan Hydration

/-- Callers read of a relation what belongs to it: nothing where it is cut off, and else what its
own plan shows of a payload. -/
def ReadsOwn (r : Registry) (maxDepth depth : Nat) (t : Table) (f : RelationField)
    (payloadOf : Node → Value → Prop) (v : Value) : Prop :=
  if depth + 1 > maxDepth then readRelation t f.relation f.key v = emptyValue f.relation
  else ∃ child payload, childPlan r maxDepth depth f = .ok child ∧ payloadOf child payload ∧
    relationValue r child payload = .ok (readRelation t f.relation f.key v)

section Level

variable {r : Registry} {maxDepth depth : Nat} {t : Table} {args : Members Value}
  {relation : Option Relation} {fields : List (String × Selection)} {n : Node} {f : RelationField}

theorem relation_of_childPlan {child : Node} (h : childPlan r maxDepth depth f = .ok child) :
    child.relation = some f.relation := by
  obtain ⟨target, -, h⟩ := bind_eq_ok.mp h
  exact (relation_of_ofFields h).2

/-- Of any fetched row, the last relation that comes to a row key shows what the row has under that
key. -/
theorem readsOwn_row (h : ofFields r maxDepth depth t args relation fields = .ok n)
    (hf : IsLast t fields f) {ms : Members Value} {v : Value}
    (hrow : Hydration.row r n (.object ms) = .ok v) :
    ReadsOwn r maxDepth depth t f (fun _ payload =>
      decode ((Members.get? ms (relationKey t f.key)).getD .null) = .ok payload) v := by
  have hentry := hasEntry_of_isLast h hf
  rw [HasEntry] at hentry
  rw [ReadsOwn]
  split at hentry
  · rename_i hdeep
    rw [if_pos hdeep, readRelation, field_truncated hrow (nodup_truncated h) hentry]
    cases hmany : f.relation.toMany <;> simp [emptyValue, hmany, Value.isNull]
  · rename_i hdeep
    obtain ⟨child, hchild, hfound⟩ := hentry
    rw [if_neg hdeep]
    have hshown := field_relation (relation_of_ofFields h).1 hrow (Members.mem_of_get? hfound)
    obtain ⟨payload, hpayload, hvalue⟩ := bind_eq_ok.mp hshown
    refine ⟨child, payload, hchild, hpayload, ?_⟩
    rw [readRelation_of_shown (relation_of_childPlan hchild) hvalue]
    exact hvalue

/-- Of a row that callers see, the last relation that comes to a row key shows what its own plan
asks for below the row. -/
theorem SeenAs.readsOwn {read : Column → Cell → Except Refusal Value} {scan : Scan} {db : Database}
    {row : StoredRow} {v : Value} (hseen : SeenAs read scan r db n t row v)
    (h : ofFields r maxDepth depth t args relation fields = .ok n) (hf : IsLast t fields f) :
    ReadsOwn r maxDepth depth t f (fun child payload =>
      value scan r db t row child = .ok payload) v := by
  have hentry := hasEntry_of_isLast h hf
  obtain ⟨ms, hcarries, hrow⟩ := hseen.carried
  have hreads := readsOwn_row h hf hrow
  rw [HasEntry] at hentry
  rw [ReadsOwn] at hreads ⊢
  split at hreads
  · rename_i hdeep
    rw [if_pos hdeep]
    exact hreads
  · rename_i hdeep
    rw [if_neg hdeep] at hentry ⊢
    obtain ⟨child, payload, hchild, hpayload, hvalue⟩ := hreads
    obtain ⟨child', hchild', hfound⟩ := hentry
    obtain rfl : child' = child := Except.ok.inj (hchild'.symm.trans hchild)
    have hmem := Members.mem_of_get? hfound
    obtain ⟨w, hw, hmember⟩ := hcarries.relation _ hmem
    obtain ⟨rel, hrel, -⟩ := hseen.planned.attached _ hmem
    obtain ⟨target, _, htarget, -⟩ := (hseen.fetchable.of_mem _ hmem).table_columns
    obtain ⟨objects, -, hshape⟩ :=
      value_eq_ok htarget hrel (hseen.planned.of_mem _ hmem).keys hw
    rw [hmember, Option.getD_some, decode_of_value hshape] at hpayload
    obtain rfl := Except.ok.inj hpayload
    exact ⟨child', _, hchild, hw, hvalue⟩

end Level

/-- The row keys of the relations of a level are all apart unless a response key is that of another
relation marked, and none is the name of a column unless a marked response key is one. The last
relation that comes to a row key, and so each of them where they are apart, has its own entry in the
plan of the level; what callers read under its response key is what the row has under its row key,
and wherever they see a row in a fetch, it is what its own plan asks for below that row. -/
theorem relations_of_level (r : Registry) (maxDepth depth : Nat) (t : Table) (args : Members Value)
    (relation : Option Relation) (fields : List (String × Selection)) (n : Node)
    (hkeys : (Members.names fields).Nodup)
    (h : ofFields r maxDepth depth t args relation fields = .ok n) :
    ((rowKeys t fields).Nodup ↔ ¬ MarksClash t fields) ∧
      ((∀ key ∈ rowKeys t fields, t.hasColumn key = false) ↔ ¬ MarkShadows t fields) ∧
      (¬ MarksClash t fields → ∀ f ∈ relationFields t fields, IsLast t fields f) ∧
      ∀ f, IsLast t fields f →
        HasEntry r maxDepth depth t n f ∧
          (∀ ms v, Hydration.row r n (.object ms) = .ok v →
            ReadsOwn r maxDepth depth t f (fun _ payload =>
              decode ((Members.get? ms (relationKey t f.key)).getD .null) = .ok payload) v) ∧
          ∀ (access : Access) (s : Storage) (root : Node) (rows : List Value),
            s.Fetched r access root rows → r.table? n.table = some t →
            ∃ scan : Scan, ∀ i path v, shownAt root rows i path = some (n, v) →
              ∃ row, rowAt scan r (s.seen access) root i path = some (n, t, row) ∧
                ReadsOwn r maxDepth depth t f (fun child payload =>
                  value scan r (s.seen access) t row child = .ok payload) v := by
  refine ⟨nodup_rowKeys_iff hkeys, rowKeys_not_column_iff,
    fun hclash f hf => isLast_of_nodup ((nodup_rowKeys_iff hkeys).mpr hclash) hf, fun f hf => ?_⟩
  refine ⟨hasEntry_of_isLast h hf, fun ms v hrow => readsOwn_row h hf hrow, ?_⟩
  intro access s root rows hfetched htable
  refine ⟨scanOf r, fun i path v hat => ?_⟩
  obtain ⟨u, row, hrow, hseen⟩ := seen_of_fetched hfetched hat
  obtain rfl : u = t := Option.some.inj (hseen.table.symm.trans htable)
  exact ⟨row, hrow, hseen.readsOwn h hf⟩

namespace Family

/-- The parent, asked for with columns. -/
def parentField (fields : List String) : RelationField :=
  ⟨"parent", toParent, ⟨"parent", none, [], fields.map fun name => (name, ⟨name, none, [], []⟩)⟩⟩

/-- Of the child callers see its parent as it was asked for. -/
theorem reads_parentOfEach :
    ¬ MarksClash child (childrenWith ["mark"]).fields ∧
      HasEntry registry 5 0 child (parentOfEach ["mark"]) (parentField ["mark"]) ∧
      ∃ scan row, rowAt scan registry storage.committed (parentOfEach ["mark"]) 0 [] =
          some (parentOfEach ["mark"], child, row) ∧
        ReadsOwn registry 5 0 child (parentField ["mark"])
          (fun below payload => value scan registry storage.committed child row below = .ok payload)
          (.object [("id", .int 5),
            ("parent", .object [("mark", .text "12345678123456781234567812345678")])]) := by
  have hplan : ofFields registry 5 0 child [] none (childrenWith ["mark"]).fields =
      .ok (parentOfEach ["mark"]) := by cbv
  have hclash : ¬ MarksClash child (childrenWith ["mark"]).fields := by decide
  obtain ⟨-, -, hlast, hreads⟩ := relations_of_level registry 5 0 child [] none
    (childrenWith ["mark"]).fields (parentOfEach ["mark"]) (by decide) hplan
  obtain ⟨hentry, -, hfetched⟩ := hreads (parentField ["mark"])
    (hlast hclash _ (List.mem_singleton_self _))
  obtain ⟨scan, hat⟩ := hfetched .own storage _ _ fetched_mark rfl
  obtain ⟨row, hrow, hown⟩ := hat 0 [] _ rfl
  exact ⟨hclash, hentry, scan, row, hrow, hown⟩

/-- Children asked for as far as a limit, under a response key. -/
def childrenField (key : String) (args : Members Value) : RelationField :=
  ⟨key, toChildren, ⟨"children", some key, args, [("id", ⟨"id", none, [], []⟩)]⟩⟩

/-- All parents, none of their children under `id` and all of them under `_id`. -/
def childrenTwice : Selection :=
  ⟨"parentFindMany", none, [], [childrenField "id" [("limit", .int 0)], childrenField "_id" []].map
    fun f => (f.key, f.selection)⟩

/-- Children up to some number. -/
def childrenUpTo (limit : Option Nat) : Node :=
  { table := "child", columns := ["id"], limit := limit, relation := some toChildren }

/-- All parents with all of their children, under one key. -/
def childrenOnce : Node := { table := "parent", relations := [("_id", childrenUpTo none)] }

theorem value_childrenUpTo (scan : Scan) (limit : Option Nat) :
    value scan registry storage.committed parent parentRow (childrenUpTo limit) =
      .ok (.list (window limit none [.object [("id", .int 5)]])) := by
  have hkept : linked parent child toChildren parentRow childRow = true := rfl
  have hrelated : relatedRows scan storage.committed parent parentRow child toChildren
      (childrenUpTo limit) = window limit none [childRow] := by
    show window limit none (sorted child _ ((scan.arrange _ _ [childRow]).filter _)) = _
    rw [Scan.arrange_singleton, List.filter_cons_of_pos (by rw [hkept]; rfl), List.filter_nil,
      sorted, List.mergeSort_singleton]
  have hobject : ∀ limit, window limit none [childRow] = [childRow] ∧
        window limit none [Value.object [("id", .int 5)]] = [Value.object [("id", .int 5)]] ∨
      window limit none [childRow] = [] ∧
        window limit none [Value.object [("id", .int 5)]] = [] := by
    rintro (_ | _ | limit)
    · exact .inl ⟨rfl, rfl⟩
    · exact .inr ⟨rfl, rfl⟩
    · exact .inl ⟨by simp [window], by simp [window]⟩
  rw [value_eq scan parent parentRow rfl rfl, hrelated]
  rcases hobject limit with ⟨hrow, hvalue⟩ | ⟨hrow, hvalue⟩ <;> rw [hrow, hvalue] <;> rfl

theorem fetched_childrenOnce : storage.Fetched registry .own childrenOnce
    [.object [("_id", .list [.object [("id", .int 5)]])]] := by
  have hroot (scan : Scan) : rootRows scan storage.committed parent childrenOnce = [parentRow] :=
    rootRows_eq_singleton scan rfl rfl rfl rfl
  have hresult (scan : Scan) : Direct.result scan registry storage.committed childrenOnce =
      .ok [.object [("_id", .list [.object [("id", .int 5)]])]] := by
    have htable : registry.table? childrenOnce.table = some parent := rfl
    unfold Direct.result
    rw [htable]
    dsimp only
    rw [hroot]
    simp only [List.mapM_cons, List.mapM_nil, childrenOnce, value_childrenUpTo, bind, Except.bind,
      pure, Except.pure]
    rfl
  obtain ⟨f, hf, hapart, hbound⟩ : ∃ f, Fetch.ofNode registry childrenOnce = .ok f ∧ f.RootApart ∧
      (Storage.boundCells (Fetch.checkSize f) (Dialect.sqlite.fetch f)).toOption.isSome := by
    refine ⟨_, rfl, ?_, by decide +kernel⟩
    show ∀ s ∈ [Source.again 1, .derived 2], s.plainName ≠ (Source.table "parent").plainName
    decide +kernel
  have hplan : (Plan.ofSelection registry 5 "parent" childrenTwice []).1 = .ok childrenOnce := by
    cbv
  refine ⟨Plan.planned_ofSelection hplan, ⟨f, hf, hapart⟩, Storage.fetch_of_result hf hbound
    ((result_eq hf (Scoping.tellsApart_of_rootApart hf hapart)).trans (hresult _)) ?_⟩
  have hrow : Hydration.row registry (childrenUpTo none) (.object [("id", .int 5)]) =
      .ok (.object [("id", .int 5)]) := by
    simp only [childrenUpTo, Hydration.row, Hydration.relationValues]
    rfl
  have hchildren : Hydration.relationValue registry (childrenUpTo none)
      (.list [.object [("id", .int 5)]]) = .ok (.list [.object [("id", .int 5)]]) := by
    rw [Hydration.relationValue_list _ rfl rfl, List.mapM_cons, hrow]
    rfl
  simp only [Hydration.rows, List.mapM_cons, List.mapM_nil, childrenOnce, Hydration.row,
    Hydration.relationValues]
  rw [show Shape.members "get" _ = .ok [("_id", .list [.object [("id", .int 5)]])] from rfl]
  simp only [bind, Except.bind, Members.get?, Option.getD, if_true, decode, hchildren]
  rfl

/-- The marked key of the children that are asked for as `id` is the key of those that are asked for
as `_id`, and callers read the latter under both. -/
theorem children_under_one_key :
    (Members.names childrenTwice.fields).Nodup ∧
      (Plan.ofSelection registry 5 "parent" childrenTwice []).1 = .ok childrenOnce ∧
      rowKeys parent childrenTwice.fields = ["_id", "_id"] ∧
      childPlan registry 5 0 (childrenField "id" [("limit", .int 0)]) =
        .ok (childrenUpTo (some 0)) ∧
      (∀ scan, value scan registry storage.committed parent parentRow (childrenUpTo (some 0)) =
        .ok (.list [])) ∧
      storage.Fetched registry .own childrenOnce
        [.object [("_id", .list [.object [("id", .int 5)]])]] ∧
      readRelation parent toChildren "id"
        (.object [("_id", .list [.object [("id", .int 5)]])]) =
          .list [.object [("id", .int 5)]] := by
  refine ⟨by decide, by cbv, by decide, by cbv, fun scan => value_childrenUpTo scan (some 0),
    fetched_childrenOnce, by cbv⟩

end Family

end RelGraph.Direct
