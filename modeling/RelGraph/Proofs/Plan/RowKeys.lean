import RelGraph.Proofs.Plan.Planned
/-!
Row keys. What a row has for a relation goes by a row key: the response key, with a mark before it
where a column has that name. Two relations of a level can come to one row key, since a response key
may look like another one marked; the plan then keeps the last of them. The plan of a level is read
back here as what each of its fields put there.
-/
namespace RelGraph.Plan

open Outcome

/-! ## Keys -/

/-- A relation that a field asks for. -/
structure RelationField where
  key : String
  relation : Relation
  selection : Selection
deriving Repr, Inhabited

/-- The relations that fields ask for, in their order. -/
def relationFields (t : Table) (fields : List (String × Selection)) : List RelationField :=
  fields.filterMap fun (key, s) =>
    if t.hasColumn s.name then none else (t.relation? s.name).map fun rel => ⟨key, rel, s⟩

/-- The response keys of the relations that fields ask for. -/
def relationKeys (t : Table) (fields : List (String × Selection)) : List String :=
  (relationFields t fields).map (·.key)

/-- The row keys of the relations that fields ask for. -/
def rowKeys (t : Table) (fields : List (String × Selection)) : List String :=
  (relationKeys t fields).map (relationKey t)

/-- A response key is that of another relation marked: the mark is set where a column has the name,
and not set a second time. -/
def MarksClash (t : Table) (fields : List (String × Selection)) : Prop :=
  ∃ key ∈ relationKeys t fields, t.hasColumn key = true ∧
    "_" ++ key ∈ relationKeys t fields ∧ t.hasColumn ("_" ++ key) = false

instance (t : Table) (fields : List (String × Selection)) : Decidable (MarksClash t fields) :=
  inferInstanceAs (Decidable (∃ key ∈ relationKeys t fields, t.hasColumn key = true ∧
    "_" ++ key ∈ relationKeys t fields ∧ t.hasColumn ("_" ++ key) = false))

/-- A response key is the name of a column also when it is marked. -/
def MarkShadows (t : Table) (fields : List (String × Selection)) : Prop :=
  ∃ key ∈ relationKeys t fields, t.hasColumn key = true ∧ t.hasColumn ("_" ++ key) = true

variable {t : Table} {fields : List (String × Selection)}

theorem relationKey_of_column {key : String} (h : t.hasColumn key = true) :
    relationKey t key = "_" ++ key := by
  rw [relationKey, if_pos h]

theorem relationKey_of_not_column {key : String} (h : t.hasColumn key = false) :
    relationKey t key = key := by
  simp [relationKey, h]

theorem relationKeys_cons {key : String} {s : Selection} {rest : List (String × Selection)} :
    relationKeys t ((key, s) :: rest) =
      if t.hasColumn s.name = false ∧ (t.relation? s.name).isSome then key :: relationKeys t rest
      else relationKeys t rest := by
  cases hcolumn : t.hasColumn s.name <;> cases hrel : t.relation? s.name <;>
    simp [relationKeys, relationFields, hcolumn, hrel]

theorem relationKeys_sublist : (relationKeys t fields).Sublist (Members.names fields) := by
  induction fields with
  | nil => exact .slnil
  | cons field rest ih =>
    obtain ⟨key, s⟩ := field
    rw [relationKeys_cons]
    split
    · exact ih.cons_cons key
    · exact ih.cons key

/-- Row keys are all apart unless a marked response key clashes with another one. -/
theorem nodup_rowKeys_iff (h : (Members.names fields).Nodup) :
    (rowKeys t fields).Nodup ↔ ¬ MarksClash t fields := by
  rw [rowKeys, List.nodup_map_iff_inj_on (relationKeys_sublist.nodup h)]
  constructor
  · rintro hinj ⟨key, hkey, hcolumn, hmarked, hnone⟩
    have hsame := hinj key hkey ("_" ++ key) hmarked
      (by rw [relationKey_of_column hcolumn, relationKey_of_not_column hnone])
    rw [← hsame, hcolumn] at hnone
    cases hnone
  · intro hclash a ha b hb hab
    cases hacol : t.hasColumn a <;> cases hbcol : t.hasColumn b
    · rwa [relationKey_of_not_column hacol, relationKey_of_not_column hbcol] at hab
    · rw [relationKey_of_not_column hacol, relationKey_of_column hbcol] at hab
      exact absurd ⟨b, hb, hbcol, hab ▸ ha, hab ▸ hacol⟩ hclash
    · rw [relationKey_of_column hacol, relationKey_of_not_column hbcol] at hab
      exact absurd ⟨a, ha, hacol, hab ▸ hb, hab ▸ hbcol⟩ hclash
    · rw [relationKey_of_column hacol, relationKey_of_column hbcol] at hab
      exact (String.append_right_inj "_").mp hab

/-- No row key is the name of a column unless a marked response key is one. -/
theorem rowKeys_not_column_iff :
    (∀ key ∈ rowKeys t fields, t.hasColumn key = false) ↔ ¬ MarkShadows t fields := by
  rw [rowKeys, List.forall_mem_map]
  constructor
  · rintro hfree ⟨key, hkey, hcolumn, hmarked⟩
    have hnone := hfree key hkey
    rw [relationKey_of_column hcolumn, hmarked] at hnone
    cases hnone
  · intro hshadow key hkey
    cases hcolumn : t.hasColumn key with
    | false => rw [relationKey_of_not_column hcolumn, hcolumn]
    | true =>
      rw [relationKey_of_column hcolumn]
      cases hmarked : t.hasColumn ("_" ++ key) with
      | false => rfl
      | true => exact absurd ⟨key, hkey, hcolumn, hmarked⟩ hshadow

/-- A relation is the last of its level that comes to its row key. -/
def IsLast (t : Table) (fields : List (String × Selection)) (f : RelationField) : Prop :=
  ∃ before after, relationFields t fields = before ++ f :: after ∧
    relationKey t f.key ∉ after.map fun g => relationKey t g.key

theorem isLast_of_nodup (h : (rowKeys t fields).Nodup) {f : RelationField}
    (hf : f ∈ relationFields t fields) : IsLast t fields f := by
  obtain ⟨before, after, hsplit⟩ := List.append_of_mem hf
  refine ⟨before, after, hsplit, ?_⟩
  rw [rowKeys, relationKeys, hsplit, List.map_append, List.map_append, List.map_cons,
    List.map_cons, List.nodup_append] at h
  have hnot := (List.nodup_cons.mp h.2.1).1
  rwa [List.map_map] at hnot

/-! ## What a field puts into the plan -/

section Fields

variable {r : Registry} {maxDepth depth : Nat}

/-- The plan of a level, for the arguments and the fields that are asked for there. -/
def ofFields (r : Registry) (maxDepth depth : Nat) (t : Table) (args : Members Value)
    (relation : Option Relation) (fields : List (String × Selection)) : Attempt Node := do
  let start ← level t args relation
  (addFields r maxDepth depth t start [] fields).1

/-- The plan below a relation of a level. -/
def childPlan (r : Registry) (maxDepth depth : Nat) (f : RelationField) : Attempt Node := do
  let target ← r.table f.relation.target
  ofFields r maxDepth (depth + 1) target f.selection.args (some f.relation) f.selection.fields

/-- The plan for a root field is that of its level. -/
theorem ofSelection_fst {table : String} {s : Selection} {args : Members Value} :
    (ofSelection r maxDepth table s args).1 =
      r.table table >>= fun t => ofFields r maxDepth 0 t args none s.fields := by
  rw [ofSelection]
  cases r.table table with
  | error e => rfl
  | ok t =>
    simp only [bind, Except.bind, ofFields]
    cases level t args none <;> rfl

mutual

/-- Warnings have no part in what a plan becomes. -/
theorem addFields_fst {r : Registry} {maxDepth depth : Nat} {t : Table} {n : Node}
    (warnings warnings' : List String) (fields : List (String × Selection)) :
    (addFields r maxDepth depth t n warnings fields).1 =
      (addFields r maxDepth depth t n warnings' fields).1 := by
  match fields with
  | [] => rfl
  | (key, s) :: rest =>
    have hfirst : (addField r maxDepth depth t n warnings key s).1 =
        (addField r maxDepth depth t n warnings' key s).1 := addField_fst warnings warnings' key s
    rw [addFields, addFields]
    split <;> rename_i hadded <;> split <;> rename_i hadded' <;>
      simp only [hadded, hadded'] at hfirst
    · exact hfirst
    · cases hfirst
    · cases hfirst
    · obtain rfl := Except.ok.inj hfirst
      exact addFields_fst _ _ rest

theorem addField_fst {r : Registry} {maxDepth depth : Nat} {t : Table} {n : Node}
    (warnings warnings' : List String) (key : String) (s : Selection) :
    (addField r maxDepth depth t n warnings key s).1 =
      (addField r maxDepth depth t n warnings' key s).1 := by
  match s with
  | ⟨name, _, args, fields⟩ =>
    rw [addField, addField]
    split
    · rfl
    · split
      · rfl
      · rename_i rel hrel
        dsimp only
        split
        · rfl
        · split
          · rfl
          · rename_i target htarget
            split
            · rfl
            · rename_i start hstart
              have hbelow : (addFields r maxDepth (depth + 1) target start warnings fields).1 =
                  (addFields r maxDepth (depth + 1) target start warnings' fields).1 :=
                addFields_fst warnings warnings' fields
              split <;> rename_i hgrown <;> split <;> rename_i hgrown' <;>
                simp only [hgrown, hgrown'] at hbelow
              · rw [Except.error.inj hbelow]
              · cases hbelow
              · cases hbelow
              · rw [Except.ok.inj hbelow]

end

/-- The columns that fields ask for. -/
def columnNames (t : Table) (fields : List (String × Selection)) : List String :=
  (fields.map (·.2.name)).filter t.hasColumn

/-- Columns with further ones, each once. -/
def addedColumns (columns names : List String) : List String :=
  names.foldl (fun columns name => if columns.contains name then columns else columns ++ [name])
    columns

/-- The plans below the relations of a level, under their row keys. -/
def childPlans (r : Registry) (maxDepth depth : Nat) (t : Table)
    (fields : List (String × Selection)) : Attempt (Members Node) :=
  (relationFields t fields).mapM fun f => do
    return (relationKey t f.key, ← childPlan r maxDepth depth f)

/-- The relations of a level, under their row keys. -/
def namedRelations (t : Table) (fields : List (String × Selection)) : Members Relation :=
  (relationFields t fields).map fun f => (relationKey t f.key, f.relation)

theorem addColumn_eq (n : Node) (name : String) :
    addColumn n name = { n with columns := addedColumns n.columns [name] } := by
  cases n
  simp only [addColumn, addedColumns, List.foldl_cons, List.foldl_nil]
  split <;> rfl

/-- What a field puts into a plan, whether or not planning goes well. -/
theorem addField_fst_eq (n : Node) (warnings : List String) (key : String) (s : Selection) :
    (addField r maxDepth depth t n warnings key s).1 =
      if t.hasColumn s.name then .ok (addColumn n s.name)
      else match t.relation? s.name with
        | none => .ok n
        | some rel =>
          if depth + 1 > maxDepth then
            .ok { n with truncated := Members.put n.truncated (relationKey t key) rel }
          else do
            let child ← childPlan r maxDepth depth ⟨key, rel, s⟩
            return { n with relations := Members.put n.relations (relationKey t key) child } := by
  obtain ⟨name, label, args, fields⟩ := s
  rw [addField]
  split
  · rfl
  · cases t.relation? name with
    | none => rfl
    | some rel =>
      dsimp only
      split
      · rfl
      · rw [childPlan]
        cases r.table rel.target with
        | error e => rfl
        | ok target =>
          simp only [ofFields, bind, Except.bind]
          cases level target args (some rel) with
          | error e => rfl
          | ok start =>
            dsimp only
            rw [addFields_fst [] warnings]
            cases addFields r maxDepth (depth + 1) target start warnings fields with
            | mk grown warnings' => cases grown <;> rfl

theorem addFields_fst_cons (n : Node) (warnings : List String) (key : String) (s : Selection)
    (rest : List (String × Selection)) :
    (addFields r maxDepth depth t n warnings ((key, s) :: rest)).1 =
      (addField r maxDepth depth t n warnings key s).1 >>= fun n =>
        (addFields r maxDepth depth t n warnings rest).1 := by
  rw [addFields]
  split <;> rename_i hadded <;> rw [hadded]
  · rfl
  · exact addFields_fst _ _ rest

/-- At the limit no plan fails for its fields, since no arguments below are read. -/
theorem addFields_of_le (hlimit : maxDepth ≤ depth) (n : Node) (warnings : List String)
    (fields : List (String × Selection)) :
    (addFields r maxDepth depth t n warnings fields).1 =
      .ok { n with
        columns := addedColumns n.columns (columnNames t fields)
        truncated := Members.update n.truncated (namedRelations t fields) } := by
  induction fields generalizing n with
  | nil =>
    cases n
    rfl
  | cons field rest ih =>
    obtain ⟨key, s⟩ := field
    rw [addFields_fst_cons, addField_fst_eq]
    cases hcolumn : t.hasColumn s.name with
    | true =>
      rw [if_pos rfl, addColumn_eq]
      refine (ih _).trans ?_
      simp [columnNames, namedRelations, relationFields, hcolumn, addedColumns]
    | false =>
      rw [if_neg (by simp)]
      cases hrel : t.relation? s.name with
      | none =>
        refine (ih _).trans ?_
        simp [columnNames, namedRelations, relationFields, hcolumn, hrel]
      | some rel =>
        simp only
        rw [if_pos (by omega)]
        refine (ih _).trans ?_
        simp [columnNames, namedRelations, relationFields, hcolumn, hrel, Members.update]

/-- Above the limit the plans below the relations of a level come first, one after the other. -/
theorem addFields_of_lt (hlimit : depth < maxDepth) (n : Node) (warnings : List String)
    (fields : List (String × Selection)) :
    (addFields r maxDepth depth t n warnings fields).1 = do
      let children ← childPlans r maxDepth depth t fields
      return { n with
        columns := addedColumns n.columns (columnNames t fields)
        relations := Members.update n.relations children } := by
  induction fields generalizing n with
  | nil =>
    cases n
    rfl
  | cons field rest ih =>
    obtain ⟨key, s⟩ := field
    rw [addFields_fst_cons, addField_fst_eq]
    cases hcolumn : t.hasColumn s.name with
    | true =>
      rw [if_pos rfl, addColumn_eq]
      refine (ih _).trans ?_
      simp [columnNames, childPlans, relationFields, hcolumn, addedColumns]
    | false =>
      rw [if_neg (by simp)]
      cases hrel : t.relation? s.name with
      | none =>
        refine (ih _).trans ?_
        simp [columnNames, childPlans, relationFields, hcolumn, hrel]
      | some rel =>
        have hfields : relationFields t ((key, s) :: rest) =
            ⟨key, rel, s⟩ :: relationFields t rest := by
          simp [relationFields, hcolumn, hrel]
        simp only
        -- What the rest puts there does not depend on the plan below the first relation, so that
        -- can be made beforehand.
        rw [if_neg (by omega), childPlans, hfields, List.mapM_cons]
        simp only [bind_assoc, pure_bind]
        refine congrArg _ (funext fun child => ?_)
        refine (ih _).trans ?_
        simp [columnNames, childPlans, hcolumn, Members.update]

/-- What the fields of a level put into its plan, one after the other: its relations are all cut off
or all followed. -/
theorem addFields_eq_ok {n n' : Node} {warnings : List String}
    (h : (addFields r maxDepth depth t n warnings fields).1 = .ok n') :
    if depth + 1 > maxDepth then
      n' = { n with
        columns := addedColumns n.columns (columnNames t fields)
        truncated := Members.update n.truncated (namedRelations t fields) }
    else ∃ children, childPlans r maxDepth depth t fields = .ok children ∧
      n' = { n with
        columns := addedColumns n.columns (columnNames t fields)
        relations := Members.update n.relations children } := by
  split
  · rename_i hdeep
    rw [addFields_of_le (Nat.lt_succ_iff.mp hdeep)] at h
    exact (Except.ok.inj h).symm
  · rename_i hdeep
    rw [addFields_of_lt (Nat.not_lt.mp hdeep)] at h
    obtain ⟨children, hchildren, h⟩ := bind_eq_ok.mp h
    exact ⟨children, hchildren, (pure_eq_ok.mp h).symm⟩

/-- The plans below the relations of a level are found one by one. -/
theorem childPlans_eq_ok {children : Members Node} :
    childPlans r maxDepth depth t fields = .ok children ↔
      List.Forall₂ (fun f child => child.1 = relationKey t f.key ∧
        childPlan r maxDepth depth f = .ok child.2) (relationFields t fields) children := by
  rw [childPlans, mapM_eq_ok]
  constructor
  · refine fun h => h.imp fun f kv hkv => ?_
    obtain ⟨child, hchild, hkv⟩ := bind_eq_ok.mp hkv
    obtain rfl := pure_eq_ok.mp hkv
    exact ⟨rfl, hchild⟩
  · refine fun h => h.imp fun f kv hkv => ?_
    rw [bind_of_eq_ok hkv.2, ← hkv.1]
    rfl

theorem names_namedRelations : Members.names (namedRelations t fields) = rowKeys t fields := by
  simp [namedRelations, Members.names, rowKeys, relationKeys]

theorem names_childPlans {children : Members Node}
    (h : childPlans r maxDepth depth t fields = .ok children) :
    Members.names children = rowKeys t fields := by
  have hkeys := (mapM_named_eq_ok h).1
  rw [hkeys, rowKeys, relationKeys, List.map_map]
  rfl

/-- Two plans are about the same rows of the same table. -/
structure SameRows (n n' : Node) : Prop where
  table : n'.table = n.table
  condition : n'.condition = n.condition
  orderBy : n'.orderBy = n.orderBy
  limit : n'.limit = n.limit
  offset : n'.offset = n.offset

/-- Fields ask for more of the rows of a level, never for other rows. -/
theorem sameRows_addFields {n n' : Node} {warnings : List String}
    (h : (addFields r maxDepth depth t n warnings fields).1 = .ok n') : SameRows n n' := by
  have hadded := addFields_eq_ok h
  split at hadded
  · rw [hadded]
    exact ⟨rfl, rfl, rfl, rfl, rfl⟩
  · obtain ⟨children, -, rfl⟩ := hadded
    exact ⟨rfl, rfl, rfl, rfl, rfl⟩

theorem mem_addedColumns {columns names : List String} {name : String} :
    name ∈ addedColumns columns names ↔ name ∈ columns ∨ name ∈ names := by
  induction names generalizing columns with
  | nil => simp [addedColumns]
  | cons first rest ih =>
    rw [addedColumns, List.foldl_cons, ← addedColumns, ih]
    split
    · rename_i hthere
      have hfirst : first ∈ columns := List.contains_iff_mem.mp hthere
      refine ⟨Or.imp id (List.mem_cons_of_mem _), ?_⟩
      rintro (h | h)
      · exact .inl h
      · rcases List.mem_cons.mp h with rfl | h
        · exact .inl hfirst
        · exact .inr h
    · simp [or_assoc]

/-- A plan has the columns that its fields ask for. -/
theorem mem_columns_addFields {n n' : Node} {warnings : List String} {name : String}
    (h : (addFields r maxDepth depth t n warnings fields).1 = .ok n') :
    name ∈ n'.columns ↔ name ∈ n.columns ∨ name ∈ columnNames t fields := by
  have hadded := addFields_eq_ok h
  split at hadded
  · rw [hadded]
    exact mem_addedColumns
  · obtain ⟨children, -, rfl⟩ := hadded
    exact mem_addedColumns

/-- A plan has the relations that its fields ask for, followed or cut off, under their row keys. -/
theorem mem_keys_addFields {n n' : Node} {warnings : List String} {name : String}
    (h : (addFields r maxDepth depth t n warnings fields).1 = .ok n') :
    (name ∈ Members.names n'.relations ∨ name ∈ Members.names n'.truncated) ↔
      (name ∈ Members.names n.relations ∨ name ∈ Members.names n.truncated) ∨
        name ∈ rowKeys t fields := by
  have hadded := addFields_eq_ok h
  split at hadded
  · rw [hadded, Members.mem_names_update, names_namedRelations, or_assoc]
  · obtain ⟨children, hchildren, rfl⟩ := hadded
    rw [Members.mem_names_update, names_childPlans hchildren, or_right_comm]

/-- A relation has its own entry in the plan of a level: what it is, if it is cut off, or else its
own plan. -/
def HasEntry (r : Registry) (maxDepth depth : Nat) (t : Table) (n : Node) (f : RelationField) :
    Prop :=
  if depth + 1 > maxDepth then Members.get? n.truncated (relationKey t f.key) = some f.relation
  else ∃ child, childPlan r maxDepth depth f = .ok child ∧
    Members.get? n.relations (relationKey t f.key) = some child

/-- The last relation that comes to a row key has its own entry under it. -/
theorem hasEntry_of_isLast {args : Members Value} {relation : Option Relation} {n : Node}
    (h : ofFields r maxDepth depth t args relation fields = .ok n) {f : RelationField}
    (hf : IsLast t fields f) : HasEntry r maxDepth depth t n f := by
  obtain ⟨start, -, h⟩ := bind_eq_ok.mp h
  have hadded := addFields_eq_ok h
  obtain ⟨before, after, hsplit, hlast⟩ := hf
  rw [HasEntry]
  split at hadded
  · rename_i hdeep
    rw [if_pos hdeep, hadded, namedRelations, hsplit, List.map_append, List.map_cons]
    refine Members.get?_update_of_last ?_
    simpa [Members.names] using hlast
  · rename_i hdeep
    rw [if_neg hdeep]
    obtain ⟨children, hchildren, rfl⟩ := hadded
    replace hchildren := childPlans_eq_ok.mp hchildren
    rw [hsplit] at hchildren
    obtain ⟨earlier, ⟨key, child⟩, later, rfl, ⟨rfl, hchild⟩, hlater⟩ :=
      split_of_forall₂ hchildren
    refine ⟨child, hchild, Members.get?_update_of_last ?_⟩
    rwa [Members.names, ← map_eq_of_forall₂ (hlater.imp fun _ _ h => h.1)]

/-- What is cut off is kept under names that are all apart. -/
theorem nodup_truncated {args : Members Value} {relation : Option Relation} {n : Node}
    (h : ofFields r maxDepth depth t args relation fields = .ok n) :
    (Members.names n.truncated).Nodup := by
  obtain ⟨start, hstart, h⟩ := bind_eq_ok.mp h
  have hadded := addFields_eq_ok h
  split at hadded
  · rw [hadded, (level_eq_ok hstart).2.1]
    exact Members.nodup_names_update List.nodup_nil
  · obtain ⟨children, -, rfl⟩ := hadded
    rw [(level_eq_ok hstart).2.1]
    exact List.nodup_nil

/-- A plan is that of a level of its relation. -/
theorem relation_of_ofFields {args : Members Value} {relation : Option Relation} {n : Node}
    (h : ofFields r maxDepth depth t args relation fields = .ok n) :
    n.Planned ∧ n.relation = relation := by
  obtain ⟨start, hstart, h⟩ := bind_eq_ok.mp h
  obtain ⟨hgrown, hsame⟩ := growing_addFields fields (growing_of_level hstart) h
  exact ⟨hgrown.planned, hsame.1.trans (level_eq_ok hstart).2.2.1⟩

theorem columns_of_level {args : Members Value} {relation : Option Relation} {n : Node}
    (h : level t args relation = .ok n) : n.columns = [] := by
  obtain ⟨condition, -, h⟩ := bind_eq_ok.mp h
  split at h
  · obtain ⟨_, -, h⟩ := bind_eq_ok.mp h
    obtain ⟨_, -, h⟩ := bind_eq_ok.mp h
    obtain ⟨_, -, h⟩ := bind_eq_ok.mp h
    obtain rfl := pure_eq_ok.mp h
    rfl
  · obtain rfl := pure_eq_ok.mp h
    rfl

/-- The plan of a level has the columns that are asked for, and no others. -/
theorem mem_columns_ofFields {args : Members Value} {relation : Option Relation} {n : Node}
    {key : String} (h : ofFields r maxDepth depth t args relation fields = .ok n) :
    key ∈ n.columns ↔ key ∈ columnNames t fields := by
  obtain ⟨start, hstart, h⟩ := bind_eq_ok.mp h
  rw [mem_columns_addFields h, columns_of_level hstart]
  simp

/-- The plan of a level has the relations that are asked for under their row keys, and no others. -/
theorem mem_keys_ofFields {args : Members Value} {relation : Option Relation} {n : Node}
    {key : String} (h : ofFields r maxDepth depth t args relation fields = .ok n) :
    (key ∈ Members.names n.relations ∨ key ∈ Members.names n.truncated) ↔
      key ∈ rowKeys t fields := by
  obtain ⟨start, hstart, h⟩ := bind_eq_ok.mp h
  obtain ⟨hrelations, htruncated, -, -⟩ := level_eq_ok hstart
  rw [mem_keys_addFields h, hrelations, htruncated]
  simp [Members.names]

end Fields

end RelGraph.Plan
