import RelGraph.Proofs.Plan.RowKeys
/-!
Plans of one request under different depth limits. A plan is cut at a depth where the relations of
all levels that lie so deep are cut off. Planning follows relations down to the limit and cuts them
off there, so a plan under a limit is that under any deeper limit, cut: arguments below the cut are
read only when they lie above the limit.
-/
namespace RelGraph

open Outcome

namespace Node

variable {n m : Node} {limit depth : Nat}

/-- The plan with the relations of all levels at some depth cut off. -/
def cutAt : Nat → Node → Node
  | 0, n => n.withoutRelations
  | depth + 1, n => { n with relations := Members.mapValues (cutAt depth) n.relations }

/-- A plan stands so many relations below another. -/
inductive Below : Nat → Node → Node → Prop
  | here {n : Node} : Below 0 n n
  | relation {depth : Nat} {n child m : Node} {key : String} :
      (key, child) ∈ n.relations → Below depth child m → Below (depth + 1) n m

/-- Relations are followed down to some depth, and are cut off there and nowhere else. -/
def EndsAt : Nat → Node → Prop
  | 0, n => n.relations = []
  | depth + 1, n => n.truncated = [] ∧ ∀ kv ∈ n.relations, EndsAt depth kv.2

theorem depthBelow_le {relations : List (String × Node)}
    (h : ∀ kv ∈ relations, kv.2.depth < limit) : depthBelow relations ≤ limit := by
  induction relations with
  | nil => simp [depthBelow]
  | cons kv rest ih =>
    obtain ⟨key, child⟩ := kv
    have hchild : child.depth < limit := h (key, child) List.mem_cons_self
    have hrest := ih fun kv hkv => h kv (List.mem_cons_of_mem _ hkv)
    rw [depthBelow]
    omega

theorem depth_eq (n : Node) : n.depth = depthBelow n.relations := by
  cases n
  rw [depth]

theorem EndsAt.depth_le (h : n.EndsAt limit) : n.depth ≤ limit := by
  induction limit generalizing n with
  | zero =>
    rw [EndsAt] at h
    simp [depth_eq, h, depthBelow]
  | succ limit ih =>
    obtain ⟨-, hbelow⟩ := h
    rw [depth_eq]
    exact depthBelow_le fun kv hkv => Nat.lt_succ_of_le (ih (hbelow kv hkv))

/-- What is cut off stands at the depth of the limit, beside no relation that is followed. -/
theorem EndsAt.of_truncated (h : n.EndsAt limit) (hm : n.Below depth m) (hcut : m.truncated ≠ []) :
    depth = limit ∧ m.relations = [] := by
  induction hm generalizing limit with
  | here =>
    cases limit with
    | zero => exact ⟨rfl, h⟩
    | succ limit => exact absurd h.1 hcut
  | relation hchild _ ih =>
    cases limit with
    | zero =>
      rw [EndsAt] at h
      simp [h] at hchild
    | succ limit =>
      obtain ⟨rfl, hnone⟩ := ih (h.2 _ hchild) hcut
      exact ⟨rfl, hnone⟩

end Node

namespace Plan

variable {r : Registry} {maxDepth depth : Nat} {t : Table}

/-! ## Levels that are cut -/

/-- The plans below keep the relations that they were asked for through. -/
theorem mapValues_relation {fields : List (String × Selection)} {children : Members Node}
    (h : childPlans r maxDepth depth t fields = .ok children) :
    Members.mapValues Node.relation children =
      Members.mapValues some (namedRelations t fields) := by
  rw [namedRelations, Members.mapValues, Members.mapValues, List.map_map]
  refine (map_eq_of_forall₂ ((childPlans_eq_ok.mp h).imp fun f kv hkv => ?_)).symm
  obtain ⟨hkey, hchild⟩ := hkv
  obtain ⟨target, -, hchild⟩ := bind_eq_ok.mp hchild
  simp [hkey, (relation_of_ofFields hchild).2]

/-- A level whose relations are followed is cut to the relations that they were asked for
through. -/
theorem withoutRelations_eq {n : Node} {named : Members Relation} (htruncated : n.truncated = [])
    (hnames : (Members.names named).Nodup)
    (h : Members.mapValues Node.relation n.relations = Members.mapValues some named) :
    n.withoutRelations = { n with relations := [], truncated := named } := by
  have hcut :
      n.relations.filterMap (fun kv : String × Node => kv.2.relation.map (kv.1, ·)) = named := by
    have hsame := congrArg (List.filterMap fun kv => kv.2.map (kv.1, ·)) h
    simpa [Members.mapValues, List.filterMap_map, Function.comp_def] using hsame
  have hcutoff : n.withoutRelations =
      { n with relations := [], truncated := Members.update n.truncated named } := by
    rw [← hcut]
    rfl
  rw [hcutoff, htruncated, Members.update_eq_append (by simpa using hnames), List.nil_append]

/-! ## Under another limit -/

/-- A level at the limit is that under any deeper limit with its relations cut off. -/
theorem ofFields_withoutRelations {limit : Nat} {args : Members Value} {relation : Option Relation}
    {fields : List (String × Selection)} {n : Node}
    (h : ofFields r limit depth t args relation fields = .ok n) :
    ofFields r depth depth t args relation fields = .ok n.withoutRelations := by
  obtain ⟨start, hstart, h⟩ := bind_eq_ok.mp h
  obtain ⟨hrelations, htruncated, -, -⟩ := level_eq_ok hstart
  have hnodup : (Members.names (Members.update [] (namedRelations t fields))).Nodup :=
    Members.nodup_names_update List.nodup_nil
  rw [ofFields, bind_of_eq_ok hstart, addFields_of_le (Nat.le_refl depth)]
  refine congrArg Except.ok ?_
  -- Under the deeper limit relations are followed here, unless it is the same limit.
  rcases Nat.lt_or_ge depth limit with hlt | hge
  · rw [addFields_of_lt hlt] at h
    obtain ⟨children, hchildren, h⟩ := bind_eq_ok.mp h
    obtain rfl := pure_eq_ok.mp h
    refine Eq.trans ?_ (withoutRelations_eq (by exact htruncated) hnodup ?_).symm
    · rw [hrelations, htruncated]
    · rw [hrelations, Members.mapValues_update, Members.mapValues_update,
        mapValues_relation hchildren]
      rfl
  · rw [addFields_of_le hge] at h
    obtain rfl := Except.ok.inj h
    rw [Node.withoutRelations, hrelations]
    rfl

/-- A level under a limit is that under any deeper limit, cut where the limit lies. -/
theorem ofFields_cutAt {limit deeper levels : Nat} {args : Members Value}
    {relation : Option Relation} {fields : List (String × Selection)} {n : Node}
    (hlevels : limit = depth + levels) (hdeeper : limit ≤ deeper)
    (h : ofFields r deeper depth t args relation fields = .ok n) :
    ofFields r limit depth t args relation fields = .ok (n.cutAt levels) := by
  -- The limit is fixed, so the levels that are left shrink as the depth grows.
  induction levels generalizing depth t args relation fields n with
  | zero =>
    obtain rfl : limit = depth := hlevels
    exact ofFields_withoutRelations h
  | succ levels ih =>
    obtain ⟨start, hstart, h⟩ := bind_eq_ok.mp h
    obtain ⟨hrelations, -, -, -⟩ := level_eq_ok hstart
    rw [addFields_of_lt (by omega)] at h
    obtain ⟨children, hchildren, h⟩ := bind_eq_ok.mp h
    obtain rfl := pure_eq_ok.mp h
    have hcut : childPlans r limit depth t fields =
        .ok (Members.mapValues (Node.cutAt levels) children) := by
      refine childPlans_eq_ok.mpr (List.forall₂_map_right_iff.mpr ?_)
      refine (childPlans_eq_ok.mp hchildren).imp fun f kv hkv => ⟨hkv.1, ?_⟩
      obtain ⟨target, htarget, hchild⟩ := bind_eq_ok.mp hkv.2
      rw [childPlan, bind_of_eq_ok htarget]
      exact ih (by omega) hchild
    rw [ofFields, bind_of_eq_ok hstart, addFields_of_lt (by omega), hcut]
    refine congrArg Except.ok ?_
    rw [Node.cutAt, hrelations, Members.mapValues_update]
    rfl

/-- A level follows relations down to the limit, and cuts them off there. -/
theorem endsAt_ofFields {limit levels : Nat} {args : Members Value} {relation : Option Relation}
    {fields : List (String × Selection)} {n : Node} (hlevels : limit = depth + levels)
    (h : ofFields r limit depth t args relation fields = .ok n) : n.EndsAt levels := by
  induction levels generalizing depth t args relation fields n with
  | zero =>
    obtain rfl : limit = depth := hlevels
    obtain ⟨start, hstart, h⟩ := bind_eq_ok.mp h
    rw [addFields_of_le (Nat.le_refl limit)] at h
    obtain rfl := Except.ok.inj h
    exact (level_eq_ok hstart).1
  | succ levels ih =>
    obtain ⟨start, hstart, h⟩ := bind_eq_ok.mp h
    obtain ⟨hrelations, htruncated, -, -⟩ := level_eq_ok hstart
    rw [addFields_of_lt (by omega)] at h
    obtain ⟨children, hchildren, h⟩ := bind_eq_ok.mp h
    obtain rfl := pure_eq_ok.mp h
    refine ⟨htruncated, fun kv hkv => ?_⟩
    rw [hrelations] at hkv
    have hkv := (Members.mem_update hkv).resolve_left nofun
    obtain ⟨f, -, -, hchild⟩ := (mapM_named_eq_ok hchildren).2.2 kv hkv
    obtain ⟨target, -, hchild⟩ := bind_eq_ok.mp hchild
    exact ih (by omega) hchild

/-- Where planning goes well under a deeper limit it goes well under a limit, and comes to the same
plan, cut. Every plan follows relations down to its limit at most, and cuts them off only there, and
no level of it has both relations that are followed and relations that are cut off. -/
theorem ofSelection_cutAt (r : Registry) (table : String) (s : Selection) (args : Members Value)
    (limit : Nat) :
    (∀ deeper n, limit ≤ deeper → (ofSelection r deeper table s args).1 = .ok n →
      (ofSelection r limit table s args).1 = .ok (n.cutAt limit)) ∧
    ∀ n, (ofSelection r limit table s args).1 = .ok n → n.depth ≤ limit ∧
      ∀ depth m, n.Below depth m → m.truncated ≠ [] → depth = limit ∧ m.relations = [] := by
  constructor
  · intro deeper n hlimit h
    rw [ofSelection_fst] at h ⊢
    obtain ⟨t, ht, h⟩ := bind_eq_ok.mp h
    rw [bind_of_eq_ok ht]
    exact ofFields_cutAt (Nat.zero_add limit).symm hlimit h
  · intro n h
    rw [ofSelection_fst] at h
    obtain ⟨t, -, h⟩ := bind_eq_ok.mp h
    have hends : n.EndsAt limit := endsAt_ofFields (Nat.zero_add limit).symm h
    exact ⟨hends.depth_le, fun depth m hm => hends.of_truncated hm⟩

/-! ## Folders within folders -/

namespace Folders

/-- A column with numbers. -/
def column (name : String) (primary : Bool) : Column :=
  { name := name, kind := .whole, nullable := !primary, hasDefault := primary,
    declaration := { key := name, name := name, type := .integer, primary := primary,
                     nullable := !primary } }

def inner : Relation := ⟨"inner", true, "folder", "folder", ["id"], ["above"]⟩

def outer : Relation := ⟨"outer", false, "folder", "folder", ["above"], ["id"]⟩

/-- Folders with the folders in them, and each with the one that it is in. -/
def folder : Table :=
  let columns := [column "id" true, column "above" false]
  { name := "folder", columns := columns, rowKey := some "id",
    declaration := { name := "folder", columns := columns.map (·.declaration) }
    relations := [("inner", inner), ("outer", outer)] }

def registry : Registry := { tables := [("folder", folder)] }

/-- Folders, the first one in each, the folder that this is in, and the folders in that, up to a
limit that is no number. -/
def around : Selection :=
  let again : Selection := ⟨"inner", some "again", [("limit", .bool true)], []⟩
  let outer : Selection := ⟨"outer", none, [], [("id", ⟨"id", none, [], []⟩), ("again", again)]⟩
  let inner : Selection := ⟨"inner", none, [("limit", .int 1)], [("outer", outer)]⟩
  ⟨"folderFindMany", none, [], [("inner", inner)]⟩

/-- The plan for two levels of relations. -/
def twoLevels : Node :=
  { table := "folder"
    relations := [("inner", { table := "folder", limit := some 1, relation := some inner
                              relations := [("outer", { table := "folder", columns := ["id"]
                                                        relation := some outer
                                                        truncated := [("again", inner)] })] })] }

/-- The plan for one level of relations is that for two levels, cut. -/
theorem plan_around : (ofSelection registry 2 "folder" around []).1 = .ok twoLevels ∧
    (ofSelection registry 1 "folder" around []).1 = .ok (twoLevels.cutAt 1) ∧
    twoLevels.cutAt 1 = { table := "folder"
                          relations := [("inner", { table := "folder", limit := some 1
                                                    relation := some inner
                                                    truncated := [("outer", outer)] })] } := by
  have hfirst : level folder [("limit", .int 1)] (some inner) =
      .ok { table := "folder", limit := some 1, relation := some inner } := by
    rw [level, show argument [("limit", .int 1)] "where" = .null from rfl, compileWhere_null]
    rfl
  have hname : folder.name = "folder" := rfl
  have htable : registry.table "folder" = .ok folder ∧ registry.table inner.target = .ok folder ∧
      registry.table outer.target = .ok folder := ⟨rfl, rfl, rfl⟩
  have hcolumn : folder.hasColumn "id" = true ∧ folder.hasColumn "inner" = false ∧
      folder.hasColumn "outer" = false ∧ folder.hasColumn "again" = false := ⟨rfl, rfl, rfl, rfl⟩
  have hrel : folder.relation? "inner" = some inner ∧ folder.relation? "outer" = some outer :=
    ⟨rfl, rfl⟩
  have htwo : (ofSelection registry 2 "folder" around []).1 = .ok twoLevels := by
    simp [ofSelection, addFields, addField, around, htable, hcolumn, hrel, level_nil, hfirst,
      hname, relationKey, addColumn, Members.put, twoLevels]
  obtain ⟨hcut, -⟩ := ofSelection_cutAt registry "folder" around [] 1
  exact ⟨htwo, hcut 2 twoLevels (by decide) htwo, rfl⟩

end Folders

end Plan
end RelGraph
