import RelGraph.Operations
import RelGraph.Proofs.Store.Storage
/-!
Who is to blame. Only what reads arguments finds fault with them: building a statement from a plan,
sending it, and turning fetched rows into what callers see never do.
-/
namespace RelGraph

/-- A computation does not fail over an argument. -/
def SparesArguments {α : Type} (a : Attempt α) : Prop :=
  ∀ f : Fault, a = .error (.fault f) → f.kind ≠ .argument

namespace SparesArguments

variable {α β : Type} {a : Attempt α}

theorem ok (x : α) : SparesArguments (.ok x) := by
  rintro f ⟨⟩

theorem mishap (m : Mishap) : SparesArguments (Attempt.mishap m : Attempt α) := by
  rintro f ⟨⟩

/-- A failure that is passed on still is not one over an argument. -/
theorem of_error {e : Failure} (ha : SparesArguments a) (he : a = .error e) :
    SparesArguments (.error e : Attempt β) := by
  rintro f ⟨⟩
  exact ha f he

theorem bind {g : α → Attempt β} (ha : SparesArguments a) (hg : ∀ x, SparesArguments (g x)) :
    SparesArguments (a >>= g) := by
  cases a with
  | ok x => exact hg x
  | error e => exact of_error ha rfl

theorem mapM {g : α → Attempt β} {l : List α} (hg : ∀ x ∈ l, SparesArguments (g x)) :
    SparesArguments (l.mapM g) := by
  induction l with
  | nil => exact ok []
  | cons x l ih =>
    rw [List.mapM_cons]
    refine bind (hg x (by simp)) fun y => bind (ih fun z hz => hg z (by simp [hz])) fun ys => ?_
    exact ok (y :: ys)

end SparesArguments

theorem Shape.spares_members (asked : String) (v : Value) :
    SparesArguments (Shape.members asked v) := by
  unfold Shape.members
  split
  · exact .ok _
  · exact .mishap _

theorem Shape.spares_parts (v : Value) : SparesArguments (Shape.parts v) := by
  unfold Shape.parts
  split
  · exact .ok _
  · exact .mishap _

theorem Shape.spares_key (v : Value) : SparesArguments (Shape.key v) := by
  unfold Shape.key
  split
  · exact .mishap _
  · exact .ok _

theorem Table.spares_column (t : Table) (name : String) : SparesArguments (t.column name) := by
  unfold Table.column
  split
  · exact .ok _
  · exact .mishap _

theorem Registry.spares_table (r : Registry) (name : String) : SparesArguments (r.table name) := by
  unfold Registry.table
  split
  · exact .ok _
  · exact .mishap _

namespace Sql

/-! ## Statements -/

theorem Condition.spares_listedRows (items : List Value) :
    SparesArguments (Condition.listedRows items) := by
  refine .bind (.mapM fun v _ => Shape.spares_parts v) fun rows => ?_
  refine .bind (.mapM fun row _ => .mapM fun j _ => ?_) fun listed => .ok _
  split
  · exact .ok _
  · exact .mishap _

theorem Condition.spares_operand (c : Column) (op : Operator) (v : Value) :
    SparesArguments (Condition.operand c op v) := by
  unfold Condition.operand
  split
  · split
    · exact spares_listedRows _
    · exact .ok _
  · exact .ok _

mutual

theorem Condition.spares_ofPredicate (t : Table) (p : Predicate) :
    SparesArguments (Condition.ofPredicate t p) := by
  match p with
  | .compare name op v =>
    rw [Condition.ofPredicate]
    refine .bind (t.spares_column name) fun c => ?_
    split
    · exact .bind (spares_operand c op v) fun w => .ok _
    · exact .mishap _
  | .all items =>
    rw [Condition.ofPredicate]
    exact .bind (spares_ofPredicates t items) fun cs => .ok _
  | .any items =>
    rw [Condition.ofPredicate]
    exact .bind (spares_ofPredicates t items) fun cs => .ok _

theorem Condition.spares_ofPredicates (t : Table) (ps : List Predicate) :
    SparesArguments (Condition.ofPredicates t ps) := by
  match ps with
  | [] => exact .ok []
  | p :: rest =>
    rw [Condition.ofPredicates]
    exact .bind (spares_ofPredicate t p) fun c => .bind (spares_ofPredicates t rest) fun cs => .ok _

end

theorem Condition.spares_ofPredicate? (t : Table) (p : Option Predicate) :
    SparesArguments (Condition.ofPredicate? t p) := by
  cases p with
  | none => exact .ok none
  | some p => exact .bind (spares_ofPredicate t p) fun c => .ok _

theorem SortKey.spares_ofOrder (t : Table) (entries : List OrderEntry) :
    SparesArguments (SortKey.ofOrder t entries) :=
  .mapM fun e _ => .bind (t.spares_column e.column) fun _ => .ok _

namespace Fetch

theorem spares_fallback (t : Table) : SparesArguments (fallback t) := by
  unfold fallback
  split
  · exact t.spares_column _
  · exact .ok _
  · exact .mishap _

theorem spares_exposedColumns (t : Table) (names : List String) :
    SparesArguments (exposedColumns t names) := by
  unfold exposedColumns
  split
  · exact .bind (spares_fallback t) fun c => .ok _
  · exact .mapM fun name _ => t.spares_column name

theorem spares_joins (above target : Table) (rel : Relation) :
    SparesArguments (joins above target rel) :=
  .mapM fun _ _ => .bind (target.spares_column _) fun _ =>
    .bind (above.spares_column _) fun _ => .ok _

theorem spares_rowsOf (t : Table) (source : Source) (n : Node) :
    SparesArguments (rowsOf t source n) :=
  .bind (Condition.spares_ofPredicate? t _) fun _ =>
    .bind (SortKey.spares_ofOrder t _) fun _ => .ok _

theorem spares_relatedRows (above : Table) (aboveSource : Source) (target : Table)
    (source : Source) (rel : Relation) (n : Node) :
    SparesArguments (relatedRows above aboveSource target source rel n) :=
  .bind (spares_joins above target rel) fun _ =>
    .bind (spares_rowsOf target source n) fun _ => .ok _

mutual

theorem spares_gathered (r : Registry) (above : Table) (aboveSource : Source) (number : Nat)
    (n : Node) : SparesArguments (gathered r above aboveSource number n) := by
  match n with
  | ⟨table, names, condition, orderBy, limit, offset, relation, relations, truncated⟩ =>
    rw [gathered]
    refine .bind (r.spares_table table) fun target => ?_
    cases relation with
    | none => exact .mishap _
    | some rel =>
      refine .bind (spares_exposedColumns target _) fun exposed => ?_
      refine .bind (spares_relatedRows above aboveSource target _ rel _) fun rows => ?_
      refine .bind (.mapM fun name _ => target.spares_column name) fun columns => ?_
      exact .bind (spares_gatheredAll r target _ _ relations) fun nested => .ok _

theorem spares_gatheredAll (r : Registry) (above : Table) (aboveSource : Source) (number : Nat)
    (relations : List (String × Node)) :
    SparesArguments (gatheredAll r above aboveSource number relations) := by
  match relations with
  | [] => exact .ok _
  | (key, child) :: rest =>
    rw [gatheredAll]
    exact .bind (spares_gathered r above aboveSource number child) fun g =>
      .bind (spares_gatheredAll r above aboveSource _ rest) fun others => .ok _

end

/-- Building the statement of a plan does not fail over an argument. -/
theorem spares_ofNode (r : Registry) (n : Node) : SparesArguments (ofNode r n) := by
  refine .bind (r.spares_table n.table) fun t => ?_
  refine .bind (.mapM fun name _ => t.spares_column name) fun own => ?_
  refine .bind (spares_gatheredAll r t _ 1 n.relations) fun nested => ?_
  refine .bind (spares_rowsOf t _ n) fun rows => ?_
  split
  · exact .bind (spares_fallback t) fun c => .ok _
  · exact .ok _

end Fetch

theorem spares_checkNames (t : Table) (values : Members Value) :
    SparesArguments (checkNames t values) := by
  unfold checkNames
  split
  · exact .ok _
  · exact .mishap _

theorem Update.spares_ofPredicate (t : Table) (values : Members Value) (p : Option Predicate) :
    SparesArguments (Update.ofPredicate t values p) :=
  .bind (Condition.spares_ofPredicate? t p) fun _ =>
    .bind (spares_checkNames t values) fun _ => .ok _

theorem Delete.spares_ofPredicate (t : Table) (p : Option Predicate) (names : List String) :
    SparesArguments (Delete.ofPredicate t p names) :=
  .bind (Condition.spares_ofPredicate? t p) fun _ =>
    .bind (.mapM fun name _ => t.spares_column name) fun _ => .ok _

end Sql

/-! ## Rows as callers see them -/

namespace Hydration

theorem spares_decode (v : Value) : SparesArguments (decode v) := by
  unfold decode
  extract_lets read
  have hread : ∀ s, SparesArguments (read s) := by
    intro s
    simp only [read]
    split
    · exact .ok _
    · exact .mishap _
    · exact .mishap _
  split
  · exact hread _
  · split
    · exact hread _
    · exact .mishap _
  · exact .ok _

theorem spares_columns (t : Table) (fetched : Value) (names : List String) :
    SparesArguments (columns t fetched names) := by
  induction names with
  | nil => exact .ok []
  | cons name rest ih =>
    refine .bind (t.spares_column name) fun c => .bind (Shape.spares_members _ fetched) fun ms => ?_
    cases Conversion.showValue c ((Members.get? ms name).getD .null) with
    | ok v => exact .bind (.ok v) fun v => .bind ih fun others => .ok _
    | error m => exact .bind (.mishap m) fun v => .bind ih fun others => .ok _

theorem spares_relationValue {r : Registry} {child : Node}
    (h : ∀ fetched, SparesArguments (row r child fetched)) (payload : Value) :
    SparesArguments (relationValue r child payload) := by
  rw [relationValue]
  split
  · extract_lets shown
    have hshown : ∀ items, SparesArguments (shown items) := fun items =>
      SparesArguments.bind (.mapM fun item _ => h item) fun rows => .ok _
    split
    · exact .bind (Shape.spares_parts payload) hshown
    · exact .bind (.ok []) hshown
  · split
    · exact h payload
    · exact .ok _

mutual

theorem spares_row (r : Registry) (n : Node) (fetched : Value) :
    SparesArguments (row r n fetched) := by
  match n with
  | ⟨table, names, condition, orderBy, limit, offset, relation, relations, truncated⟩ =>
    rw [row]
    exact .bind (r.spares_table table) fun t => .bind (spares_columns t fetched names) fun _ =>
      .bind (spares_relationValues r relations fetched) fun below => .ok _

theorem spares_relationValues (r : Registry) (relations : List (String × Node)) (fetched : Value) :
    SparesArguments (relationValues r relations fetched) := by
  match relations with
  | [] =>
    rw [relationValues]
    exact .ok []
  | (key, child) :: rest =>
    rw [relationValues]
    refine .bind (Shape.spares_members _ fetched) fun ms => ?_
    refine .bind (spares_decode _) fun payload => ?_
    refine .bind (spares_relationValue (spares_row r child) payload) fun v => ?_
    exact .bind (spares_relationValues r rest fetched) fun others => .ok _

end

theorem spares_rows (r : Registry) (n : Node) (fetched : List Value) :
    SparesArguments (rows r n fetched) :=
  .mapM fun v _ => spares_row r n v

end Hydration

/-! ## Calls of the storage -/

namespace Store

theorem Refusal.spares_failure {α : Type} (table : String) (e : Refusal) :
    SparesArguments (.error (e.failure table) : Attempt α) := by
  intro f h
  cases e with
  | mishap m => cases h
  | _ =>
    cases h
    exact nofun

namespace Storage

variable {α : Type} {s : Storage} {access : Access}

theorem spares_inSession {call : Storage → Outcome α} (h : ∀ s, SparesArguments (call s).1) :
    SparesArguments (s.inSession access call).1 := by
  unfold inSession
  split
  · exact h _
  · split
    · exact h _
    · rintro f ⟨⟩
      exact nofun

theorem spares_fetch (r : Registry) (n : Node) :
    SparesArguments (Storage.fetch r access n s).1 := by
  rw [fetch_fst]
  refine SparesArguments.bind (spares_inSession fun s => ?_) (Hydration.spares_rows r n)
  have hbuild := Sql.Fetch.spares_ofNode r n
  unfold fetchCall
  split
  · rename_i e he
    exact hbuild.of_error he
  · rename_i f hf
    show SparesArguments ((fetchResult s.working f).mapError (Refusal.failure n.table))
    cases fetchResult s.working f with
    | error e => exact Refusal.spares_failure _ _
    | ok fetched => exact .ok fetched

theorem spares_failWrite (table : String) (e : Refusal) :
    SparesArguments (failWrite table e s : Outcome α).1 :=
  Refusal.spares_failure table e

theorem spares_insert (t : Table) (rows : List (Members Value)) :
    SparesArguments (Storage.insert t access rows s).1 := by
  refine spares_inSession fun s => ?_
  unfold runInserts
  split
  · exact .ok _
  · exact spares_failWrite _ _

theorem spares_settleWrite (table : String) (outcome : Except Refusal (Change α)) :
    SparesArguments (settleWrite table outcome s).1 := by
  unfold settleWrite
  dsimp only
  split
  · exact .ok _
  · exact spares_failWrite _ _
  · exact spares_failWrite _ _

theorem spares_update (t : Table) (values : Members Value) (p : Option Predicate) :
    SparesArguments (Storage.update t access values p s).1 := by
  refine spares_inSession fun s => ?_
  have hbuild := Sql.Update.spares_ofPredicate t values p
  split
  · rename_i e he
    exact hbuild.of_error he
  · exact spares_settleWrite _ _

theorem spares_delete (r : Registry) (t : Table) (n : Node) :
    SparesArguments (Storage.delete r t access n s).1 := by
  rw [delete_fst]
  refine SparesArguments.bind (spares_inSession fun s => ?_) (Hydration.spares_rows r n)
  have hbuild := Sql.Delete.spares_ofPredicate t n.condition n.columns
  unfold deleteCall
  split
  · rename_i e he
    exact hbuild.of_error he
  · exact spares_settleWrite _ _

end Storage
end Store
end RelGraph
