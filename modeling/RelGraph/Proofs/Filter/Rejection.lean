import RelGraph.Proofs.Conversion
import RelGraph.Proofs.Filter
import RelGraph.Proofs.Plan.Planned
/-!
Which filters are refused. A level offends if it lists branches beside something that is not null,
or by an operator entry whose operand is given: the operator may be unknown, its list empty, or the
operand nothing that the column can bind. Levels are looked for under known columns and in branches,
however deep. A filter of the shape that the inputs of a schema have is refused just when some level
of it offends, and the error says where: it names the table, and the column and the operator as far
as these are at fault. Otherwise it is compiled.
-/
namespace RelGraph

namespace Operator

variable {op : Operator} {name : String}

theorem of_takesList (h : op.takesList = true) :
    op.asksForNull = false ∧ op.takesPattern = false := by
  cases op <;> first | exact ⟨rfl, rfl⟩ | cases h

theorem name_of_ofName? (h : ofName? name = some op) : op.name = name := by
  have hall : ∀ kv ∈ named, kv.2.name = kv.1 := by decide
  exact hall _ (Members.mem_of_get? h)

end Operator

namespace Offence

open Outcome

/-! ## Judgements -/

/-- An outcome is judged by offences: it fails for one of them, and is no value if there is any. -/
structure Judged {α : Type} (outcome : Attempt α) (offends : Failure → Prop) : Prop where
  refused : ∀ e, outcome = .error e → offends e
  passed : ∀ a, outcome = .ok a → ∀ e, ¬ offends e

namespace Judged

variable {α β : Type} {P Q : Failure → Prop}

theorem ok {a : α} (h : ∀ e, ¬ P e) : Judged (.ok a) P := ⟨nofun, fun _ _ => h⟩

theorem error {e : Failure} (h : P e) : Judged (.error e : Attempt α) P where
  refused _ he := Except.error.inj he ▸ h
  passed := nofun

theorem congr {outcome : Attempt α} (h : Judged outcome P) (hiff : ∀ e, P e ↔ Q e) :
    Judged outcome Q where
  refused e he := (hiff e).mp (h.refused e he)
  passed a ha e hoffends := h.passed a ha e ((hiff e).mpr hoffends)

theorem map {x : Attempt α} (hx : Judged x P) (f : α → β) : Judged (f <$> x) P where
  refused e he := hx.refused e (map_eq_error.mp he)
  passed b hb := by
    obtain ⟨a, ha, -⟩ := map_eq_ok.mp hb
    exact hx.passed a ha

theorem mapM {f : α → Attempt β} {l : List α} {P : α → Failure → Prop}
    (h : ∀ a ∈ l, Judged (f a) (P a)) : Judged (l.mapM f) fun e => ∃ a ∈ l, P a e where
  refused e he := by
    obtain ⟨a, ha, herr⟩ := exists_of_mapM_eq_error he
    exact ⟨a, ha, (h a ha).refused e herr⟩
  passed bs hbs e := by
    rintro ⟨a, ha, hoffends⟩
    obtain ⟨b, hb⟩ := exists_mapM_eq_ok.mp ⟨bs, hbs⟩ a ha
    exact (h a ha).passed b hb e hoffends

end Judged

/-! ## Levels -/

/-- What is written beside the branches of a level. -/
def others (ms : Members Value) : Members Value := ms.filter fun kv => kv.1 ≠ branchKey

/-- The branches of a level. -/
def branches (ms : Members Value) : List Value :=
  ((Members.get? ms branchKey).bind Value.items?).getD []

/-- The branches of a level are listed, or left null. -/
def ListsBranches (ms : Members Value) : Prop :=
  ∀ w, Members.get? ms branchKey = some w → w = .null ∨ w.items?.isSome

/-- A value has the shape of a level: an object with levels for branches, in which what is written
under the other keys has a shape of its own. -/
inductive IsLevel (P : String → Value → Prop) : Value → Prop
  | level (ms : Members Value) (hothers : ∀ kv ∈ others ms, P kv.1 kv.2)
      (hlist : ListsBranches ms) (hbranches : ∀ v ∈ branches ms, IsLevel P v) :
      IsLevel P (.object ms)

theorem IsLevel.plain {P : String → Value → Prop} {ms : Members Value}
    (hnone : Members.get? ms branchKey = none) (h : ∀ kv ∈ ms, P kv.1 kv.2) :
    IsLevel P (.object ms) := by
  refine .level ms (fun kv hkv => h kv (List.mem_filter.mp hkv).1) ?_ ?_
  · intro w hw
    rw [hnone] at hw
    cases hw
  · rw [branches, hnone]
    nofun

theorem IsLevel.branches {P : String → Value → Prop} {items : List Value}
    (h : ∀ v ∈ items, IsLevel P v) : IsLevel P (.object [(branchKey, .list items)]) := by
  refine .level _ nofun (fun w hw => ?_) h
  obtain rfl := Option.some.inj hw
  exact .inr rfl

/-- An offence in a level or in a branch of it, at any depth, with the failure that it comes to: an
offence under a key of the level, or branches beside something that is not null. -/
inductive InLevel (under : String → Value → Failure → Prop) (f : Fault) : Value → Failure → Prop
  | under {ms kv e} (hkv : kv ∈ others ms) (h : under kv.1 kv.2 e) : InLevel under f (.object ms) e
  | beside {ms kv} (hbranches : branches ms ≠ []) (hkv : kv ∈ others ms)
      (hgiven : kv.2.isNull = false) : InLevel under f (.object ms) (.fault f)
  | branch {ms v e} (hv : v ∈ branches ms) (h : InLevel under f v e) :
      InLevel under f (.object ms) e

/-- What a level is compiled to. -/
def compileLevel (f : Fault) (entry : String × Value → Attempt (Option Predicate))
    (branch : Value → Attempt (Option Predicate)) (ms : Members Value) :
    Attempt (Option Predicate) :=
  if branches ms = [] then Predicate.conjoin <$> (others ms).mapM entry
  else if (others ms).any fun kv => !kv.2.isNull then Attempt.fault f
  else Predicate.disjoin <$> (branches ms).mapM branch

section Levels

variable {P : String → Value → Prop} {under : String → Value → Failure → Prop} {f : Fault}
  {entry : String × Value → Attempt (Option Predicate)}
  {branch : Value → Attempt (Option Predicate)} {ms : Members Value} {v : Value}

theorem map_branches {β : Type} {ofBranches : Value → List β} {ofItem : Value → β}
    (hlist : ListsBranches ms) (hnull : ofBranches .null = [])
    (hitems : ∀ w items, w.items? = some items → ofBranches w = items.map ofItem) :
    ((Members.get? ms branchKey).map ofBranches).getD [] = (branches ms).map ofItem := by
  rw [branches]
  cases hget : Members.get? ms branchKey with
  | none => rfl
  | some w =>
    rcases hlist w hget with rfl | hsome
    · exact hnull
    · obtain ⟨items, hw⟩ := Option.isSome_iff_exists.mp hsome
      rw [Option.map_some, Option.getD_some, hitems w items hw, Option.bind_some, hw,
        Option.getD_some]

theorem compileLevel_of_nil (h : branches ms = []) :
    compileLevel f entry branch ms = Predicate.conjoin <$> (others ms).mapM entry := by
  rw [compileLevel, if_pos h]

theorem compileLevel_of_cons {rest : List Value} (h : branches ms = v :: rest) :
    compileLevel f entry branch ms =
      if (others ms).any fun kv => !kv.2.isNull then Attempt.fault f
      else do
        let p ← branch v
        let ps ← rest.mapM branch
        return Predicate.disjoin (p :: ps) := by
  rw [compileLevel, h, if_neg (List.cons_ne_nil v rest), List.mapM_cons, map_eq_pure_bind]
  simp only [bind_assoc, pure_bind]

theorem judged_compileLevel (hnull : ∀ key e, ¬ under key .null e)
    (hentry : ∀ kv ∈ others ms, Judged (entry kv) (under kv.1 kv.2))
    (hbranch : ∀ v ∈ branches ms, Judged (branch v) (InLevel under f v)) :
    Judged (compileLevel f entry branch ms) (InLevel under f (.object ms)) := by
  rw [compileLevel]
  split
  · rename_i hnone
    refine ((Judged.mapM hentry).map _).congr fun e => ?_
    constructor
    · rintro ⟨kv, hkv, hoffends⟩
      exact .under hkv hoffends
    · intro h
      cases h with
      | under hkv hoffends => exact ⟨_, hkv, hoffends⟩
      | beside hsome => exact absurd hnone hsome
      | branch hv => simp [hnone] at hv
  rename_i hsome
  split
  · rename_i hbeside
    obtain ⟨kv, hkv, hgiven⟩ := List.any_eq_true.mp hbeside
    exact .error (.beside hsome hkv (by simpa using hgiven))
  · rename_i hquiet
    -- Beside branches that are compiled there are only nulls, and under these is no offence.
    have hothers : ∀ kv ∈ others ms, kv.2 = .null := by
      intro kv hkv
      have hisNull : kv.2.isNull = true := by
        by_contra hgiven
        exact hquiet (List.any_eq_true.mpr ⟨kv, hkv, by simpa using hgiven⟩)
      cases hkv2 : kv.2 <;> simp_all [Value.isNull]
    refine ((Judged.mapM hbranch).map _).congr fun e => ?_
    constructor
    · rintro ⟨v, hv, hoffends⟩
      exact .branch hv hoffends
    · intro h
      cases h with
      | under hkv hoffends => exact absurd (hothers _ hkv ▸ hoffends) (hnull _ _)
      | beside _ hkv hgiven =>
        rw [hothers _ hkv] at hgiven
        cases hgiven
      | branch hv hoffends => exact ⟨_, hv, hoffends⟩

/-- What compiles levels is judged by their offences if what compiles their entries is. -/
theorem judged_of_isLevel (compile : Value → Attempt (Option Predicate))
    (hnull : ∀ key e, ¬ under key .null e)
    (hcompile : ∀ ms, ListsBranches ms →
      compile (.object ms) = compileLevel f entry compile ms)
    (hentry : ∀ kv : String × Value, P kv.1 kv.2 → Judged (entry kv) (under kv.1 kv.2))
    (h : IsLevel P v) : Judged (compile v) (InLevel under f v) := by
  -- The induction is on the shape, so that all branches of a level are judged before the level is.
  induction h with
  | level ms hothers hlist _ ih =>
    rw [hcompile ms hlist]
    exact judged_compileLevel hnull (fun kv hkv => hentry kv (hothers kv hkv)) ih

/-- What holds of the offences under the keys of levels, and of branches that stand beside
something, holds of all offences. -/
theorem InLevel.induct {Q : Failure → Prop} {e : Failure} (hbeside : Q (.fault f))
    (hunder : ∀ key w, P key w → under key w e → Q e) (h : IsLevel P v)
    (hoffends : InLevel under f v e) : Q e := by
  induction hoffends with
  | under hkv hoffends =>
    cases h with
    | level _ hothers => exact hunder _ _ (hothers _ hkv) hoffends
  | beside => exact hbeside
  | branch hv _ ih =>
    cases h with
    | level _ _ _ hbranches => exact ih hunder (hbranches _ hv)

theorem not_inLevel_of_falsy {e : Failure} (h : v.truthy = false) : ¬ InLevel under f v e := by
  intro hoffends
  cases hoffends with
  | @under ms _ _ hkv | @beside ms _ _ hkv =>
    obtain rfl : ms = [] := by simpa [Value.truthy] using h
    cases hkv
  | @branch ms _ _ hv =>
    obtain rfl : ms = [] := by simpa [Value.truthy] using h
    cases hv

end Levels

/-! ## Operands -/

/-- The values of an operand that are coerced for the column: none for a null test or a pattern, the
items for an operator that takes a list. -/
def coerced (op : Operator) (v : Value) : List Value :=
  if op.asksForNull || op.takesPattern then []
  else if op.takesList then v.items?.getD [v] else [v]

/-- The operand of an operator has the shape that the column asks for: what is coerced for a column
of bytes is a list, and holds no lists. -/
def IsOperand (c : Column) (name : String) (v : Value) : Prop :=
  c.kind = .buffer → ∀ op, Operator.ofName? name = some op → isGiven v = true →
    ∀ w ∈ coerced op v, ∃ items, w.items? = some items ∧ ∀ x ∈ items, x.items? = none

/-- A failure refuses an argument and names what is at fault: the table, the column if it is not a
level of the table, and the operator if it is no level at all. -/
def IsRefusal (t : Table) (e : Failure) : Prop :=
  ∃ f, e = .fault f ∧ f.kind = .argument ∧ f.context.table = some t.name ∧
    (f.context.column = none → f = .tableBranchesBesideFields t.name) ∧
    (f.context.operator = none → f = .tableBranchesBesideFields t.name ∨
      ∃ column, f = .columnBranchesBesideOperators t.name column)

/-- What it comes to that a value of an operand cannot be coerced: an invalid argument, if this is
for the value or its kind. -/
def refusal (t : Table) (c : Column) (name : String) (m : Mishap) : Failure :=
  if m.isAboutInput then .fault (.operandInvalid t.name c.name name m.reason) else .mishap m

/-- An operator entry offends: its operand is given, and its operator is unknown, its list empty, or
something in it cannot be coerced for the column. -/
inductive InOperand (t : Table) (c : Column) (name : String) (v : Value) : Failure → Prop
  | unknown (hgiven : isGiven v = true) (hname : Operator.ofName? name = none) :
      InOperand t c name v (.fault (.operatorUnknown t.name c.name name))
  | empty {op} (hgiven : isGiven v = true) (hop : Operator.ofName? name = some op)
      (hlist : op.takesList = true) (hnone : v.items? = some []) :
      InOperand t c name v (.fault (.operandsEmpty t.name c.name name))
  | unfit {op w m} (hgiven : isGiven v = true) (hop : Operator.ofName? name = some op)
      (hw : w ∈ coerced op v) (hread : Conversion.readValue c w = .error m) :
      InOperand t c name v (refusal t c name m)

section Operands

variable {t : Table} {c : Column} {op : Operator} {name : String} {v w : Value}

/-- What cannot be coerced for a column of the shape it asks for is so for its value or its
kind. -/
theorem isAboutInput_of_isOperand (h : IsOperand c name v) (hop : Operator.ofName? name = some op)
    (hgiven : isGiven v = true) (hw : w ∈ coerced op v) {m : Mishap}
    (hread : Conversion.readValue c w = .error m) : m.isAboutInput = true := by
  by_cases hkind : c.kind = .buffer
  · obtain ⟨items, hitems, hflat⟩ := h hkind op hop hgiven w hw
    exact Conversion.isAboutInput_of_items hkind hitems hflat hread
  · exact Conversion.isAboutInput_of_readValue hkind w hread

theorem isRefusal_tableLevel : IsRefusal t (.fault (.tableBranchesBesideFields t.name)) :=
  ⟨_, rfl, rfl, rfl, fun _ => rfl, fun _ => .inl rfl⟩

theorem isRefusal_columnLevel :
    IsRefusal t (.fault (.columnBranchesBesideOperators t.name c.name)) :=
  ⟨_, rfl, rfl, rfl, nofun, fun _ => .inr ⟨_, rfl⟩⟩

theorem isRefusal_refusal {m : Mishap} (h : m.isAboutInput = true) :
    IsRefusal t (refusal t c name m) := by
  rw [refusal, if_pos h]
  exact ⟨_, rfl, rfl, rfl, nofun, nofun⟩

theorem isRefusal_of_inOperand (h : IsOperand c name v) {e : Failure}
    (hoffends : InOperand t c name v e) : IsRefusal t e := by
  cases hoffends with
  | unknown | empty => exact ⟨_, rfl, rfl, rfl, nofun, nofun⟩
  | unfit hgiven hop hw hread =>
    exact isRefusal_refusal (isAboutInput_of_isOperand h hop hgiven hw hread)

theorem inOperand_iff (hop : Operator.ofName? name = some op) (hgiven : isGiven v = true)
    {e : Failure} : InOperand t c name v e ↔
      (op.takesList = true ∧ v.items? = some [] ∧
        e = .fault (.operandsEmpty t.name c.name op.name)) ∨
      ∃ w ∈ coerced op v, ∃ m, Conversion.readValue c w = .error m ∧ e = refusal t c op.name m := by
  rw [Operator.name_of_ofName? hop]
  constructor
  · intro h
    cases h with
    | unknown _ hname =>
      rw [hop] at hname
      cases hname
    | empty _ hop' hlist hnone =>
      obtain rfl := Option.some.inj (hop.symm.trans hop')
      exact .inl ⟨hlist, hnone, rfl⟩
    | unfit _ hop' hw hread =>
      obtain rfl := Option.some.inj (hop.symm.trans hop')
      exact .inr ⟨_, hw, _, hread, rfl⟩
  · rintro (⟨hlist, hnone, rfl⟩ | ⟨w, hw, m, hread, rfl⟩)
    · exact .empty hgiven hop hlist hnone
    · exact .unfit hgiven hop hw hread

theorem judged_readOperand : Judged (readOperand t c op w) fun e =>
    ∃ m, Conversion.readValue c w = .error m ∧ e = refusal t c op.name m := by
  rw [readOperand]
  cases Conversion.readValue c w with
  | ok u => exact .ok (by simp)
  | error m =>
    dsimp only
    split
    · rename_i habout
      exact .error ⟨m, rfl, by rw [refusal, if_pos habout]⟩
    · rename_i habout
      exact .error ⟨m, rfl, by rw [refusal, if_neg habout]⟩

theorem judged_comparison (hop : Operator.ofName? name = some op) (hgiven : isGiven v = true) :
    Judged (comparison t c op v) (InOperand t c name v) := by
  have hin := @inOperand_iff t c op name v hop hgiven
  rw [comparison]
  split
  · rename_i hnull
    have hlist : op.takesList = false := by cases op <;> first | rfl | cases hnull
    exact .ok fun e => by simp [hin, coerced, hnull, hlist]
  rename_i hnull
  split
  · rename_i hlist
    have hpattern : op.takesPattern = false := (Operator.of_takesList hlist).2
    have hitems : coerced op v = v.items?.getD [v] := by simp [coerced, hnull, hlist, hpattern]
    split
    · rename_i hempty
      have hnone : v.items? = some [] := by cases hv : v.items? <;> simp_all
      exact .error (hin.mpr (.inl ⟨hlist, hnone, rfl⟩))
    · rename_i items hsome
      have hsome' : v.items? ≠ some [] := fun hnone => hsome (by rw [hnone]; rfl)
      refine ((Judged.mapM fun _ _ => judged_readOperand).map _).congr fun e => ?_
      simp [hin, hitems, hsome']
  rename_i hlist
  split
  · rename_i hpattern
    exact .ok fun e => by simp [hin, coerced, hlist, hpattern]
  · rename_i hpattern
    have hitems : coerced op v = [v] := by simp [coerced, hnull, hlist, hpattern]
    refine (judged_readOperand.map _).congr fun e => ?_
    simp [hin, hlist, hitems]

theorem judged_operatorEntry {kv : String × Value} :
    Judged (operatorEntry t c kv) (InOperand t c kv.1 kv.2) := by
  rw [operatorEntry]
  split
  · rename_i hgiven
    refine .ok fun e hoffends => ?_
    cases hoffends <;> simp_all
  rename_i hgiven
  replace hgiven : isGiven kv.2 = true := by simpa using hgiven
  split
  · rename_i hnone
    exact .error (.unknown hgiven hnone)
  · rename_i op hop
    exact (judged_comparison hop hgiven).map _

end Operands

/-! ## Columns -/

section Columns

variable {t : Table} {c : Column} {ms : Members Value} {v : Value}

theorem columnBranches_eq (hlist : ListsBranches ms) :
    ColumnFilter.branchesOf ms = (branches ms).map ColumnFilter.ofItem := by
  rw [ColumnFilter.branchesOf_eq]
  refine map_branches hlist ?_ fun w items hitems => ?_
  · rw [ColumnFilter.ofBranches]
    · rfl
    all_goals simp
  · cases w with
    | list _ | tuple _ =>
      obtain rfl := Option.some.inj hitems
      rw [ColumnFilter.ofBranches, ColumnFilter.ofItems_eq]
    | _ => cases hitems

theorem compileColumn_object (hlist : ListsBranches ms) :
    compileColumn t c (ColumnFilter.ofItem (.object ms)) =
      compileLevel (.columnBranchesBesideOperators t.name c.name) (operatorEntry t c)
        (fun v => compileColumn t c (ColumnFilter.ofItem v)) ms := by
  rw [ColumnFilter.ofItem, ColumnFilter.ofMembers, columnBranches_eq hlist]
  cases hbranches : branches ms with
  | nil =>
    rw [List.map_nil, compileColumn, compileLevel_of_nil hbranches]
    rfl
  | cons v rest =>
    rw [List.map_cons, compileColumn, compileLevel_of_cons hbranches, compileColumns_eq,
      List.mapM_map]
    rfl

/-- An offence in the filter of a column. -/
def InColumn (t : Table) (c : Column) : Value → Failure → Prop :=
  InLevel (InOperand t c) (.columnBranchesBesideOperators t.name c.name)

theorem judged_column {P : String → Value → Prop} (h : IsLevel P v) :
    Judged (compileColumn t c (ColumnFilter.ofItem v)) (InColumn t c v) := by
  refine judged_of_isLevel (fun v => compileColumn t c (ColumnFilter.ofItem v)) ?_
    (fun _ hlist => compileColumn_object hlist) (fun _ _ => judged_operatorEntry) h
  intro key e hoffends
  cases hoffends with
  | unknown hgiven | empty hgiven | unfit hgiven => cases hgiven

end Columns

/-! ## Tables -/

/-- A value has the shape of the filter of a table: levels, with the filter of a column, or null,
under each of its names, whose operands have a shape of their own. Nothing is asked of what is
written under other names. -/
def IsTableFilter (fits : Column → String → Value → Prop) (t : Table) : Value → Prop :=
  IsLevel fun name v => ∀ c, t.column? name = some c → v = .null ∨ IsLevel (fits c) v

/-- An offence under the name of a column. -/
def InEntry (t : Table) (name : String) (v : Value) (e : Failure) : Prop :=
  ∃ c, t.column? name = some c ∧ InColumn t c v e

/-- An offence in the filter of a table. -/
def InTable (t : Table) : Value → Failure → Prop :=
  InLevel (InEntry t) (.tableBranchesBesideFields t.name)

section Tables

variable {t : Table} {ms : Members Value} {v : Value} {fits : Column → String → Value → Prop}

theorem judged_entry {kv : String × Value}
    (h : ∀ c, t.column? kv.1 = some c → kv.2 = .null ∨ IsLevel (fits c) kv.2) :
    Judged (compileEntry t (TableFilter.entryOf kv)) (InEntry t kv.1 kv.2) := by
  rw [compileEntry, TableFilter.entryOf]
  cases hcolumn : t.column? kv.1 with
  | none =>
    have hnone : ∀ e, ¬ InEntry t kv.1 kv.2 e := by
      rintro e ⟨c, hc, -⟩
      rw [hcolumn] at hc
      cases hc
    dsimp only
    split
    · rename_i hsome
      cases hsome
    · exact .ok hnone
  | some c =>
    have hin : ∀ e, InColumn t c kv.2 e ↔ InEntry t kv.1 kv.2 e := by simp [InEntry, hcolumn]
    cases htruthy : kv.2.truthy with
    | false => exact .ok fun e hoffends => not_inLevel_of_falsy htruthy ((hin e).mpr hoffends)
    | true =>
      rcases h c hcolumn with hnull | hlevel
      · rw [hnull] at htruthy
        cases htruthy
      · exact (judged_column hlevel).congr hin

theorem tableBranches_eq (hlist : ListsBranches ms) :
    TableFilter.branchesOf ms = (branches ms).map TableFilter.ofItem := by
  rw [TableFilter.branchesOf_eq]
  refine map_branches hlist ?_ fun w items hitems => ?_
  · rw [TableFilter.ofBranches]
    · rfl
    all_goals simp
  · cases w with
    | list _ | tuple _ =>
      obtain rfl := Option.some.inj hitems
      rw [TableFilter.ofBranches, TableFilter.ofItems_eq]
    | _ => cases hitems

theorem compileFilter_object (hlist : ListsBranches ms) :
    compileFilter t (TableFilter.ofItem (.object ms)) =
      compileLevel (.tableBranchesBesideFields t.name)
        (fun kv => compileEntry t (TableFilter.entryOf kv))
        (fun v => compileFilter t (TableFilter.ofItem v)) ms := by
  rw [TableFilter.ofItem, TableFilter.ofMembers, tableBranches_eq hlist]
  cases hbranches : branches ms with
  | nil =>
    rw [List.map_nil, compileFilter, compileLevel_of_nil hbranches, List.mapM_map]
    rfl
  | cons v rest =>
    rw [List.map_cons, compileFilter, compileLevel_of_cons hbranches, compileFilters_eq,
      List.mapM_map, List.any_map]
    rfl

/-- The filter of a table is judged by its offences. -/
theorem judged_table (h : v = .null ∨ IsTableFilter fits t v) :
    Judged (compileWhere t v) (InTable t v) := by
  rcases h with rfl | h
  · rw [compileWhere_null]
    exact .ok fun _ => not_inLevel_of_falsy rfl
  · refine judged_of_isLevel (compileWhere t) ?_ (fun _ => compileFilter_object)
      (fun _ => judged_entry) h
    rintro key e ⟨c, -, hoffends⟩
    cases hoffends

/-- Offences are refusals where operands have the shape that the columns ask for. -/
theorem isRefusal_of_inTable (h : v = .null ∨ IsTableFilter IsOperand t v) {e : Failure}
    (hoffends : InTable t v e) : IsRefusal t e := by
  rcases h with rfl | h
  · cases hoffends
  refine InLevel.induct (Q := IsRefusal t) isRefusal_tableLevel (fun name w hw => ?_) h hoffends
  rintro ⟨c, hc, hcolumn⟩
  rcases hw c hc with rfl | hlevel
  · cases hcolumn
  · exact hcolumn.induct isRefusal_columnLevel (fun _ _ hw => isRefusal_of_inOperand hw) hlevel

/-- A filter of the shape that the inputs of a schema have is refused, as an invalid argument, just
when a level of it offends: it lists branches beside something that is not null, or holds an entry
whose operand is given and whose operator is unknown, whose list is empty or whose operand cannot be
coerced for the column. Levels are reached through branches and known columns. Whatever error there
is, it is the refusal of one of these offences; it names the table, and the column and the operator
that are at fault. -/
theorem compileWhere_refused_iff (t : Table) (v : Value)
    (h : v = .null ∨ IsTableFilter IsOperand t v) :
    ((∃ f, compileWhere t v = .error (.fault f) ∧ f.kind = .argument) ↔ ∃ e, InTable t v e) ∧
      ∀ e, compileWhere t v = .error e → InTable t v e ∧ IsRefusal t e := by
  have hjudged := judged_table h
  have hrefused : ∀ e, compileWhere t v = .error e → InTable t v e ∧ IsRefusal t e := fun e he =>
    ⟨hjudged.refused e he, isRefusal_of_inTable h (hjudged.refused e he)⟩
  refine ⟨⟨?_, ?_⟩, hrefused⟩
  · rintro ⟨f, hf, -⟩
    exact ⟨_, (hrefused _ hf).1⟩
  · rintro ⟨e, hoffends⟩
    cases hcompile : compileWhere t v with
    | ok p => exact absurd hoffends (hjudged.passed p hcompile e)
    | error e =>
      obtain ⟨-, f, rfl, hkind, -⟩ := hrefused e hcompile
      exact ⟨f, rfl, hkind⟩

end Tables

namespace Files

/-- Files, each with a name and its bytes. -/
def table : Table :=
  Direct.Family.table "file" [Direct.Family.column "name" (.text false) true,
    Direct.Family.column "data" (.binary true) false] []

/-- Nothing is asked of the name or the size, which files do not have; the bytes are none. -/
def branch : Members Value :=
  [("size", .object [("near", .int 7)]), ("name", .object []),
    ("data", .object [("eq", .list [.int 1, .int 300]), ("inArray", .null)])]

/-- A filter with this branch. -/
def unreadable : Value := .object [("OR", .list [.object branch])]

theorem isTableFilter_unreadable : IsTableFilter IsOperand table unreadable := by
  refine .branches fun v hv => ?_
  obtain rfl := List.mem_singleton.mp hv
  refine .plain rfl fun kv hkv => ?_
  simp only [branch, List.mem_cons, List.not_mem_nil, or_false] at hkv
  rcases hkv with rfl | rfl | rfl <;> rintro c ⟨⟩
  · exact .inr (.plain rfl nofun)
  · refine .inr (.plain rfl fun kv hkv => ?_)
    simp only [List.mem_cons, List.not_mem_nil, or_false] at hkv
    rcases hkv with rfl | rfl
    · rintro - op ⟨⟩ - w hw
      obtain rfl := List.mem_singleton.mp hw
      exact ⟨_, rfl, by decide⟩
    · rintro - op - ⟨⟩

/-- The column and the operator are named for what is no byte. -/
theorem unreadable_refused :
    ((∃ f, compileWhere table unreadable = .error (.fault f) ∧ f.kind = .argument) ↔
        ∃ e, InTable table unreadable e) ∧
      ∀ e, compileWhere table unreadable = .error e →
        InTable table unreadable e ∧ IsRefusal table e :=
  compileWhere_refused_iff table unreadable (.inr isTableFilter_unreadable)

end Files

end Offence
end RelGraph
