import RelGraph.Ordering
import RelGraph.Proofs.Outcome
import RelGraph.Proofs.Schema.Registry
import Mathlib.Data.List.ReduceOption
import Mathlib.Tactic.SplitIfs
/-!
What a written order comes to. A value that writes an order lists entries, some of them empty, each
with a column, a direction and a number for its priority. The order is refused over an entry for a
column of the table whose direction is neither word, and only over such an entry. Otherwise its sort
keys are those of the entries for columns of the table, sorted so that keys of one priority stay as
they were written; and sort keys that are written down as an order come to themselves.
-/
namespace RelGraph.OrderBy

open Outcome

variable {t : Table} {v : Value} {position : Nat} {item : Item}

/-! ## Orders as they are written -/

/-- What an entry asks for that is not empty. -/
structure Wish where
  column : Value
  direction : Value
  priority : Int
deriving Repr

/-- The number that a priority stands for: the position of the entry where it is left out, zero
where it is null. Truth values are the numbers 0 and 1. -/
inductive Ranks (position : Nat) : Option Value → Int → Prop
  | leftOut : Ranks position none position
  | null : Ranks position (some .null) 0
  | whole (n : Int) : Ranks position (some (.int n)) n
  | truth (b : Bool) : Ranks position (some (.bool b)) (if b then 1 else 0)

/-- What an entry at a position asks for. An empty entry asks for nothing; any other is an object,
which names its column itself unless it stands under the column's name. -/
inductive Asks (position : Nat) : Item → Option Wish → Prop
  | nothing {item : Item} : item.spec.truthy = false → Asks position item none
  | under {name : String} {ms : Members Value} {priority : Int} : ms ≠ [] →
      Ranks position (Members.get? ms "priority") priority →
      Asks position (.under name (.object ms))
        (some ⟨.text name, (Members.get? ms "direction").getD .null, priority⟩)
  | naming {ms : Members Value} {priority : Int} : ms ≠ [] →
      Shape.unfitKey? ((Members.get? ms "column").getD .null) = none →
      Ranks position (Members.get? ms "priority") priority →
      Asks position (.naming (.object ms)) (some ⟨(Members.get? ms "column").getD .null,
        (Members.get? ms "direction").getD .null, priority⟩)

/-- The entries that a value lists: an object lists those under its names. -/
def entries? : Value → Option (List Item)
  | .null => some []
  | .object ms => some (ms.map fun kv => .under kv.1 kv.2)
  | .list specs | .tuple specs => some (specs.map .naming)
  | _ => none

/-- Whether a value writes an order, and what its entries ask for in turn. -/
def Writes (v : Value) (wishes : List (Option Wish)) : Prop :=
  ∃ entries, entries? v = some entries ∧
    List.Forall₂ (fun entry wish => Asks entry.2 entry.1 wish) entries.zipIdx wishes

/-- The word that a direction comes to: small letters, and none where it is null. -/
def word (direction : Value) : String :=
  if direction.isNull then "" else Text.lower direction.display

/-- Whether a value stands for a direction: by its word, or by none for the ascending one. -/
def Directs (direction : Value) (d : Direction) : Prop :=
  word direction = d.name ∨ word direction = "" ∧ d = .asc

/-- The name of the column that an entry asks for, if the table has it. -/
def Wish.known? (t : Table) (w : Wish) : Option String :=
  match w.column with
  | .text name => if t.hasColumn name then some name else none
  | _ => none

theorem Wish.hasColumn_of_known? {w : Wish} {name : String} (h : w.known? t = some name) :
    t.hasColumn name = true := by
  rw [known?] at h
  split at h
  · split at h
    · rename_i hthere
      exact Option.some.inj h ▸ hthere
    · cases h
  · cases h

/-- Whether a sort key is that of an entry for a column of the table. -/
structure Wish.Gives (t : Table) (w : Wish) (key : OrderEntry) : Prop where
  column : w.known? t = some key.column
  direction : Directs w.direction key.direction
  priority : key.priority = w.priority

/-! ## One entry -/

theorem direction?_eq (v : Value) : direction? v =
    if word v = "" ∨ word v = "asc" then some .asc
    else if word v = "desc" then some .desc else none := rfl

theorem direction?_eq_some_iff {d : Direction} : direction? v = some d ↔ Directs v d := by
  have hwords : "desc" ≠ "asc" ∧ "desc" ≠ "" := by decide
  rw [direction?_eq, Directs]
  split_ifs with hasc hdesc
  · cases d with
    | asc => simpa [Direction.name] using hasc.symm
    | desc => rcases hasc with h | h <;> simp [h, Direction.name, hwords.1.symm, hwords.2.symm]
  · cases d <;> simp [hdesc, Direction.name, hwords]
  · obtain ⟨hnone, hasc⟩ := not_or.mp hasc
    cases d <;> simp [Direction.name, hnone, hasc, hdesc]

theorem direction?_eq_none_iff : direction? v = none ↔ ∀ d, ¬ Directs v d := by
  simp only [Option.eq_none_iff_forall_ne_some, ne_eq, direction?_eq_some_iff]

theorem priorityOf_of_ranks {given : Option Value} {n : Int} (h : Ranks position given n) :
    priorityOf (given.getD (.int position)) = .ok n := by
  cases h <;> rfl

/-- The sort key that a wish comes to, if it is for a column of the table. -/
def Wish.key (t : Table) (w : Wish) : Attempt (Option OrderEntry) :=
  match w.known? t with
  | none => .ok none
  | some name =>
    match direction? w.direction with
    | none => Attempt.fault (.directionUnknown t.name name w.direction.display)
    | some d => .ok (some ⟨name, d, w.priority⟩)

theorem compileEntry_eq {column direction priority : Value} {n : Int}
    (hcolumn : Shape.unfitKey? column = none) (hpriority : priorityOf priority = .ok n) :
    compileEntry t ⟨column, direction, priority⟩ = Wish.key t ⟨column, direction, n⟩ := by
  have hkey : Shape.key column = .ok column := by rw [Shape.key, hcolumn]
  rw [compileEntry, bind_of_eq_ok hkey, Wish.key, Wish.known?]
  cases column with
  | text name =>
    dsimp only
    cases hc : t.column? name with
    | none => simp [Table.hasColumn, hc, pure, Except.pure]
    | some c =>
      obtain rfl := Table.column?_name hc
      simp only [Table.hasColumn, hc, Option.isSome_some, if_true, hpriority]
      rfl
  | _ => rfl

theorem compileItem_of_asks {wish : Option Wish} (h : Asks position item wish) :
    compileItem t position item =
      match wish with
      | none => .ok none
      | some w => w.key t := by
  cases h with
  | nothing hempty =>
    rw [compileItem, hempty]
    rfl
  | @under name ms priority hne hranks =>
    have hspec : (Item.under name (.object ms)).spec.truthy = true := by
      simpa [Item.spec, Value.truthy] using hne
    rw [compileItem, if_pos hspec]
    have hfit : Shape.unfitKey? (.text name) = none := rfl
    exact compileEntry_eq hfit (priorityOf_of_ranks hranks)
  | @naming ms priority hne hfit hranks =>
    have hspec : (Item.naming (.object ms)).spec.truthy = true := by
      simpa [Item.spec, Value.truthy] using hne
    rw [compileItem, if_pos hspec]
    exact compileEntry_eq hfit (priorityOf_of_ranks hranks)

/-! ## All entries -/

/-- The sort key of an entry; one that asks for nothing has none. -/
def keyOf (t : Table) : Option Wish → Attempt (Option OrderEntry)
  | none => .ok none
  | some w => w.key t

/-- Sort keys by ascending priority, those of one priority as they were. -/
def sorted (keys : List OrderEntry) : List OrderEntry :=
  keys.mergeSort fun a b => decide (a.priority ≤ b.priority)

/-- An order that has sort keys. -/
def order? : List OrderEntry → Option (List OrderEntry)
  | [] => none
  | keys => some keys

theorem getD_order? (keys : List OrderEntry) : (order? keys).getD [] = keys := by
  cases keys <;> rfl

theorem order?_eq_none {keys : List OrderEntry} : order? keys = none ↔ keys = [] := by
  cases keys <;> simp [order?]

theorem mapM_of_asks {entries : List (Item × Nat)} {wishes : List (Option Wish)}
    (h : List.Forall₂ (fun entry wish => Asks entry.2 entry.1 wish) entries wishes) :
    (entries.mapM fun (item, position) => compileItem t position item) =
      wishes.mapM (keyOf t) := by
  induction h with
  | nil => rfl
  | @cons entry wish entries wishes hfirst _ ih =>
    have hkey : compileItem t entry.2 entry.1 = keyOf t wish := by
      rw [compileItem_of_asks hfirst]
      cases wish <;> rfl
    rw [List.mapM_cons, List.mapM_cons, ih, ← hkey]

/-- Compiling what writes an order is compiling what its entries ask for. -/
theorem compile_eq_of_writes {wishes : List (Option Wish)} (h : Writes v wishes) :
    compile t v = do return order? (sorted ((← wishes.mapM (keyOf t)).filterMap id)) := by
  obtain ⟨entries, hentries, hasks⟩ := h
  have hmap := mapM_of_asks (t := t) hasks
  rw [compile]
  split
  · -- What counts as empty lists no entries.
    rename_i hempty
    have hnone : entries = [] := by
      cases v <;> simp_all [entries?, Value.truthy]
    subst hnone
    cases hasks
    rw [List.mapM_nil, pure_bind, List.filterMap_nil, sorted, List.mergeSort_nil]
    rfl
  · rename_i hsome
    have hitems : items v = .ok entries := by
      cases v <;> simp_all [entries?, Value.truthy, items, Shape.parts, Shape.parts?, bind,
        Except.bind, pure, Except.pure]
    rw [bind_of_eq_ok hitems, ← hmap]
    refine congrArg _ (funext fun found => ?_)
    show (match sorted (found.filterMap id) with | [] => _ | keys => _) = _
    cases sorted (found.filterMap id) <;> rfl

/-- An order goes wrong over an entry for a column of the table that has no direction. -/
theorem keyOf_eq_error {wish : Option Wish} {e : Failure} :
    keyOf t wish = .error e ↔ ∃ w name, wish = some w ∧ w.known? t = some name ∧
      (∀ d, ¬ Directs w.direction d) ∧
      e = .fault (.directionUnknown t.name name w.direction.display) := by
  cases wish with
  | none => exact iff_of_false nofun (by simp)
  | some w =>
    rw [keyOf, Wish.key]
    cases hname : w.known? t with
    | none => exact iff_of_false nofun (by rintro ⟨_, _, ⟨⟩, h, -⟩; simp [hname] at h)
    | some name =>
      cases hd : direction? w.direction with
      | none =>
        have hnone := direction?_eq_none_iff.mp hd
        refine ⟨fun h => ⟨w, name, rfl, hname, hnone, (Except.error.inj h).symm⟩, ?_⟩
        rintro ⟨_, _, ⟨⟩, hname', -, rfl⟩
        rw [← Option.some.inj (hname.symm.trans hname')]
        rfl
      | some d =>
        refine iff_of_false nofun ?_
        rintro ⟨_, _, ⟨⟩, -, hnone, -⟩
        exact hnone d (direction?_eq_some_iff.mp hd)

theorem keyOf_eq_ok {w : Wish} {found : Option OrderEntry} (h : keyOf t (some w) = .ok found) :
    (w.known? t = none ∧ found = none) ∨ ∃ key, found = some key ∧ w.Gives t key := by
  rw [keyOf, Wish.key] at h
  split at h
  · rename_i hname
    exact .inl ⟨hname, (Except.ok.inj h).symm⟩
  · rename_i name hname
    split at h
    · cases h
    · rename_i d hd
      exact .inr ⟨_, (Except.ok.inj h).symm, hname, direction?_eq_some_iff.mp hd, rfl⟩

/-- The entries for columns of a table, in the order in which they are written. -/
def named (t : Table) (wishes : List (Option Wish)) : List Wish :=
  wishes.reduceOption.filter fun w => (w.known? t).isSome

/-- The sort keys of the entries for columns of the table, one for each, in order. -/
theorem gives_of_mapM {wishes : List (Option Wish)} {found : List (Option OrderEntry)}
    (h : wishes.mapM (keyOf t) = .ok found) :
    List.Forall₂ (Wish.Gives t) (named t wishes) (found.filterMap id) := by
  replace h := mapM_eq_ok.mp h
  induction h with
  | nil => exact .nil
  | @cons wish key wishes found hfirst _ ih =>
    cases wish with
    | none =>
      obtain rfl := Except.ok.inj hfirst
      exact ih
    | some w =>
      rw [named, List.reduceOption_cons_of_some]
      obtain ⟨hunknown, rfl⟩ | ⟨key, rfl, hgives⟩ := keyOf_eq_ok hfirst
      · rw [List.filter_cons_of_neg (by simp [hunknown])]
        exact ih
      · rw [List.filter_cons_of_pos (by simp [hgives.column])]
        exact .cons hgives ih

/-! ## Sorting -/

/-- Sort keys in ascending order of priority: the given ones, each as often as it was given, and
those of one priority in the order given. -/
structure StablySorted (given keys : List OrderEntry) : Prop where
  perm : keys.Perm given
  ascending : keys.Pairwise (·.priority ≤ ·.priority)
  stable : ∀ n : Int, keys.filter (·.priority = n) = given.filter (·.priority = n)

theorem stablySorted_sorted (keys : List OrderEntry) : StablySorted keys (sorted keys) := by
  have htrans : ∀ a b c : OrderEntry, decide (a.priority ≤ b.priority) = true →
      decide (b.priority ≤ c.priority) = true → decide (a.priority ≤ c.priority) = true := by
    intro a b c hab hbc
    simp only [decide_eq_true_eq] at *
    omega
  have htotal : ∀ a b : OrderEntry,
      (decide (a.priority ≤ b.priority) || decide (b.priority ≤ a.priority)) = true := by
    intro a b
    simp only [Bool.or_eq_true, decide_eq_true_eq]
    omega
  have hperm : (sorted keys).Perm keys := List.mergeSort_perm _ _
  refine ⟨hperm, ?_, fun n => ?_⟩
  · exact (List.pairwise_mergeSort htrans htotal keys).imp of_decide_eq_true
  · -- Keys of one priority are in order already, so that sorting keeps them as a sublist.
    have hsame : (keys.filter (·.priority = n)).Pairwise
        fun a b => decide (a.priority ≤ b.priority) = true := by
      refine List.Pairwise.imp_of_mem ?_ (List.pairwise_of_forall fun _ _ => trivial)
      intro a b ha hb _
      have ha' : a.priority = n := by simpa using (List.mem_filter.mp ha).2
      have hb' : b.priority = n := by simpa using (List.mem_filter.mp hb).2
      simp [ha', hb']
    have hsub : (keys.filter (·.priority = n)).Sublist (sorted keys) :=
      List.sublist_mergeSort htrans htotal hsame List.filter_sublist
    have hkept := hsub.filter (·.priority = n)
    rw [List.filter_filter] at hkept
    refine (List.Sublist.eq_of_length ?_ (hperm.filter _).length_eq.symm).symm
    simpa using hkept

theorem StablySorted.sorted_eq {given keys : List OrderEntry} (h : StablySorted given keys) :
    sorted keys = keys :=
  List.mergeSort_of_pairwise (h.ascending.imp decide_eq_true)

/-! ## Orders written down again -/

/-- A sort key as an entry that writes it. -/
def written (key : OrderEntry) : Value :=
  .object [("column", .text key.column), ("direction", .text key.direction.name),
    ("priority", .int key.priority)]

/-- What the entry for a sort key asks for. -/
def wishOf (key : OrderEntry) : Wish :=
  ⟨.text key.column, .text key.direction.name, key.priority⟩

theorem asks_written (position : Nat) (key : OrderEntry) :
    Asks position (.naming (written key)) (some (wishOf key)) :=
  .naming (by simp) rfl (.whole _)

theorem writes_written (keys : List OrderEntry) :
    Writes (.list (keys.map written)) (keys.map fun key => some (wishOf key)) := by
  refine ⟨_, rfl, ?_⟩
  rw [List.map_map, List.forall₂_map_right_iff, List.zipIdx_map, List.forall₂_map_left_iff]
  have hzip (n : Nat) : List.Forall₂ (fun (entry : OrderEntry × Nat) key => entry.1 = key)
      (keys.zipIdx n) keys := by
    induction keys generalizing n with
    | nil => exact .nil
    | cons key keys ih => exact .cons rfl (ih (n + 1))
  exact (hzip 0).imp fun entry key h => h ▸ asks_written entry.2 entry.1

theorem key_wishOf {key : OrderEntry} (h : t.hasColumn key.column = true) :
    keyOf t (some (wishOf key)) = .ok (some key) := by
  have hdirection : direction? (.text key.direction.name) = some key.direction := by
    cases key.direction <;> rfl
  rw [keyOf, Wish.key, Wish.known?, wishOf]
  simp only [h, if_true, hdirection]

/-- Sort keys of a table that are in order are the order that they write. -/
theorem compile_written {given keys : List OrderEntry} (h : StablySorted given keys)
    (hcolumns : ∀ key ∈ keys, t.hasColumn key.column = true) :
    compile t (.list (keys.map written)) = .ok (order? keys) := by
  have hkeys : (keys.map fun key => some (wishOf key)).mapM (keyOf t) = .ok (keys.map some) := by
    rw [mapM_eq_ok, List.forall₂_map_left_iff, List.forall₂_map_right_iff]
    exact List.forall₂_same.mpr fun key hkey => key_wishOf (hcolumns key hkey)
  have hall : (keys.map some).filterMap id = keys := by
    rw [List.filterMap_map]
    exact List.filterMap_some
  rw [compile_eq_of_writes (writes_written keys), bind_of_eq_ok hkeys, hall, h.sorted_eq]
  rfl

/-- An order that is written with whole numbers for priorities is refused just when some entry for a
column of the table has a direction that is neither word, over such an entry. Otherwise it comes to
the sort keys of the entries for columns of the table, stably sorted; it is none when there are no
such entries. The sort keys, written down as a list, come to the same again. -/
theorem compile_of_writes {wishes : List (Option Wish)} (h : Writes v wishes) :
    ((∃ e, compile t v = .error e) ↔
      ∃ w ∈ named t wishes, ∀ d, ¬ Directs w.direction d) ∧
    (∀ e, compile t v = .error e → ∃ w ∈ named t wishes, ∃ name, w.known? t = some name ∧
      (∀ d, ¬ Directs w.direction d) ∧
      e = .fault (.directionUnknown t.name name w.direction.display)) ∧
    ∀ result, compile t v = .ok result → ∃ given keys,
      List.Forall₂ (Wish.Gives t) (named t wishes) given ∧ StablySorted given keys ∧
      (named t wishes = [] → result = none) ∧ (named t wishes ≠ [] → result = some keys) ∧
      compile t (.list ((result.getD []).map written)) = .ok result := by
  have hmem {w : Wish} {name : String} (hw : some w ∈ wishes) (hname : w.known? t = some name) :
      w ∈ named t wishes :=
    List.mem_filter.mpr ⟨List.reduceOption_mem_iff.mpr hw, by simp [hname]⟩
  have heq := compile_eq_of_writes (t := t) h
  have herror : ∀ e, compile t v = .error e → ∃ w ∈ named t wishes, ∃ name,
      w.known? t = some name ∧ (∀ d, ¬ Directs w.direction d) ∧
      e = .fault (.directionUnknown t.name name w.direction.display) := by
    intro e he
    rw [heq] at he
    rcases bind_eq_error.mp he with he | ⟨_, -, he⟩
    · obtain ⟨wish, hwish, hkey⟩ := exists_of_mapM_eq_error he
      obtain ⟨w, name, rfl, hname, hnone, rfl⟩ := keyOf_eq_error.mp hkey
      exact ⟨w, hmem hwish hname, name, hname, hnone, rfl⟩
    · cases he
  refine ⟨⟨fun ⟨e, he⟩ => ?_, fun ⟨w, hw, hnone⟩ => ?_⟩, herror, fun result hresult => ?_⟩
  · obtain ⟨w, hw, -, -, hnone, -⟩ := herror e he
    exact ⟨w, hw, hnone⟩
  · obtain ⟨hwish, hknown⟩ := List.mem_filter.mp hw
    obtain ⟨name, hname⟩ := Option.isSome_iff_exists.mp hknown
    cases hfound : wishes.mapM (keyOf t) with
    | error e => exact ⟨e, by rw [heq, hfound]; rfl⟩
    | ok found =>
      have hkey := exists_mapM_eq_ok.mp ⟨found, hfound⟩ _ (List.reduceOption_mem_iff.mp hwish)
      obtain ⟨_, hkey⟩ := hkey
      cases (keyOf_eq_error.mpr ⟨w, name, rfl, hname, hnone, rfl⟩).symm.trans hkey
  · rw [heq] at hresult
    obtain ⟨found, hfound, hresult⟩ := bind_eq_ok.mp hresult
    obtain rfl := pure_eq_ok.mp hresult
    have hgives := gives_of_mapM hfound
    have hsorted := stablySorted_sorted (found.filterMap id)
    have hcolumns : ∀ key ∈ sorted (found.filterMap id), t.hasColumn key.column = true := by
      intro key hkey
      obtain ⟨w, -, hw⟩ := exists_of_forall₂ hgives.flip (hsorted.perm.mem_iff.mp hkey)
      exact Wish.hasColumn_of_known? hw.column
    have hlength : (sorted (found.filterMap id)).length = (named t wishes).length :=
      hsorted.perm.length_eq.trans hgives.length_eq.symm
    refine ⟨_, _, hgives, hsorted, fun hnone => ?_, fun hsome => ?_, ?_⟩
    · rw [order?_eq_none, ← List.length_eq_zero_iff, hlength, hnone, List.length_nil]
    · obtain ⟨key, keys, hkeys⟩ : ∃ key keys, sorted (found.filterMap id) = key :: keys := by
        refine List.exists_cons_of_ne_nil fun hnil => hsome ?_
        rw [← List.length_eq_zero_iff, ← hlength, hnil, List.length_nil]
      rw [hkeys]
      rfl
    · rw [getD_order?]
      exact compile_written hsorted hcolumns

namespace Posts

/-- Posts, which have a number and a title. -/
def posts : Table where
  name := "posts"
  declaration := { name := "posts", columns := [] }
  columns := ["id", "title"].map fun name =>
    { name := name, kind := .text, nullable := true, hasDefault := false
      declaration := { key := name, name := name } }

/-- By title, nothing, by a column that posts lack, by number, and by title once more. -/
def byTitle : Value := .list [
  .object [("column", .text "title"), ("direction", .text "DESC")],
  .object [],
  .object [("column", .text "ghost"), ("direction", .text "sideways")],
  .object [("column", .text "id"), ("priority", .int 1)],
  .object [("column", .text "title"), ("direction", .text ""), ("priority", .null)]]

/-- What the entries ask for. -/
def wishes : List (Option Wish) :=
  [some ⟨.text "title", .text "DESC", 0⟩, none, some ⟨.text "ghost", .text "sideways", 2⟩,
    some ⟨.text "id", .null, 1⟩, some ⟨.text "title", .text "", 0⟩]

theorem writes_byTitle : Writes byTitle wishes := by
  refine ⟨_, rfl, .cons ?_ (.cons ?_ (.cons ?_ (.cons ?_ (.cons ?_ .nil))))⟩
  · exact .naming (by simp) rfl .leftOut
  · exact .nothing rfl
  · exact .naming (by simp) rfl .leftOut
  · exact .naming (by simp) rfl (.whole 1)
  · exact .naming (by simp) rfl .null

/-- The posts are ordered by title first, down and then up, and the order comes to itself. -/
theorem compile_byTitle : Writes byTitle wishes ∧
    ∃ keys, keys = [⟨"title", .desc, 0⟩, ⟨"title", .asc, 0⟩, ⟨"id", .asc, 1⟩] ∧
      compile posts byTitle = .ok (some keys) ∧
      compile posts (.list (keys.map written)) = .ok (some keys) := by
  have hfound : wishes.mapM (keyOf posts) = .ok [some ⟨"title", .desc, 0⟩, none, none,
      some ⟨"id", .asc, 1⟩, some ⟨"title", .asc, 0⟩] := by decide +kernel
  have hsorted : sorted [⟨"title", .desc, 0⟩, ⟨"id", .asc, 1⟩, ⟨"title", .asc, 0⟩] =
      [⟨"title", .desc, 0⟩, ⟨"title", .asc, 0⟩, ⟨"id", .asc, 1⟩] := by
    simp [sorted, List.mergeSort]
  have hcompiled : compile posts byTitle =
      .ok (some [⟨"title", .desc, 0⟩, ⟨"title", .asc, 0⟩, ⟨"id", .asc, 1⟩]) := by
    rw [compile_eq_of_writes writes_byTitle, bind_of_eq_ok hfound]
    exact congrArg (fun keys => Except.ok (order? keys)) hsorted
  obtain ⟨_, _, _, _, _, _, hagain⟩ := (compile_of_writes writes_byTitle).2.2 _ hcompiled
  exact ⟨writes_byTitle, _, rfl, hcompiled, hagain⟩

end Posts

end RelGraph.OrderBy
