import RelGraph.Proofs.Schema.Additions
import RelGraph.Proofs.Typing
/-!
Types that foreign keys adopt. Of the two columns of a pair that a relation joins one may be a
foreign key: the one that refers to the other, the source's if both do, and for a to-one relation
the source's also where neither does. It is offered the override of the other if it has none itself,
and the first offer stands. So the columns that adopt a type are those with an offer, and where all
offers to a column agree it does not matter in which order they are made, nor, for a pair of which
one column alone refers to the other, from which side the tables are joined.
-/
namespace RelGraph

open Outcome

/-! ## Pairs of columns -/

namespace Registry

/-- The column at a place: under a name, in the table of a name. -/
def columnAt? (r : Registry) (place : String × String) : Option (Table × Column) := do
  let t ← r.table? place.1
  return (t, ← t.column? place.2)

/-- Whether a column refers to another. -/
def Refers (r : Registry) (a b : String × String) : Prop :=
  ∃ x y, r.columnAt? a = some x ∧ r.columnAt? b = some y ∧
    .column ⟨y.1.declaration.name, y.2.name⟩ ∈ x.1.declaration.referencesOf x.2.name

/-- Whether a relation of a cardinality joins two columns, from the first to the second. -/
def Joins (r : Registry) (toMany : Bool) (near far : String × String) : Prop :=
  ∃ t ∈ r.all, ∃ rel ∈ Members.values t.relations, ∃ pair ∈ rel.pairs,
    rel.toMany = toMany ∧ (rel.source, pair.1) = near ∧ (rel.target, pair.2) = far

/-- Whether one of two joined columns is taken for a foreign key to the other. -/
inductive KeySide (r : Registry) (toMany : Bool) (near far : String × String) :
    String × String → String × String → Prop
  | near : r.Refers near far ∨ (¬ r.Refers far near ∧ toMany = false) →
      KeySide r toMany near far near far
  | far : ¬ r.Refers near far → r.Refers far near → KeySide r toMany near far far near

/-- Whether joining two columns offers an override to a column, given by its key: it is the foreign
key and has no override, and the other one has this. -/
def Offers (r : Registry) (toMany : Bool) (near far key : String × String) (override : String) :
    Prop :=
  ∃ own other x y, r.KeySide toMany near far own other ∧ r.columnAt? own = some x ∧
    r.columnAt? other = some y ∧ (x.1.name, x.2.name) = key ∧
    givenText? x.2.typeOverride = none ∧ givenText? y.2.typeOverride = some override

/-- Whether some pair of joined columns offers an override to a column. -/
def Linked (r : Registry) (key : String × String) (override : String) : Prop :=
  ∃ toMany near far, r.Joins toMany near far ∧ r.Offers toMany near far key override

/-- Whether the foreign keys of all joined columns lead to declared columns. -/
def KeysLead (r : Registry) : Prop :=
  ∀ toMany near far, r.Joins toMany near far → ∀ place ∈ [near, far], ∀ x,
    r.columnAt? place = some x → ∀ reference ∈ x.1.declaration.referencesOf x.2.name,
      ∃ column, reference = .column column

/-- Whether of two columns one refers to the other, but not the other to it. -/
def OneWay (r : Registry) (a b : String × String) : Prop := ¬ (r.Refers a b ↔ r.Refers b a)

/-- Whether another registry joins all columns that a registry joins: in the same direction and with
the same cardinality, or anyhow where only one of the columns refers to the other. -/
def JoinsAs (r r' : Registry) : Prop :=
  ∀ toMany near far, r.Joins toMany near far → r'.Joins toMany near far ∨
    r.OneWay near far ∧ ∃ toMany', r'.Joins toMany' near far ∨ r'.Joins toMany' far near

end Registry

section References

variable {references : List Reference} {column : ColumnRef} {found : Bool}

/-- Looking up references one after the other tells whether one leads to a column. -/
theorem mem_of_leadTo (h : leadTo references column = .ok found) :
    found = true ↔ .column column ∈ references := by
  have hgo : ∀ {references : List Reference} {before : Bool},
      references.foldlM (fun found reference => do
        if found then return true else return (← reference.resolve) = column) before = .ok found →
      (found = true ↔ before = true ∨ .column column ∈ references) := by
    intro references
    induction references with
    | nil =>
      intro before h
      rw [← pure_eq_ok.mp h]
      simp
    | cons reference rest ih =>
      intro before h
      rw [List.foldlM_cons] at h
      obtain ⟨next, hnext, h⟩ := bind_eq_ok.mp h
      rw [ih h]
      split at hnext
      · rename_i hbefore
        simp [← pure_eq_ok.mp hnext, hbefore]
      · rename_i hbefore
        obtain ⟨ref, href, hnext⟩ := bind_eq_ok.mp hnext
        rw [← pure_eq_ok.mp hnext]
        cases reference with
        | column led =>
          obtain rfl := Except.ok.inj href
          simp [hbefore, eq_comm]
        | missingColumn table => cases href
        | missingTable => cases href
  simpa using hgo h

theorem exists_leadTo (h : ∀ reference ∈ references, ∃ column, reference = .column column) :
    ∃ found, leadTo references column = .ok found := by
  have hgo : ∀ {references : List Reference} {before : Bool},
      (∀ reference ∈ references, ∃ column, reference = .column column) →
      ∃ found, references.foldlM (fun found reference => do
        if found then return true else return (← reference.resolve) = column) before =
          Except.ok (ε := Failure) found := by
    intro references
    induction references with
    | nil => exact fun {before} _ => ⟨before, rfl⟩
    | cons reference rest ih =>
      intro before h
      obtain ⟨led, rfl⟩ := h _ List.mem_cons_self
      have hrest : ∀ reference ∈ rest, ∃ column, reference = .column column :=
        fun reference hreference => h reference (List.mem_cons_of_mem _ hreference)
      obtain ⟨found, hfound⟩ := @ih (if before then true else led = column) hrest
      refine ⟨found, ?_⟩
      rw [List.foldlM_cons]
      cases before <;> exact hfound
  exact hgo h

end References

/-! ## Offers -/

/-- The override that the foreign key of a pair is offered, if it has none itself. -/
def offerOf (r : Registry) (joined : Relation × (String × String)) :
    Attempt (Option ((String × String) × String)) := do
  match ← foreignKeySides r joined.1 joined.2 with
  | none => return none
  | some (near, far) =>
    match givenText? near.2.typeOverride, givenText? far.2.typeOverride with
    | none, some override => return some ((near.1.name, near.2.name), override)
    | _, _ => return none

/-- Adopts what is offered, if something is and nothing was adopted before. -/
def TypeBook.adopt (b : TypeBook) : Option ((String × String) × String) → TypeBook
  | none => b
  | some offer =>
    if (b.adoptedType? offer.1.1 offer.1.2).isSome then b
    else { b with adopted := b.adopted ++ [offer] }

/-- All pairs of columns that are joined, with the relations that join them. -/
def joinedPairs (r : Registry) : List (Relation × (String × String)) :=
  r.all.flatMap fun t => (Members.values t.relations).flatMap fun rel => rel.pairs.map (rel, ·)

section Offers

variable {r : Registry} {b b' : TypeBook} {rel : Relation} {pair : String × String}
  {sides : Option ((Table × Column) × (Table × Column))}
  {offers : List (Option ((String × String) × String))}

theorem mem_joinedPairs : (rel, pair) ∈ joinedPairs r ↔
    ∃ t ∈ r.all, rel ∈ Members.values t.relations ∧ pair ∈ rel.pairs := by
  simp only [joinedPairs, List.mem_flatMap, List.mem_map]
  constructor
  · rintro ⟨t, ht, rel', hrel, pair', hpair, heq⟩
    obtain ⟨rfl, rfl⟩ := Prod.mk.inj heq
    exact ⟨t, ht, hrel, hpair⟩
  · rintro ⟨t, ht, hrel, hpair⟩
    exact ⟨t, ht, rel, hrel, pair, hpair, rfl⟩

theorem joins_of_mem (h : (rel, pair) ∈ joinedPairs r) :
    r.Joins rel.toMany (rel.source, pair.1) (rel.target, pair.2) := by
  obtain ⟨t, ht, hrel, hpair⟩ := mem_joinedPairs.mp h
  exact ⟨t, ht, rel, hrel, pair, hpair, rfl, rfl, rfl⟩

theorem adoptPair_eq : adoptPair r b rel pair = do
    return b.adopt (← offerOf r (rel, pair)) := by
  simp only [adoptPair, offerOf, bind_assoc]
  refine congrArg _ (funext fun sides => ?_)
  cases sides with
  | none => rfl
  | some sides =>
    obtain ⟨near, far⟩ := sides
    dsimp only
    cases givenText? near.2.typeOverride with
    | some own => rfl
    | none =>
      cases givenText? far.2.typeOverride with
      | none => rfl
      | some override =>
        simp only [pure_bind, TypeBook.adopt]
        split <;> rfl

/-- The pass goes through all joined pairs, and refuses overrides that are no texts. -/
theorem adoptForeignKeyTypes_eq_ok : adoptForeignKeyTypes r b = .ok b' ↔
    ∃ offers, (joinedPairs r).mapM (offerOf r) = .ok offers ∧
      (∀ t ∈ r.all, ∀ c ∈ t.columns, checkOverride c = .ok ()) ∧
      b' = offers.foldl TypeBook.adopt b := by
  have hpass : (r.all.foldlM (fun b t => (Members.values t.relations).foldlM
      (fun b rel => rel.pairs.foldlM (fun b pair => adoptPair r b rel pair) b) b) b) =
      (joinedPairs r).foldlM (fun b joined => do pure (b.adopt (← offerOf r joined))) b := by
    simp only [joinedPairs, foldlM_flatMap, List.foldlM_map, adoptPair_eq]
  rw [adoptForeignKeyTypes, hpass]
  simp only [bind_eq_ok, foldlM_mapM_eq_ok, pure_eq_ok, List.foldlM_pure]
  constructor
  · rintro ⟨_, ⟨offers, hoffers, rfl⟩, _, hchecked, rfl⟩
    exact ⟨offers, hoffers, fun t ht => forM_eq_ok.mp (forM_eq_ok.mp hchecked t ht), rfl⟩
  · rintro ⟨offers, hoffers, hchecked, rfl⟩
    exact ⟨_, ⟨offers, hoffers, rfl⟩, (), forM_eq_ok.mpr fun t ht =>
      forM_eq_ok.mpr (hchecked t ht), rfl⟩

theorem foreignKeySides_of_missing (h : r.columnAt? (rel.source, pair.1) = none ∨
    r.columnAt? (rel.target, pair.2) = none) : foreignKeySides r rel pair = .ok none := by
  dsimp only [Registry.columnAt?] at h
  rw [foreignKeySides]
  rcases h with h | h
  · rw [h]
  · rw [h]
    split
    · contradiction
    · rfl

theorem foreignKeySides_of_columns {x y : Table × Column}
    (hx : r.columnAt? (rel.source, pair.1) = some x)
    (hy : r.columnAt? (rel.target, pair.2) = some y) :
    foreignKeySides r rel pair = do
      if ← leadTo (x.1.declaration.referencesOf x.2.name) ⟨y.1.declaration.name, y.2.name⟩ then
        return some (x, y)
      else if ← leadTo (y.1.declaration.referencesOf y.2.name)
          ⟨x.1.declaration.name, x.2.name⟩ then
        return some (y, x)
      else if rel.toMany then return none
      else return some (x, y) := by
  dsimp only [Registry.columnAt?] at hx hy
  rw [foreignKeySides, hx, hy]

theorem refers_iff {near far : String × String} {x y : Table × Column}
    (hx : r.columnAt? near = some x) (hy : r.columnAt? far = some y) : r.Refers near far ↔
      .column ⟨y.1.declaration.name, y.2.name⟩ ∈ x.1.declaration.referencesOf x.2.name := by
  constructor
  · rintro ⟨x', y', hx', hy', hmem⟩
    obtain rfl := Option.some.inj (hx.symm.trans hx')
    obtain rfl := Option.some.inj (hy.symm.trans hy')
    exact hmem
  · exact fun hmem => ⟨x, y, hx, hy, hmem⟩

/-- Only one of two columns is taken for a foreign key. -/
theorem Registry.KeySide.unique {toMany : Bool} {near far own other own' other' : String × String}
    (h : r.KeySide toMany near far own other) (h' : r.KeySide toMany near far own' other') :
    own = own' ∧ other = other' := by
  cases h with
  | near h =>
    cases h' with
    | near => exact ⟨rfl, rfl⟩
    | far hnear hfar => exact (h.elim hnear fun h => h.1 hfar).elim
  | far hnear hfar =>
    cases h' with
    | near h => exact (h.elim hnear fun h => h.1 hfar).elim
    | far => exact ⟨rfl, rfl⟩

/-- The sides of a pair are those that its foreign keys and the cardinality tell. -/
theorem sides_eq_ok (h : foreignKeySides r rel pair = .ok sides) (x y : Table × Column) :
    sides = some (x, y) ↔ ∃ own other,
      r.KeySide rel.toMany (rel.source, pair.1) (rel.target, pair.2) own other ∧
        r.columnAt? own = some x ∧ r.columnAt? other = some y := by
  -- The side that is found is the only one, and where none is found there is none.
  have hside : ∀ {own other : String × String} {x₀ y₀ : Table × Column},
      r.KeySide rel.toMany (rel.source, pair.1) (rel.target, pair.2) own other →
      r.columnAt? own = some x₀ → r.columnAt? other = some y₀ →
      (some (x₀, y₀) = some (x, y) ↔ ∃ own other,
        r.KeySide rel.toMany (rel.source, pair.1) (rel.target, pair.2) own other ∧
          r.columnAt? own = some x ∧ r.columnAt? other = some y) := by
    intro own other x₀ y₀ hkey hx₀ hy₀
    constructor
    · intro heq
      obtain ⟨rfl, rfl⟩ := Prod.mk.inj (Option.some.inj heq)
      exact ⟨own, other, hkey, hx₀, hy₀⟩
    · rintro ⟨own', other', hkey', hx, hy⟩
      obtain ⟨rfl, rfl⟩ := hkey.unique hkey'
      rw [← Option.some.inj (hx₀.symm.trans hx), ← Option.some.inj (hy₀.symm.trans hy)]
  have hnone : (∀ own other,
      r.KeySide rel.toMany (rel.source, pair.1) (rel.target, pair.2) own other →
      ¬ (r.columnAt? own = some x ∧ r.columnAt? other = some y)) →
      ((none : Option ((Table × Column) × (Table × Column))) = some (x, y) ↔ ∃ own other,
        r.KeySide rel.toMany (rel.source, pair.1) (rel.target, pair.2) own other ∧
          r.columnAt? own = some x ∧ r.columnAt? other = some y) := by
    intro hno
    refine ⟨fun heq => (by cases heq), fun ⟨own, other, hkey, hcolumns⟩ => ?_⟩
    exact (hno own other hkey hcolumns).elim
  rcases hx₀ : r.columnAt? (rel.source, pair.1) with _ | x₀
  · rw [foreignKeySides_of_missing (.inl hx₀)] at h
    obtain rfl := Except.ok.inj h
    refine hnone fun own other hkey hcolumns => ?_
    cases hkey
    · cases hx₀.symm.trans hcolumns.1
    · cases hx₀.symm.trans hcolumns.2
  rcases hy₀ : r.columnAt? (rel.target, pair.2) with _ | y₀
  · rw [foreignKeySides_of_missing (.inr hy₀)] at h
    obtain rfl := Except.ok.inj h
    refine hnone fun own other hkey hcolumns => ?_
    cases hkey
    · cases hy₀.symm.trans hcolumns.2
    · cases hy₀.symm.trans hcolumns.1
  rw [foreignKeySides_of_columns hx₀ hy₀] at h
  obtain ⟨forth, hforth, h⟩ := bind_eq_ok.mp h
  replace hforth := (mem_of_leadTo hforth).trans (refers_iff hx₀ hy₀).symm
  split at h
  · rename_i hfound
    obtain rfl := pure_eq_ok.mp h
    exact hside (.near (.inl (hforth.mp hfound))) hx₀ hy₀
  rename_i hforth'
  replace hforth := mt hforth.mpr hforth'
  obtain ⟨back, hback, h⟩ := bind_eq_ok.mp h
  replace hback := (mem_of_leadTo hback).trans (refers_iff hy₀ hx₀).symm
  split at h
  · rename_i hfound
    obtain rfl := pure_eq_ok.mp h
    exact hside (.far hforth (hback.mp hfound)) hy₀ hx₀
  rename_i hback'
  replace hback := mt hback.mpr hback'
  split at h
  · rename_i hmany
    obtain rfl := pure_eq_ok.mp h
    refine hnone fun own other hkey _ => ?_
    cases hkey with
    | near hnear =>
      rcases hnear with hnear | ⟨-, hone⟩
      · exact hforth hnear
      · rw [hmany] at hone
        cases hone
    | far _ hfar => exact hback hfar
  · rename_i hmany
    obtain rfl := pure_eq_ok.mp h
    exact hside (.near (.inr ⟨hback, by simpa using hmany⟩)) hx₀ hy₀

/-- What is offered is what joining the pair offers. -/
theorem offerOf_eq_ok {offer : Option ((String × String) × String)}
    (h : offerOf r (rel, pair) = .ok offer) (key : String × String) (override : String) :
    offer = some (key, override) ↔
      r.Offers rel.toMany (rel.source, pair.1) (rel.target, pair.2) key override := by
  obtain ⟨sides, hsides, h⟩ := bind_eq_ok.mp h
  have hall := sides_eq_ok hsides
  constructor
  · rintro rfl
    split at h
    · cases pure_eq_ok.mp h
    · rename_i x y
      split at h
      · rename_i override' hx hy
        obtain ⟨rfl, rfl⟩ := Prod.mk.inj (Option.some.inj (pure_eq_ok.mp h))
        obtain ⟨own, other, hkey, hown, hother⟩ := (hall x y).mp rfl
        exact ⟨own, other, x, y, hkey, hown, hother, rfl, hx, hy⟩
      · cases pure_eq_ok.mp h
  · rintro ⟨own, other, x, y, hkey, hown, hother, rfl, hx, hy⟩
    obtain rfl := (hall x y).mpr ⟨own, other, hkey, hown, hother⟩
    simp only [hx, hy] at h
    exact (pure_eq_ok.mp h).symm

/-- The pass goes through with all overrides that joined pairs offer. -/
theorem mem_offers (h : (joinedPairs r).mapM (offerOf r) = .ok offers) (key : String × String)
    (override : String) : some (key, override) ∈ offers ↔ r.Linked key override := by
  constructor
  · intro hmem
    obtain ⟨⟨rel, pair⟩, hjoined, hoffer⟩ := exists_of_mem_mapM h hmem
    exact ⟨_, _, _, joins_of_mem hjoined, (offerOf_eq_ok hoffer key override).mp rfl⟩
  · rintro ⟨_, _, _, ⟨t, ht, rel, hrel, pair, hpair, rfl, rfl, rfl⟩, hoffers⟩
    have hjoined : (rel, pair) ∈ joinedPairs r := mem_joinedPairs.mpr ⟨t, ht, hrel, hpair⟩
    obtain ⟨offer, hmem, hoffer⟩ := exists_of_forall₂ (mapM_eq_ok.mp h) hjoined
    rwa [← (offerOf_eq_ok hoffer key override).mpr hoffers]

/-- Where all foreign keys lead to declared columns it can be told what is offered. -/
theorem exists_offers (h : r.KeysLead) :
    ∃ offers, (joinedPairs r).mapM (offerOf r) = .ok offers := by
  refine exists_mapM_eq_ok.mpr fun ⟨rel, pair⟩ hjoined => ?_
  have hlead := h _ _ _ (joins_of_mem hjoined)
  obtain ⟨sides, hsides⟩ : ∃ sides, foreignKeySides r rel pair = .ok sides := by
    rcases hx : r.columnAt? (rel.source, pair.1) with _ | x
    · exact ⟨_, foreignKeySides_of_missing (.inl hx)⟩
    rcases hy : r.columnAt? (rel.target, pair.2) with _ | y
    · exact ⟨_, foreignKeySides_of_missing (.inr hy)⟩
    obtain ⟨forth, hforth⟩ : ∃ forth, leadTo (x.1.declaration.referencesOf x.2.name)
        ⟨y.1.declaration.name, y.2.name⟩ = .ok forth :=
      exists_leadTo (hlead _ List.mem_cons_self x hx)
    obtain ⟨back, hback⟩ : ∃ back, leadTo (y.1.declaration.referencesOf y.2.name)
        ⟨x.1.declaration.name, x.2.name⟩ = .ok back :=
      exists_leadTo (hlead _ (List.mem_cons_of_mem _ List.mem_cons_self) y hy)
    rw [foreignKeySides_of_columns hx hy, hforth, hback]
    cases forth <;> cases back <;> cases rel.toMany <;> exact ⟨_, rfl⟩
  rw [offerOf, hsides]
  rcases sides with _ | ⟨x, y⟩
  · exact ⟨_, rfl⟩
  · show ∃ offer, (match givenText? x.2.typeOverride, givenText? y.2.typeOverride with
      | none, some override => pure (some ((x.1.name, x.2.name), override))
      | _, _ => pure none) = Except.ok offer
    split <;> exact ⟨_, rfl⟩

end Offers

/-! ## Adopted offers -/

namespace TypeBook

variable {b : TypeBook} {offers : List (Option ((String × String) × String))}
  {offer : (String × String) × String} {table column : String}

theorem adoptedType?_append (b : TypeBook) (news : List ((String × String) × String))
    (table column : String) :
    adoptedType? { b with adopted := b.adopted ++ news } table column =
      (b.adoptedType? table column).or
        ((news.find? (·.1 = (table, column))).map Prod.snd) := by
  rw [adoptedType?, adoptedType?, List.find?_append]
  cases b.adopted.find? (·.1 = (table, column)) <;> rfl

/-- An offer to a column that has adopted nothing stands, and all that was adopted stays. -/
theorem adoptedType?_adopt : (b.adopt (some offer)).adoptedType? table column =
    (b.adoptedType? table column).or
      (if offer.1 = (table, column) then some offer.2 else none) := by
  rw [adopt]
  split
  · rename_i hadopted
    split
    · rename_i hkey
      rw [hkey] at hadopted
      obtain ⟨override, hoverride⟩ := Option.isSome_iff_exists.mp hadopted
      rw [hoverride]
      rfl
    · rw [Option.or_none]
  · rw [adoptedType?_append]
    split
    · rename_i hkey
      rw [List.find?_cons_of_pos (by simpa using hkey)]
      rfl
    · rename_i hkey
      rw [List.find?_cons_of_neg (by simpa using hkey)]
      rfl

/-- Of all offers to a column the first stands. -/
theorem adoptedType?_foldl : (offers.foldl adopt b).adoptedType? table column =
    (b.adoptedType? table column).or
      (((offers.filterMap id).find? (·.1 = (table, column))).map Prod.snd) := by
  induction offers generalizing b with
  | nil => exact Option.or_none.symm
  | cons offer rest ih =>
    rw [List.foldl_cons, ih]
    cases offer with
    | none => rfl
    | some offer =>
      rw [adoptedType?_adopt, Option.or_assoc, List.filterMap_cons_some (f := id) rfl,
        List.find?_cons]
      by_cases hkey : offer.1 = (table, column)
      · simp [hkey]
      · simp [hkey]

/-- Going through offers adds those to columns that have adopted nothing, each column once. -/
theorem foldl_adopt (b : TypeBook) (offers : List (Option ((String × String) × String))) :
    ∃ news, offers.foldl adopt b = { b with adopted := b.adopted ++ news } ∧
      (news.map Prod.fst).Nodup ∧ ∀ entry ∈ news, some entry ∈ offers ∧
        b.adoptedType? entry.1.1 entry.1.2 = none := by
  induction offers generalizing b with
  | nil => exact ⟨[], by simp, .nil, by simp⟩
  | cons offer rest ih =>
    obtain ⟨news, hnews, hnodup, hentries⟩ := ih (b.adopt offer)
    rw [List.foldl_cons, hnews]
    cases offer with
    | none => exact ⟨news, rfl, hnodup, fun entry hentry =>
        ⟨List.mem_cons_of_mem _ (hentries entry hentry).1, (hentries entry hentry).2⟩⟩
    | some offer =>
      have hearlier : ∀ entry ∈ news, b.adoptedType? entry.1.1 entry.1.2 = none ∧
          offer.1 ≠ entry.1 := by
        intro entry hentry
        have hnone := (hentries entry hentry).2
        rw [adoptedType?_adopt, Option.or_eq_none_iff] at hnone
        refine ⟨hnone.1, fun heq => ?_⟩
        rw [if_pos heq] at hnone
        cases hnone.2
      by_cases hadopted : (b.adoptedType? offer.1.1 offer.1.2).isSome
      · refine ⟨news, by rw [adopt, if_pos hadopted], hnodup, fun entry hentry => ?_⟩
        exact ⟨List.mem_cons_of_mem _ (hentries entry hentry).1, (hearlier entry hentry).1⟩
      · refine ⟨offer :: news, by rw [adopt, if_neg hadopted]; simp, ?_, ?_⟩
        · refine List.nodup_cons.mpr ⟨fun hmem => ?_, hnodup⟩
          obtain ⟨entry, hentry, heq⟩ := List.mem_map.mp hmem
          exact (hearlier entry hentry).2 heq.symm
        · refine List.forall_mem_cons.mpr ⟨⟨List.mem_cons_self, by simpa using hadopted⟩, ?_⟩
          exact fun entry hentry => ⟨List.mem_cons_of_mem _ (hentries entry hentry).1,
            (hearlier entry hentry).1⟩

/-- Where all columns with offers have adopted one nothing more is adopted. -/
theorem foldl_adopt_of_adopted
    (h : ∀ entry, some entry ∈ offers → (b.adoptedType? entry.1.1 entry.1.2).isSome) :
    offers.foldl adopt b = b := by
  induction offers with
  | nil => rfl
  | cons offer rest ih =>
    have hrest := ih fun entry hentry => h entry (List.mem_cons_of_mem _ hentry)
    rw [List.foldl_cons]
    cases offer with
    | none => exact hrest
    | some offer =>
      rw [adopt, if_pos (h offer List.mem_cons_self)]
      exact hrest

end TypeBook

/-! ## Other declarations of the same pairs -/

namespace Registry

variable {r r' : Registry} {toMany : Bool} {near far own other key place : String × String}
  {override : String}

theorem SameTables.columnAt? (h : r.SameTables r') {x : Table × Column}
    (hx : r.columnAt? place = some x) : ∃ y, r'.columnAt? place = some y ∧
      y.1.name = x.1.name ∧ y.1.declaration = x.1.declaration ∧ y.2 = x.2 := by
  obtain ⟨t, ht, hx⟩ := Option.bind_eq_some_iff.mp hx
  obtain ⟨c, hc, hx⟩ := Option.bind_eq_some_iff.mp hx
  obtain rfl := Option.some.inj hx
  have hname := h place.1
  rw [ht] at hname
  generalize ht' : r'.table? place.1 = t' at hname
  cases hname with
  | some hsame =>
    obtain ⟨relations, rfl⟩ := hsame
    refine ⟨({ t with relations := relations }, c), ?_, rfl, rfl, rfl⟩
    exact Option.bind_eq_some_iff.mpr ⟨_, ht', Option.bind_eq_some_iff.mpr ⟨c, hc, rfl⟩⟩

theorem Refers.of_sameTables (hrefers : r.Refers near far) (h : r.SameTables r') :
    r'.Refers near far := by
  obtain ⟨x, y, hx, hy, hmem⟩ := hrefers
  obtain ⟨x', hx', -, hdeclaration, hcolumn⟩ := h.columnAt? hx
  obtain ⟨y', hy', -, hdeclaration', hcolumn'⟩ := h.columnAt? hy
  refine ⟨x', y', hx', hy', ?_⟩
  rw [hdeclaration, hcolumn, hdeclaration', hcolumn']
  exact hmem

theorem SameTables.refers_iff (h : r.SameTables r') : r.Refers near far ↔ r'.Refers near far :=
  ⟨fun hrefers => hrefers.of_sameTables h, fun hrefers => hrefers.of_sameTables h.symm⟩

theorem KeySide.of_sameTables (hkey : r.KeySide toMany near far own other)
    (h : r.SameTables r') : r'.KeySide toMany near far own other := by
  cases hkey with
  | near hnear => exact .near (by rwa [← h.refers_iff, ← h.refers_iff])
  | far hnear hfar => exact .far (by rwa [← h.refers_iff]) (by rwa [← h.refers_iff])

/-- Where only one of two columns refers to the other it is the foreign key, in whichever direction
and with whatever cardinality they are joined. -/
theorem KeySide.of_oneWay (hkey : r.KeySide toMany near far own other) (h : r.OneWay near far)
    (toMany' : Bool) :
    r.KeySide toMany' near far own other ∧ r.KeySide toMany' far near own other := by
  cases hkey with
  | near hnear =>
    have hforth : r.Refers near far := by
      rcases hnear with hnear | ⟨hback, -⟩
      · exact hnear
      · by_contra hforth
        exact h ⟨fun hforth' => (hforth hforth').elim, fun hback' => (hback hback').elim⟩
    have hback : ¬ r.Refers far near := fun hback => h ⟨fun _ => hback, fun _ => hforth⟩
    exact ⟨.near (.inl hforth), .far hback hforth⟩
  | far hforth hback => exact ⟨.far hforth hback, .near (.inl hback)⟩

theorem Offers.of_keySide {toMany' : Bool} {near' far' : String × String}
    (hoffers : r.Offers toMany near far key override) (h : r.SameTables r')
    (hkey : ∀ own other, r.KeySide toMany near far own other →
      r'.KeySide toMany' near' far' own other) :
    r'.Offers toMany' near' far' key override := by
  obtain ⟨own, other, x, y, hside, hx, hy, rfl, hfree, hoverride⟩ := hoffers
  obtain ⟨x', hx', hname, -, hcolumn⟩ := h.columnAt? hx
  obtain ⟨y', hy', -, -, hcolumn'⟩ := h.columnAt? hy
  exact ⟨own, other, x', y', hkey own other hside, hx', hy', by rw [hname, hcolumn],
    hcolumn ▸ hfree, hcolumn' ▸ hoverride⟩

/-- What is offered to a column is offered to it where the same columns are joined. -/
theorem Linked.of_joinsAs (hlinked : r.Linked key override) (h : r.SameTables r')
    (hjoins : r.JoinsAs r') : r'.Linked key override := by
  obtain ⟨toMany, near, far, hjoined, hoffers⟩ := hlinked
  obtain hjoined' | ⟨honeWay, toMany', hjoined' | hjoined'⟩ := hjoins toMany near far hjoined
  · exact ⟨toMany, near, far, hjoined', hoffers.of_keySide h fun _ _ hkey => hkey.of_sameTables h⟩
  · exact ⟨toMany', near, far, hjoined', hoffers.of_keySide h fun _ _ hkey =>
      (hkey.of_oneWay honeWay toMany').1.of_sameTables h⟩
  · exact ⟨toMany', far, near, hjoined', hoffers.of_keySide h fun _ _ hkey =>
      (hkey.of_oneWay honeWay toMany').2.of_sameTables h⟩

end Registry

/-- What the pass over a registry's relations adopts. Where it goes well just the columns with an
offer have a type afterwards that had none before, each an override that is offered to it and each
once, and a second pass adopts nothing. It goes well where the foreign keys of joined columns lead
to declared columns and all overrides are texts. Where all offers to each column agree, the columns
have the same types after a pass over any other registry that joins the same columns. -/
theorem adoptForeignKeyTypes_adopts (r : Registry) (b : TypeBook) :
    (∀ b', adoptForeignKeyTypes r b = .ok b' → ∃ news,
      b' = { b with adopted := b.adopted ++ news } ∧ (news.map Prod.fst).Nodup ∧
      (∀ key, key ∈ news.map Prod.fst ↔
        (∃ override, r.Linked key override) ∧ b.adoptedType? key.1 key.2 = none) ∧
      (∀ entry ∈ news, r.Linked entry.1 entry.2) ∧ adoptForeignKeyTypes r b' = .ok b') ∧
    (r.KeysLead → (∀ t ∈ r.all, ∀ c ∈ t.columns, checkOverride c = .ok ()) →
      ∃ b', adoptForeignKeyTypes r b = .ok b') ∧
    ∀ (r' : Registry) (b₁ b₂ : TypeBook), r.SameTables r' → r.JoinsAs r' → r'.JoinsAs r →
      (∀ key override override', r.Linked key override → r.Linked key override' →
        override = override') →
      adoptForeignKeyTypes r b = .ok b₁ → adoptForeignKeyTypes r' b = .ok b₂ →
      ∀ table column, b₁.adoptedType? table column = b₂.adoptedType? table column := by
  refine ⟨fun b' h => ?_, fun hlead htexts => ?_, ?_⟩
  · obtain ⟨offers, hoffers, hchecked, rfl⟩ := adoptForeignKeyTypes_eq_ok.mp h
    obtain ⟨news, hnews, hnodup, hentries⟩ := TypeBook.foldl_adopt b offers
    have hlinked : ∀ entry ∈ news, r.Linked entry.1 entry.2 := fun entry hentry =>
      (mem_offers hoffers entry.1 entry.2).mp (hentries entry hentry).1
    -- A column with an offer has a type afterwards.
    have hadopted : ∀ key override, r.Linked key override →
        ((offers.foldl TypeBook.adopt b).adoptedType? key.1 key.2).isSome := by
      intro key override hlink
      have hmem : (key, override) ∈ offers.filterMap id :=
        List.mem_filterMap.mpr ⟨_, (mem_offers hoffers key override).mpr hlink, rfl⟩
      rw [TypeBook.adoptedType?_foldl, Option.isSome_or, Option.isSome_map, List.find?_isSome.mpr
        ⟨_, hmem, by simp⟩, Bool.or_true]
    refine ⟨news, hnews, hnodup, fun key => ⟨fun hkey => ?_, fun ⟨⟨override, hlink⟩, hnone⟩ => ?_⟩,
      hlinked, ?_⟩
    · obtain ⟨entry, hentry, rfl⟩ := List.mem_map.mp hkey
      exact ⟨⟨entry.2, hlinked entry hentry⟩, (hentries entry hentry).2⟩
    · have hsome := hadopted key override hlink
      rw [hnews, TypeBook.adoptedType?_append, hnone, Option.none_or, Option.isSome_map,
        List.find?_isSome] at hsome
      obtain ⟨entry, hentry, heq⟩ := hsome
      exact List.mem_map.mpr ⟨entry, hentry, of_decide_eq_true heq⟩
    · refine adoptForeignKeyTypes_eq_ok.mpr ⟨offers, hoffers, hchecked, ?_⟩
      exact (TypeBook.foldl_adopt_of_adopted fun entry hentry =>
        hadopted entry.1 entry.2 ((mem_offers hoffers entry.1 entry.2).mp hentry)).symm
  · obtain ⟨offers, hoffers⟩ := exists_offers hlead
    exact ⟨_, adoptForeignKeyTypes_eq_ok.mpr ⟨offers, hoffers, htexts, rfl⟩⟩
  · intro r' b₁ b₂ hsame hjoins hjoins' hagree h h' table column
    obtain ⟨offers, hoffers, -, rfl⟩ := adoptForeignKeyTypes_eq_ok.mp h
    obtain ⟨offers', hoffers', -, rfl⟩ := adoptForeignKeyTypes_eq_ok.mp h'
    have hmem : ∀ entry, entry ∈ offers.filterMap id ↔ r.Linked entry.1 entry.2 := fun entry => by
      rw [← mem_offers hoffers]
      simp
    have hmem' : ∀ entry, entry ∈ offers'.filterMap id ↔ r'.Linked entry.1 entry.2 :=
      fun entry => by
        rw [← mem_offers hoffers']
        simp
    rw [TypeBook.adoptedType?_foldl, TypeBook.adoptedType?_foldl]
    refine congrArg (fun found => (b.adoptedType? table column).or (Option.map Prod.snd found))
      (find?_eq_of_mem_iff (fun entry => ?_) fun entry hentry entry' hentry' hkey hkey' => ?_)
    · rw [hmem, hmem']
      exact ⟨fun hlink => hlink.of_joinsAs hsame hjoins,
        fun hlink => hlink.of_joinsAs hsame.symm hjoins'⟩
    · have heq : entry.1 = entry'.1 :=
        (of_decide_eq_true hkey).trans (of_decide_eq_true hkey').symm
      refine Prod.ext heq (hagree entry.1 _ _ ((hmem entry).mp hentry) ?_)
      rw [heq]
      exact (hmem entry').mp hentry'

/-! ## Accounts and their orders -/

namespace Ledger

/-- A column of texts with an override of its type. -/
def column (name : String) (primary : Bool) (override : Value) : Column :=
  { name := name, kind := .text, nullable := !primary, hasDefault := false
    declaration := { key := name, name := name, type := .text false, primary := primary,
                     nullable := !primary, typeOverride := override }
    typeOverride := override }

/-- The account of an order. -/
def toAccount : Relation := ⟨"account", false, "orders", "accounts", ["account_id"], ["id"]⟩

/-- The orders of an account. -/
def toOrders : Relation := ⟨"orders", true, "accounts", "orders", ["id"], ["account_id"]⟩

/-- Accounts, whose keys have a type of their own. -/
def accounts (relations : Members Relation) : Table :=
  { name := "accounts", columns := [column "id" true (.text "ULID")], relations := relations
    declaration :=
      { name := "accounts", columns := [(column "id" true (.text "ULID")).declaration] } }

/-- Orders, whose accounts are foreign keys. -/
def orders (reference : Reference) (relations : Members Relation) : Table :=
  { name := "orders", columns := [column "account_id" false .null], relations := relations
    declaration := { name := "orders", columns := [(column "account_id" false .null).declaration]
                     keys := [⟨[("account_id", reference)]⟩] } }

/-- Accounts and orders, where orders are joined to their accounts. -/
def registry (reference : Reference) : Registry :=
  ⟨[("accounts", accounts []), ("orders", orders reference [("account", toAccount)])]⟩

/-- The same tables the other way round, where accounts are joined to their orders. -/
def reversed (reference : Reference) : Registry :=
  ⟨[("orders", orders reference []), ("accounts", accounts [("orders", toOrders)])]⟩

/-- A reference to the key of accounts. -/
def toKey : Reference := .column ⟨"accounts", "id"⟩

theorem joins_registry {reference : Reference} {toMany : Bool} {near far : String × String} :
    (registry reference).Joins toMany near far ↔
      toMany = false ∧ near = ("orders", "account_id") ∧ far = ("accounts", "id") := by
  simp [Registry.Joins, registry, Registry.all, Members.values, accounts, orders, toAccount,
    Relation.pairs, eq_comm]

theorem joins_reversed {reference : Reference} {toMany : Bool} {near far : String × String} :
    (reversed reference).Joins toMany near far ↔
      toMany = true ∧ near = ("accounts", "id") ∧ far = ("orders", "account_id") := by
  simp [Registry.Joins, reversed, Registry.all, Members.values, accounts, orders, toOrders,
    Relation.pairs, eq_comm]

theorem refers_key {reference : Reference} : ¬ (registry reference).Refers ("accounts", "id")
    ("orders", "account_id") := by
  rw [refers_iff (x := (accounts [], column "id" true (.text "ULID")))
    (y := (orders reference [("account", toAccount)], column "account_id" false .null)) rfl rfl]
  simp [accounts, TableDeclaration.referencesOf, TableDeclaration.references]

theorem offers_account {reference : Reference} : (registry reference).Offers false
    ("orders", "account_id") ("accounts", "id") ("orders", "account_id") "ULID" :=
  ⟨_, _, (orders reference [("account", toAccount)], column "account_id" false .null),
    (accounts [], column "id" true (.text "ULID")), .near (.inr ⟨refers_key, rfl⟩), rfl, rfl, rfl,
    rfl, rfl⟩

/-- The account of an order would adopt the type of the key, but it refers to a table that nobody
has declared, so no type is adopted at all. -/
theorem not_adopted : (registry .missingTable).Linked ("orders", "account_id") "ULID" ∧
    adoptForeignKeyTypes (registry .missingTable) {} =
      Attempt.mishap (.misdeclared .referencedTableMissing) :=
  ⟨⟨false, _, _, joins_registry.mpr ⟨rfl, rfl, rfl⟩, offers_account⟩, rfl⟩

theorem linked_registry {reference : Reference} {key : String × String} {override : String}
    (h : (registry reference).Linked key override) : override = "ULID" := by
  obtain ⟨toMany, near, far, hjoined, own, other, x, y, hkey, hx, hy, -, -, hoverride⟩ := h
  obtain ⟨rfl, rfl, rfl⟩ := joins_registry.mp hjoined
  cases hkey with
  | near =>
    obtain rfl : (accounts [], column "id" true (.text "ULID")) = y := Option.some.inj hy
    exact (Option.some.inj hoverride).symm
  | far _ hback => exact (refers_key hback).elim

theorem oneWay_registry :
    (registry toKey).OneWay ("orders", "account_id") ("accounts", "id") := fun h =>
  refers_key (h.mp ((refers_iff (x := (orders toKey [("account", toAccount)],
    column "account_id" false .null)) (y := (accounts [], column "id" true (.text "ULID"))) rfl
    rfl).mpr (by simp [orders, toKey, TableDeclaration.referencesOf, TableDeclaration.references,
      column, accounts])))

theorem sameTables_reversed (reference : Reference) :
    (registry reference).SameTables (reversed reference) := by
  intro name
  by_cases haccounts : name = "accounts"
  · subst haccounts
    exact .some ⟨_, rfl⟩
  by_cases horders : name = "orders"
  · subst horders
    exact .some ⟨_, rfl⟩
  · have hnone : (registry reference).table? name = none := by
      simp [registry, Registry.table?, Members.get?, Ne.symm haccounts, Ne.symm horders]
    have hnone' : (reversed reference).table? name = none := by
      simp [reversed, Registry.table?, Members.get?, Ne.symm haccounts, Ne.symm horders]
    rw [hnone, hnone']
    exact .none

theorem keysLead_registry : (registry toKey).KeysLead := by
  intro toMany near far hjoined place hplace x hx reference hreference
  obtain ⟨rfl, rfl, rfl⟩ := joins_registry.mp hjoined
  simp only [List.mem_cons, List.not_mem_nil, or_false] at hplace
  rcases hplace with rfl | rfl
  · obtain rfl : (orders toKey [("account", toAccount)], column "account_id" false .null) = x :=
      Option.some.inj hx
    simp only [orders, TableDeclaration.referencesOf, TableDeclaration.references] at hreference
    exact ⟨⟨"accounts", "id"⟩, by simpa [column, toKey] using hreference⟩
  · obtain rfl : (accounts [], column "id" true (.text "ULID")) = x := Option.some.inj hx
    simp [accounts, TableDeclaration.referencesOf, TableDeclaration.references] at hreference

/-- The account of an order adopts the type of the key once, whichever table declares that they are
joined. -/
theorem account_adopted : ∃ b b', adoptForeignKeyTypes (registry toKey) {} = .ok b ∧
    b.adopted = [(("orders", "account_id"), "ULID")] ∧
    adoptForeignKeyTypes (registry toKey) b = .ok b ∧
    adoptForeignKeyTypes (reversed toKey) {} = .ok b' ∧
    ∀ table column, b.adoptedType? table column = b'.adoptedType? table column := by
  obtain ⟨hadopts, hgoes, hsame⟩ := adoptForeignKeyTypes_adopts (registry toKey) {}
  obtain ⟨b, hb⟩ := hgoes keysLead_registry (by
    simp [registry, Registry.all, Members.values, accounts, orders, column, checkOverride,
      Value.text?, Value.truthy])
  obtain ⟨-, -, -, -, -, hagain⟩ := hadopts b hb
  have hjoins : (registry toKey).JoinsAs (reversed toKey) := by
    intro toMany near far hjoined
    obtain ⟨rfl, rfl, rfl⟩ := joins_registry.mp hjoined
    exact .inr ⟨oneWay_registry, true, .inr (joins_reversed.mpr ⟨rfl, rfl, rfl⟩)⟩
  have hjoins' : (reversed toKey).JoinsAs (registry toKey) := by
    intro toMany near far hjoined
    obtain ⟨rfl, rfl, rfl⟩ := joins_reversed.mp hjoined
    refine .inr ⟨fun h => ?_, false, .inr (joins_registry.mpr ⟨rfl, rfl, rfl⟩)⟩
    rw [← (sameTables_reversed toKey).refers_iff, ← (sameTables_reversed toKey).refers_iff] at h
    exact oneWay_registry h.symm
  obtain ⟨b', hb'⟩ : ∃ b', adoptForeignKeyTypes (reversed toKey) {} = .ok b' := ⟨_, rfl⟩
  refine ⟨b, b', hb, ?_, hagain, hb', hsame (reversed toKey) b b' (sameTables_reversed toKey) hjoins
    hjoins' (fun key override override' h h' => ?_) hb hb'⟩
  · obtain rfl := Except.ok.inj (hb.symm.trans rfl)
    rfl
  · rw [linked_registry h, linked_registry h']

end Ledger

end RelGraph
