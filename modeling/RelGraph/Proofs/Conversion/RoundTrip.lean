import RelGraph.Graphql.Coercion
import RelGraph.Graphql.Execution
import RelGraph.Proofs.Conversion
import RelGraph.Proofs.Members
import RelGraph.Proofs.Outcome
import RelGraph.Proofs.Uuid
import RelGraph.Typing
/-!
What goes out for a column can be sent back. A stored value is shown, goes out as the type of its
column says, and comes back, as it stands or as that type reads it; what is bound then shows as
before. Some values do not go out, or not as they are: whole numbers that do not fit into 32 bits,
decimals that no double is near to, and distances from universal time of less than a second.
-/
namespace RelGraph.Conversion

open Graphql (Schema TypeExpr Scalar ScalarRule Choice)
open Sdl (TypeRef)

/-! ## What goes out and what comes back -/

/-- The values that a column of a built-in type has: distances from universal time are less than a
day, and only moments of zoned columns have any. -/
inductive IsNative : ColumnType → Value → Prop
  | null (t : ColumnType) : IsNative t .null
  | boolean (b : Bool) : IsNative .boolean (.bool b)
  | date (d : Date) : IsNative .date (.date d)
  | moment (zoned : Bool) (m : DateTime) (hzone : m.offset.isSome → zoned = true)
      (hsmall : Calendar.Offset.Small m.offset) : IsNative (.moment zoned) (.moment m)
  | time (t : Time) (hsmall : Calendar.Offset.Small t.offset) : IsNative .time (.time t)
  | integer (n : Int) : IsNative .integer (.int n)
  | smallInteger (n : Int) : IsNative .smallInteger (.int n)
  | bigInteger (n : Int) : IsNative .bigInteger (.int n)
  | float (x : Binary64) (hfinite : x.isFinite = true) : IsNative .float (.float x)
  | numeric (scale : Option Nat) (d : Decimal) : IsNative (.numeric scale) (.decimal d)
  | double (scale : Option Nat) (x : Binary64) (hfinite : x.isFinite = true) :
      IsNative (.numeric scale) (.float x)
  | text (long : Bool) (s : String) : IsNative (.text long) (.text s)
  | choice (label : String) (stored : List String) (s : String) (h : s ∈ stored) :
      IsNative (.choice label stored) (.text s)
  | binary (large : Bool) (data : List UInt8) : IsNative (.binary large) (.bytes data)
  | uuid (native : Bool) (u : Uuid) : IsNative (.uuid native) (.uuid u)
  | json (v : Value) (hlist : ∀ items, v ≠ .tuple items) : IsNative .json v

/-- The type that a reference names; a type given by its text is not looked into. -/
def typeOf? : TypeRef → Option TypeExpr
  | .named name => some (.named name)
  | .list item => (typeOf? item).map .list
  | .nonNull inner => (typeOf? inner).map .nonNull
  | .verbatim _ => none

/-- A schema has the type of a column: a scalar that goes by the rule of its name, or an enum of the
texts that the column stores. -/
structure Offers (s : Schema) (b : TypeBook) (table : String) (c : Column) (t : TypeExpr) :
    Prop where
  type : typeOf? (baseType b table c).1 = some t
  choice : ∀ first rest, c.kind = .choice (first :: rest) → ∃ values,
    s.type? t.name = some (.choice values) ∧ (Members.names values).Nodup ∧
      values.map (·.2.stored) = (first :: rest).map .text
  scalar : (∀ first rest, c.kind ≠ .choice (first :: rest)) →
    ∃ lenient, s.type? t.name = some (.scalar ⟨Scalar.ruleOf t.name, lenient⟩)

/-- A value goes out as another, wherever it is met, and no problem is reported. -/
def GoesOut (s : Schema) (t : TypeExpr) (y w : Value) : Prop :=
  ∀ owner field below path, Graphql.completeValue s owner field below t path y = pure w

/-- A value comes back as its type reads it, or as it stands; one of an enum only as it is read. -/
def ComesBack (s : Schema) (t : TypeExpr) (w v : Value) : Prop :=
  Graphql.Coercion.valueAs s (Graphql.Coercion.defaults s) t w = some v ∨
    (v = w ∧ ∀ values, s.type? t.name ≠ some (.choice values))

/-- What a column binds for a value shows as another. -/
def BindsAs (c : Column) (v y : Value) : Prop := ∃ z, readValue c v = .ok z ∧ showValue c z = .ok y

/-- What goes out for a stored value comes back, and what is bound for it shows as before. -/
def RoundTrips (s : Schema) (t : TypeExpr) (c : Column) (x : Value) : Prop :=
  ∃ y w, showValue c x = .ok y ∧ GoesOut s t y w ∧ (∃ v, ComesBack s t w v) ∧
    ∀ v, ComesBack s t w v → BindsAs c v y

/-- Nothing, or at least a second. -/
def IsKept (offset : Option Offset) : Prop := ∀ o ∈ offset, o = 0 ∨ 1000000 ≤ o.natAbs

/-- A value of a column goes out, and as it is. -/
def IsPrintable (k : ColumnKind) (x : Value) : Prop :=
  match k, x with
  | .whole, .int n => Graphql.fitsWord n = true
  | .fraction, .decimal d => d.toBinary64.isFinite = true
  | .moment, .moment m => IsKept m.offset
  | .time, .time t => IsKept t.offset
  | _, _ => True

/-! ## Leaves -/

section Leaves

variable {s : Schema} {c : Column} {name : String} {sc : Scalar} {x y w v : Value}

theorem completeValue_scalar (hs : s.type? name = some (.scalar sc)) (hy : y.isNull = false)
    (owner field : String) (below) (path) :
    Graphql.completeValue s owner field below (.named name) path y =
      Graphql.attempt path (sc.write y) := by
  simp [Graphql.completeValue, hs, hy, Graphql.writeLeaf]

theorem goesOut_scalar (hs : s.type? name = some (.scalar sc)) (hy : y.isNull = false)
    (hwrite : sc.write y = .ok w) : GoesOut s (.named name) y w := by
  intro owner field below path
  rw [completeValue_scalar hs hy, hwrite]
  rfl

theorem write_of_goesOut (hs : s.type? name = some (.scalar sc)) (hy : y.isNull = false)
    (h : GoesOut s (.named name) y w) : sc.write y = .ok w := by
  have hout := h "" "" (fun _ _ v => pure v) []
  rw [completeValue_scalar hs hy] at hout
  have hfirst := congrArg (fun c : Graphql.Completion Value => (c.run.run []).1) hout
  cases hwrite : sc.write y with
  | ok v =>
    rw [hwrite] at hfirst
    exact congrArg Except.ok (Except.ok.inj hfirst)
  | error f =>
    rw [hwrite] at hfirst
    cases hfirst

theorem valueAs_scalar (hs : s.type? name = some (.scalar sc)) (hw : w.isNull = false)
    (htuple : ∀ items, w ≠ .tuple items) (d : Graphql.Defaults) :
    Graphql.Coercion.valueAs s d (.named name) w = (sc.readValue w).toOption := by
  cases w with
  | null => cases hw
  | tuple items => exact absurd rfl (htuple items)
  | list items =>
    simp [Graphql.Coercion.valueAs, Graphql.Coercion.valueListAs, Graphql.Coercion.valueLeafAs, hs]
  | object members =>
    simp [Graphql.Coercion.valueAs, Graphql.Coercion.valueObjectAs,
      Graphql.Coercion.valueLeafAs, hs]
  | _ => simp [Graphql.Coercion.valueAs, Graphql.Coercion.valueLeafAs, hs]

/-- A scalar that takes in what it gave out by its rule brings it back, as it stands at worst. -/
theorem comesBack_scalar (hs : s.type? name = some (.scalar sc)) (hw : w.isNull = false)
    (htuple : ∀ items, w ≠ .tuple items) (hread : Scalar.readByRule sc.rule w = .ok v) :
    (∃ u, ComesBack s (.named name) w u) ∧
      ∀ u, ComesBack s (.named name) w u → u = w ∨ u = v := by
  have hvalue := valueAs_scalar hs hw htuple (Graphql.Coercion.defaults s)
  have hcases : sc.readValue w = .ok w ∨ sc.readValue w = .ok v := by
    unfold Scalar.readValue
    split
    · split
      · exact .inl rfl
      · exact .inr hread
    · exact .inr hread
  rcases hcases with heq | heq
  all_goals
    rw [heq] at hvalue
    refine ⟨⟨_, .inl hvalue⟩, ?_⟩
    rintro u (hu | ⟨rfl, -⟩)
    · rw [hvalue] at hu
      simp_all [Except.toOption]
    · exact .inl rfl

/-- A value of a scalar's column goes round, where its form goes round in both ways. -/
theorem roundTrips_scalar (hs : s.type? name = some (.scalar sc)) (hshow : showValue c x = .ok y)
    (hy : y.isNull = false) (hwrite : sc.write y = .ok w) (hw : w.isNull = false)
    (htuple : ∀ items, w ≠ .tuple items) (hread : Scalar.readByRule sc.rule w = .ok v)
    (hstands : BindsAs c w y) (hparsed : BindsAs c v y) : RoundTrips s (.named name) c x := by
  obtain ⟨hsome, hall⟩ := comesBack_scalar hs hw htuple hread
  refine ⟨y, w, hshow, goesOut_scalar hs hy hwrite, hsome, fun u hu => ?_⟩
  rcases hall u hu with rfl | rfl
  exacts [hstands, hparsed]

end Leaves

/-! ## The types of columns -/

section Types

variable {s : Schema} {b : TypeBook} {table : String} {c : Column} {t : TypeExpr}

theorem Offers.plain (h : Offers s b table c t) :
    (givenText? c.typeOverride).or (b.adoptedType? table c.name) = none := by
  have htype := h.type
  rw [baseType] at htype
  split at htype
  · cases htype
  · assumption

theorem Offers.named (h : Offers s b table c t) {name : String} {rule : ScalarRule}
    (hname : scalarOf? c.kind = some (name, rule)) :
    t = .named name ∧ ∃ lenient, s.type? name = some (.scalar ⟨rule, lenient⟩) := by
  have htype := h.type
  rw [baseType_of_scalarOf? h.plain hname, typeOf?, Option.some.injEq] at htype
  subst t
  refine ⟨rfl, ?_⟩
  rw [← ruleOf_scalarOf? hname]
  exact h.scalar fun first rest hkind => by simp [hkind, scalarOf?] at hname

theorem Offers.numbers (h : Offers s b table c t) (hkind : c.kind = .buffer) :
    t = .list (.nonNull (.named "Int")) ∧
      ∃ lenient, s.type? "Int" = some (.scalar ⟨.int, lenient⟩) := by
  have htype := h.type
  have hscalar := h.scalar (by simp [hkind])
  rw [baseType, h.plain] at htype
  simp only [hkind, listOf, typeOf?, Option.map_some, Option.some.injEq] at htype
  subst t
  exact ⟨rfl, hscalar⟩

theorem Offers.enum (h : Offers s b table c t) {first : String} {rest : List String}
    (hkind : c.kind = .choice (first :: rest)) : ∃ name values, t = .named name ∧
      s.type? name = some (.choice values) ∧ (Members.names values).Nodup ∧
        values.map (·.2.stored) = (first :: rest).map .text := by
  have htype := h.type
  obtain ⟨values, hvalues⟩ := h.choice first rest hkind
  rw [baseType, h.plain] at htype
  simp only [hkind, typeOf?, Option.some.injEq] at htype
  subst t
  exact ⟨_, values, rfl, hvalues⟩

/-- A value of a column that has a scalar goes round, where its form goes round in both ways. -/
theorem Offers.roundTrips (h : Offers s b table c t) {name : String} {rule : ScalarRule}
    (hname : scalarOf? c.kind = some (name, rule)) {x y w v : Value} (hshow : showValue c x = .ok y)
    (hy : y.isNull = false) (hwrite : ∀ lenient, Scalar.write ⟨rule, lenient⟩ y = .ok w)
    (hw : w.isNull = false) (htuple : ∀ items, w ≠ .tuple items)
    (hread : Scalar.readByRule rule w = .ok v) (hstands : BindsAs c w y)
    (hparsed : BindsAs c v y) : RoundTrips s t c x := by
  obtain ⟨rfl, lenient, hs⟩ := h.named hname
  exact roundTrips_scalar hs hshow hy (hwrite lenient) hw htuple hread hstands hparsed

/-- A value that its column's scalar and its column leave as it is goes round. -/
theorem Offers.roundTrips_plain (h : Offers s b table c t) {name : String} {rule : ScalarRule}
    (hname : scalarOf? c.kind = some (name, rule)) {x y : Value} (hx : showValue c x = .ok y)
    (hy : showValue c y = .ok y) (hnull : y.isNull = false) (htuple : ∀ items, y ≠ .tuple items)
    (hwrite : ∀ lenient, Scalar.write ⟨rule, lenient⟩ y = .ok y)
    (hread : Scalar.readByRule rule y = .ok y) (hbind : readValue c y = .ok y) :
    RoundTrips s t c x :=
  h.roundTrips hname hx hnull hwrite hnull htuple hread ⟨y, hbind, hy⟩ ⟨y, hbind, hy⟩

/-- A value whose scalar writes a text goes round, if its column reads that text as its scalar
does. -/
theorem Offers.roundTrips_spelled (h : Offers s b table c t) {name : String} {rule : ScalarRule}
    (hname : scalarOf? c.kind = some (name, rule)) {x : Value} {written : String}
    (hshow : showValue c x = .ok x) (hnull : x.isNull = false)
    (hwrite : ∀ lenient, Scalar.write ⟨rule, lenient⟩ x = .ok (.text written))
    (hread : Scalar.readByRule rule (.text written) = .ok x) (hbuffer : c.kind ≠ .buffer)
    (htext : readText c written = .ok x) (hbind : readValue c x = .ok x) : RoundTrips s t c x :=
  h.roundTrips hname hshow hnull hwrite rfl (by simp) hread
    ⟨x, by rw [readValue, if_neg hbuffer, htext], hshow⟩ ⟨x, hbind, hshow⟩

/-- Whether a column of a kind shows a value as it is. -/
def showsAsIs : ColumnKind → Value → Bool
  | .boolean, .bool _ | .bigInteger, .int _ | .whole, .int _ | .fraction, .float _
  | .text, .text _ | .choice _, .text _ | .date, .date _ | .moment, .moment _ | .time, .time _
  | .json, _ => true
  | _, v => v.isNull

theorem showValue_self {x : Value} (h : showsAsIs c.kind x = true) : showValue c x = .ok x := by
  rw [showValue.eq_def]
  cases hkind : c.kind <;> rw [hkind] at h <;> cases x <;> first | rfl | cases h

theorem roundTrips_boolean (h : Offers s b table c t) (hkind : c.kind = .boolean) (x : Bool) :
    RoundTrips s t c (.bool x) := by
  have hname : scalarOf? c.kind = some ("Boolean", .boolean) := by rw [hkind]; rfl
  have hshow : showValue c (.bool x) = .ok (.bool x) := showValue_self (by rw [hkind]; rfl)
  exact h.roundTrips_plain hname hshow hshow rfl (by simp) (fun _ => rfl) rfl
    (by simp [readValue, hkind])

theorem roundTrips_bigInteger (h : Offers s b table c t) (hkind : c.kind = .bigInteger) (n : Int) :
    RoundTrips s t c (.int n) := by
  have hname : scalarOf? c.kind = some ("BigInt", .bigInteger) := by rw [hkind]; rfl
  have hshow : showValue c (.int n) = .ok (.int n) := showValue_self (by rw [hkind]; rfl)
  exact h.roundTrips_plain hname hshow hshow rfl (by simp) (fun _ => rfl) rfl
    (by simp [readValue, hkind])

theorem roundTrips_text (h : Offers s b table c t) (hkind : c.kind = .text) (x : String) :
    RoundTrips s t c (.text x) := by
  have hname : scalarOf? c.kind = some ("String", .text) := by rw [hkind]; rfl
  have hshow : showValue c (.text x) = .ok (.text x) := showValue_self (by rw [hkind]; rfl)
  exact h.roundTrips_plain hname hshow hshow rfl (by simp) (fun _ => rfl) rfl
    (by simp [readValue, readText, hkind])

theorem roundTrips_whole (h : Offers s b table c t) (hkind : c.kind = .whole) {n : Int}
    (hn : Graphql.fitsWord n = true) : RoundTrips s t c (.int n) := by
  have hname : scalarOf? c.kind = some ("Int", .int) := by rw [hkind]; rfl
  have hshow : showValue c (.int n) = .ok (.int n) := showValue_self (by rw [hkind]; rfl)
  have hword : ∀ shown, Scalar.word shown n = .ok (.int n) := fun shown => by
    rw [Scalar.word, if_pos hn]
  exact h.roundTrips_plain hname hshow hshow rfl (by simp) (fun _ => hword _) (hword _)
    (by simp [readValue, hkind])

theorem roundTrips_fraction (h : Offers s b table c t) (hkind : c.kind = .fraction) {x : Value}
    {y : Binary64} (hx : showValue c x = .ok (.float y)) (hfinite : y.isFinite = true) :
    RoundTrips s t c x := by
  have hname : scalarOf? c.kind = some ("Float", .float) := by rw [hkind]; rfl
  have hshow : showValue c (.float y) = .ok (.float y) := showValue_self (by rw [hkind]; rfl)
  exact h.roundTrips_plain hname hx hshow rfl (by simp)
    (fun _ => by simp [Scalar.write, Scalar.writeFloat, floatOf, hfinite])
    (by simp [Scalar.readByRule, Scalar.isFiniteNumber, floatOf, hfinite])
    (by simp [readValue, hkind])

theorem floatOf_decimal {d : Decimal} (hfinite : d.toBinary64.isFinite = true) :
    floatOf (.decimal d) = .ok d.toBinary64 := by
  have hquiet : d.isSignaling = false := by
    cases d with
    | notANumber negative signaling payload => cases hfinite
    | _ => rfl
  rw [floatOf, hquiet]
  rfl

theorem showValue_decimal (hkind : c.kind = .fraction) {d : Decimal}
    (hfinite : d.toBinary64.isFinite = true) :
    showValue c (.decimal d) = .ok (.float d.toBinary64) := by
  rw [showValue.eq_def, hkind]
  show Value.float <$> floatOf (.decimal d) = _
  rw [floatOf_decimal hfinite]
  rfl

theorem roundTrips_json (h : Offers s b table c t) (hkind : c.kind = .json) {x : Value}
    (hnull : x.isNull = false) (htuple : ∀ items, x ≠ .tuple items) : RoundTrips s t c x := by
  have hname : scalarOf? c.kind = some ("JSON", .anything) := by rw [hkind]; rfl
  have hshow : showValue c x = .ok x := showValue_self (by rw [hkind]; rfl)
  refine h.roundTrips_plain hname hshow hshow hnull htuple (fun _ => rfl) rfl ?_
  cases x <;> simp [readValue, readList, readText, hkind, ColumnKind.takesLists] at htuple ⊢

theorem roundTrips_date (h : Offers s b table c t) (hkind : c.kind = .date) (d : Date) :
    RoundTrips s t c (.date d) := by
  have hname : scalarOf? c.kind = some ("Date", .date) := by rw [hkind]; rfl
  have hshow : showValue c (.date d) = .ok (.date d) := showValue_self (by rw [hkind]; rfl)
  have hread := dateOfText_dateText d
  exact h.roundTrips_spelled hname hshow rfl (fun _ => rfl)
    (by simp [Scalar.readByRule, Scalar.readSpelled, hread]) (by simp [hkind])
    (by simp [readText, hkind, leadingDate_of_dateOfText hread]) (by simp [readValue, hkind])

theorem readBack_eq_self (o : Int) :
    Calendar.readBack o = o ↔ o = 0 ∨ 1000000 ≤ o.natAbs := by
  rw [Calendar.readBack]
  split
  · constructor
    · exact fun h => .inl h.symm
    · rintro (h | h)
      · exact h.symm
      · omega
  · exact iff_of_true rfl (.inr (by omega))

theorem map_readBack_eq_self {offset : Option Offset} :
    offset.map Calendar.readBack = offset ↔ IsKept offset := by
  cases offset with
  | none => simp [IsKept]
  | some o => simpa [IsKept] using readBack_eq_self o

theorem columnMoment_momentText {m : DateTime} (hsmall : Calendar.Offset.Small m.offset)
    (hzone : m.offset.isSome → c.declaration.type.isZoned = true) :
    columnMoment c (Calendar.momentText m) =
      .ok ⟨m.date, m.clock, m.offset.map Calendar.readBack⟩ := by
  rw [columnMoment, momentOfText_momentText hsmall]
  cases hoffset : m.offset with
  | none =>
    show Except.ok _ = _
    split <;> rfl
  | some o =>
    show Except.ok _ = _
    rw [if_pos (hzone (by rw [hoffset]; rfl))]

theorem roundTrips_moment (h : Offers s b table c t) (hkind : c.kind = .moment) {m : DateTime}
    (hsmall : Calendar.Offset.Small m.offset)
    (hzone : m.offset.isSome → c.declaration.type.isZoned = true) (hkept : IsKept m.offset) :
    RoundTrips s t c (.moment m) := by
  have hname : scalarOf? c.kind = some ("DateTime", .moment) := by rw [hkind]; rfl
  have hread := momentOfText_momentText hsmall
  have hcolumn := columnMoment_momentText hsmall hzone
  rw [map_readBack_eq_self.mpr hkept] at hread hcolumn
  exact h.roundTrips_spelled hname (showValue_self (by rw [hkind]; rfl)) rfl (fun _ => rfl)
    (by simp [Scalar.readByRule, Scalar.readSpelled, hread]) (by simp [hkind])
    (by simp [readText, hkind, hcolumn]) (by simp [readValue, hkind])

theorem roundTrips_time (h : Offers s b table c t) (hkind : c.kind = .time) {x : Time}
    (hsmall : Calendar.Offset.Small x.offset) (hkept : IsKept x.offset) :
    RoundTrips s t c (.time x) := by
  have hname : scalarOf? c.kind = some ("Time", .time) := by rw [hkind]; rfl
  have hread := timeOfText_timeText hsmall
  rw [map_readBack_eq_self.mpr hkept] at hread
  exact h.roundTrips_spelled hname (showValue_self (by rw [hkind]; rfl)) rfl (fun _ => rfl)
    (by simp [Scalar.readByRule, Scalar.readSpelled, hread]) (by simp [hkind])
    (by simp [readText, hkind, hread]) (by simp [readValue, hkind])

theorem roundTrips_uuid (h : Offers s b table c t) (hkind : c.kind = .identifier) (u : Uuid) :
    RoundTrips s t c (.uuid u) := by
  have hname : scalarOf? c.kind = some ("String", .text) := by rw [hkind]; rfl
  have hshow : showValue c (.uuid u) = .ok (.text u.text) := by
    rw [showValue.eq_def, hkind]
    rfl
  have hbinds : BindsAs c (.text u.text) (.text u.text) :=
    ⟨.uuid u, by simp [readValue, readText, uuidOfText, hkind, Uuid.read_text], hshow⟩
  exact h.roundTrips hname hshow rfl (fun _ => rfl) rfl (by simp) rfl hbinds hbinds

/-! ## Null, enums and bytes -/

theorem Offers.isNonNull (h : Offers s b table c t) : t.isNonNull = false := by
  have htype := h.type
  rw [baseType, h.plain] at htype
  cases hkind : c.kind with
  | choice stored =>
    rw [hkind] at htype
    cases stored <;> simp_all [typeOf?] <;> subst t <;> rfl
  | custom name =>
    rw [hkind] at htype
    cases name <;> simp_all [typeOf?] <;> subst t <;> rfl
  | _ =>
    rw [hkind] at htype
    simp only [typeOf?, listOf, Option.map_some, Option.some.injEq] at htype
    subst t
    rfl

theorem roundTrips_null (h : Offers s b table c t) : RoundTrips s t c .null := by
  have hshow : showValue c .null = .ok .null := by
    rw [showValue.eq_def]
    rfl
  have hbinds : BindsAs c .null .null := ⟨.null, by rw [readValue], hshow⟩
  have hback : Graphql.Coercion.valueAs s (Graphql.Coercion.defaults s) t .null = some .null := by
    rw [Graphql.Coercion.valueAs, h.isNonNull]
    rfl
  refine ⟨.null, .null, hshow, ?_, ⟨_, .inl hback⟩, ?_⟩
  · intro owner field below path
    have ht := h.isNonNull
    cases t with
    | named name => simp [Graphql.completeValue, Value.isNull]
    | list item => simp [Graphql.completeValue]
    | nonNull inner => cases ht
  · rintro v (hv | ⟨rfl, -⟩)
    · rw [hback] at hv
      cases hv
      exact hbinds
    · exact hbinds

/-- A text of a choice has a name. -/
theorem exists_choiceName {values : Members Choice} {stored : List String} {x : String}
    (hvalues : values.map (·.2.stored) = stored.map .text) (hx : x ∈ stored) :
    ∃ choice ∈ values, Graphql.choiceName? values (.text x) = some choice.1 ∧
      choice.2.stored = .text x := by
  have htexts : ∀ kv ∈ values, ∃ y, kv.2.stored = .text y := by
    intro kv hkv
    have hmem : kv.2.stored ∈ stored.map Value.text := by
      rw [← hvalues]
      exact List.mem_map_of_mem (f := (·.2.stored)) hkv
    obtain ⟨y, -, hy⟩ := List.mem_map.mp hmem
    exact ⟨y, hy.symm⟩
  have hsame : ∀ kv ∈ values, Value.same (if Graphql.isKey (.text x) && kv.2.stored.isNull then
      .text kv.1 else kv.2.stored) (.text x) = true ↔ kv.2.stored = .text x := by
    intro kv hkv
    obtain ⟨y, hy⟩ := htexts kv hkv
    simp [hy, Value.isNull, Value.same, Value.sameBy, Value.sameScalar, Value.ratio?]
  rw [Graphql.choiceName?]
  cases hfound : values.find? fun kv => Value.same (if Graphql.isKey (.text x) &&
      kv.2.stored.isNull then .text kv.1 else kv.2.stored) (.text x) with
  | none =>
    have hmem : Value.text x ∈ values.map (·.2.stored) := by
      rw [hvalues]
      exact List.mem_map_of_mem hx
    obtain ⟨kv, hkv, heq⟩ := List.mem_map.mp hmem
    exact absurd ((hsame kv hkv).mpr heq) (List.find?_eq_none.mp hfound kv hkv)
  | some choice =>
    have hmem := List.mem_of_find?_eq_some hfound
    have hpasses := List.find?_some hfound
    exact ⟨choice, hmem, rfl, (hsame choice hmem).mp hpasses⟩

theorem roundTrips_choice (h : Offers s b table c t) {stored : List String}
    (hkind : c.kind = .choice stored) {x : String} (hx : x ∈ stored) :
    RoundTrips s t c (.text x) := by
  obtain ⟨first, rest, rfl⟩ := List.exists_cons_of_ne_nil (List.ne_nil_of_mem hx)
  obtain ⟨name, values, rfl, hs, hnames, hvalues⟩ := h.enum hkind
  obtain ⟨choice, hmem, hname, hstored⟩ := exists_choiceName hvalues hx
  have hshow : showValue c (.text x) = .ok (.text x) := showValue_self (by rw [hkind]; rfl)
  have hbinds : BindsAs c (.text x) (.text x) :=
    ⟨.text x, by simp [readValue, readText, hkind], hshow⟩
  have hback : Graphql.Coercion.valueAs s (Graphql.Coercion.defaults s) (.named name)
      (.text choice.1) = some (.text x) := by
    simp [Graphql.Coercion.valueAs, Graphql.Coercion.valueLeafAs, hs,
      Members.get?_of_mem hnames hmem, hstored]
  refine ⟨.text x, .text choice.1, hshow, ?_, ⟨_, .inl hback⟩, ?_⟩
  · intro owner field below path
    simp [Graphql.completeValue, Value.isNull, hs, Graphql.writeLeaf, hname]
  · rintro v (hv | ⟨-, hnone⟩)
    · rw [hback] at hv
      cases hv
      exact hbinds
    · exact absurd hs (hnone values)

theorem completeItems_eq {item : TypeExpr} {path : List Graphql.PathStep}
    {complete : List Graphql.PathStep → Value → Graphql.Completion Value} {items : List Value}
    (h : ∀ v ∈ items, ∀ path, complete path v = pure v) (n : Nat) :
    Graphql.completeItems item path complete n items = pure items := by
  induction items generalizing n with
  | nil => rfl
  | cons v rest ih =>
    rw [Graphql.completeItems, h v (by simp), ih (fun w hw => h w (by simp [hw]))]
    rfl

theorem valueItemsAs_eq {t : TypeExpr} {d : Graphql.Defaults} {items : List Value}
    (h : ∀ v ∈ items, Graphql.Coercion.valueAs s d t v = some v) :
    Graphql.Coercion.valueItemsAs s d t items = some items := by
  induction items with
  | nil => rw [Graphql.Coercion.valueItemsAs]
  | cons v rest ih =>
    rw [Graphql.Coercion.valueItemsAs, h v (by simp), ih (fun w hw => h w (by simp [hw]))]
    rfl

theorem fitsWord_iff {n : Int} :
    Graphql.fitsWord n = true ↔ -2147483648 ≤ n ∧ n < 2147483648 := by
  have hbound : Int.pow 2 31 = 2147483648 := rfl
  rw [Graphql.fitsWord, hbound, Bool.and_eq_true, decide_eq_true_iff, decide_eq_true_iff]

theorem mapM_byteOf (data : List UInt8) :
    (data.map fun x => Value.int x.toNat).mapM byteOf = .ok data := by
  induction data with
  | nil => rfl
  | cons x data ih =>
    have hx : byteOf (.int x.toNat) = .ok x := by
      have := x.toNat_lt
      simp [byteOf]
      omega
    rw [List.map_cons, List.mapM_cons, hx, ih]
    rfl

theorem readValue_byteNumbers (hkind : c.kind = .buffer) (data : List UInt8) :
    readValue c (byteNumbers data) = .ok (.bytes data) := by
  have hfirst : startsWithList (data.map fun x => .int x.toNat) = false := by
    cases data <;> rfl
  rw [byteNumbers, readValue, readList, if_pos hkind, hfirst, if_neg Bool.false_ne_true]
  show Value.bytes <$> List.mapM byteOf _ = _
  rw [mapM_byteOf]
  rfl

theorem word_byte (x : UInt8) (shown : String) :
    Scalar.word shown x.toNat = .ok (.int x.toNat) := by
  have := x.toNat_lt
  rw [Scalar.word, if_pos (fitsWord_iff.mpr (by omega))]

section Bytes

variable {name : String} {lenient : Bool}

theorem goesOut_byteNumbers (hs : s.type? name = some (.scalar ⟨.int, lenient⟩))
    (data : List UInt8) :
    GoesOut s (.list (.nonNull (.named name))) (byteNumbers data) (byteNumbers data) := by
  intro owner field below path
  have hitem : ∀ v ∈ data.map (fun x => Value.int x.toNat), ∀ path,
      Graphql.completeValue s owner field below (.nonNull (.named name)) path v = pure v := by
    intro v hv path
    obtain ⟨x, -, rfl⟩ := List.mem_map.mp hv
    have hwrite : Scalar.write ⟨.int, lenient⟩ (.int x.toNat) = .ok (.int x.toNat) := by
      simp only [Scalar.write, Scalar.writeWord, word_byte]
    rw [Graphql.completeValue, completeValue_scalar hs rfl, hwrite]
    rfl
  rw [byteNumbers, Graphql.completeValue]
  · simp only [Value.items?]
    rw [completeItems_eq hitem]
    rfl
  · simp

theorem valueAs_nonNull (d : Graphql.Defaults) (t : TypeExpr) (n : Int) :
    Graphql.Coercion.valueAs s d (.nonNull t) (.int n) =
      Graphql.Coercion.valueAs s d t (.int n) := by
  simp [Graphql.Coercion.valueAs, Graphql.Coercion.valueLeafAs]

theorem valueAs_byteNumbers (hs : s.type? name = some (.scalar ⟨.int, lenient⟩))
    (data : List UInt8) (d : Graphql.Defaults) :
    Graphql.Coercion.valueAs s d (.list (.nonNull (.named name))) (byteNumbers data) =
      some (byteNumbers data) := by
  rw [byteNumbers, Graphql.Coercion.valueAs, Graphql.Coercion.valueListAs, valueItemsAs_eq]
  · rfl
  · intro v hv
    obtain ⟨x, -, rfl⟩ := List.mem_map.mp hv
    have hread : Scalar.readValue ⟨.int, lenient⟩ (.int x.toNat) = .ok (.int x.toNat) := by
      simp only [Scalar.readValue, Scalar.readByRule, Scalar.whole?, word_byte]
    rw [valueAs_nonNull, valueAs_scalar hs rfl (by simp), hread]
    rfl

end Bytes

theorem roundTrips_buffer (h : Offers s b table c t) (hkind : c.kind = .buffer)
    (data : List UInt8) : RoundTrips s t c (.bytes data) := by
  obtain ⟨rfl, lenient, hs⟩ := h.numbers hkind
  have hshow : showValue c (.bytes data) = .ok (byteNumbers data) := by
    rw [showValue.eq_def, hkind]
    rfl
  have hbinds : BindsAs c (byteNumbers data) (byteNumbers data) :=
    ⟨.bytes data, readValue_byteNumbers hkind data, hshow⟩
  have hback := valueAs_byteNumbers hs data (Graphql.Coercion.defaults s)
  refine ⟨_, _, hshow, goesOut_byteNumbers hs data, ⟨_, .inl hback⟩, ?_⟩
  rintro v (hv | ⟨rfl, -⟩)
  · rw [hback] at hv
    cases hv
    exact hbinds
  · exact hbinds

/-! ## All columns -/

theorem roundTrips_of_printable (h : Offers s b table c t)
    (hkind : c.kind = c.declaration.type.kind) {x : Value} (hx : IsNative c.declaration.type x)
    (hprint : IsPrintable c.kind x) : RoundTrips s t c x := by
  generalize htype : c.declaration.type = k at hx hkind
  cases hx with
  | null => exact roundTrips_null h
  | boolean x => exact roundTrips_boolean h hkind x
  | date d => exact roundTrips_date h hkind d
  | moment zoned m hzone hsmall =>
    rw [hkind] at hprint
    exact roundTrips_moment h hkind hsmall (fun hsome => by rw [htype]; exact hzone hsome) hprint
  | time x hsmall =>
    rw [hkind] at hprint
    exact roundTrips_time h hkind hsmall hprint
  | integer n | smallInteger n =>
    rw [hkind] at hprint
    exact roundTrips_whole h hkind hprint
  | bigInteger n => exact roundTrips_bigInteger h hkind n
  | float x hfinite | double scale x hfinite =>
    refine roundTrips_fraction h hkind ?_ hfinite
    rw [showValue.eq_def, hkind]
    rfl
  | numeric scale d =>
    rw [hkind] at hprint
    exact roundTrips_fraction h hkind (showValue_decimal hkind hprint) hprint
  | text long x => exact roundTrips_text h hkind x
  | choice label stored x hmem => exact roundTrips_choice h hkind hmem
  | binary large data => exact roundTrips_buffer h hkind data
  | uuid native u => exact roundTrips_uuid h hkind u
  | json x htuple =>
    cases hnull : x.isNull with
    | false => exact roundTrips_json h hkind hnull htuple
    | true =>
      cases x <;> first | exact roundTrips_null h | cases hnull

/-- What a column's scalar gives out for a value that goes round. -/
theorem Offers.write_of_roundTrips (h : Offers s b table c t) {name : String} {rule : ScalarRule}
    (hname : scalarOf? c.kind = some (name, rule)) {x y : Value} (hshow : showValue c x = .ok y)
    (hnull : y.isNull = false) (hround : RoundTrips s t c x) :
    ∃ lenient w, Scalar.write ⟨rule, lenient⟩ y = .ok w ∧ BindsAs c w y := by
  obtain ⟨rfl, lenient, hs⟩ := h.named hname
  obtain ⟨y', w, hshow', hout, -, hback⟩ := hround
  obtain rfl : y = y' := by
    rw [hshow] at hshow'
    exact Except.ok.inj hshow'
  refine ⟨lenient, w, write_of_goesOut hs hnull hout, hback w (.inr ⟨rfl, ?_⟩)⟩
  intro values hchoice
  rw [TypeExpr.name, hs] at hchoice
  cases hchoice

theorem fitsWord_of_roundTrips (h : Offers s b table c t) (hkind : c.kind = .whole) {n : Int}
    (hround : RoundTrips s t c (.int n)) : Graphql.fitsWord n = true := by
  have hname : scalarOf? c.kind = some ("Int", .int) := by rw [hkind]; rfl
  have hshow : showValue c (.int n) = .ok (.int n) := showValue_self (by rw [hkind]; rfl)
  obtain ⟨lenient, w, hwrite, -⟩ := h.write_of_roundTrips hname hshow rfl hround
  simp only [Scalar.write, Scalar.writeWord, Scalar.word] at hwrite
  split at hwrite
  · assumption
  · cases hwrite

theorem isFinite_of_roundTrips (h : Offers s b table c t) (hkind : c.kind = .fraction)
    {d : Decimal} (hround : RoundTrips s t c (.decimal d)) : d.toBinary64.isFinite = true := by
  have hname : scalarOf? c.kind = some ("Float", .float) := by rw [hkind]; rfl
  have hshow : showValue c (.decimal d) = Value.float <$> floatOf (.decimal d) := by
    rw [showValue.eq_def, hkind]
    rfl
  cases hquiet : d.isSignaling with
  | true =>
    obtain ⟨y, w, hy, -⟩ := hround
    rw [hshow, floatOf, hquiet] at hy
    cases hy
  | false =>
    rw [floatOf, hquiet] at hshow
    obtain ⟨lenient, w, hwrite, -⟩ := h.write_of_roundTrips hname hshow rfl hround
    by_contra hfinite
    simp [Scalar.write, Scalar.writeFloat, floatOf, hfinite] at hwrite
    cases hwrite

theorem isKept_of_roundTrips_moment (h : Offers s b table c t) (hkind : c.kind = .moment)
    {m : DateTime} (hsmall : Calendar.Offset.Small m.offset)
    (hzone : m.offset.isSome → c.declaration.type.isZoned = true)
    (hround : RoundTrips s t c (.moment m)) : IsKept m.offset := by
  have hname : scalarOf? c.kind = some ("DateTime", .moment) := by rw [hkind]; rfl
  obtain ⟨lenient, w, hwrite, z, hread, hshow⟩ :=
    h.write_of_roundTrips hname (showValue_self (by rw [hkind]; rfl)) rfl hround
  cases hwrite
  rw [readValue, if_neg (by simp [hkind]), readText.eq_def, hkind] at hread
  simp only [columnMoment_momentText hsmall hzone] at hread
  obtain rfl := Except.ok.inj hread
  rw [showValue_self (by rw [hkind]; rfl)] at hshow
  obtain ⟨date, clock, offset⟩ := m
  simp only [Except.ok.injEq, Value.moment.injEq, DateTime.mk.injEq, true_and] at hshow
  exact map_readBack_eq_self.mp hshow

theorem isKept_of_roundTrips_time (h : Offers s b table c t) (hkind : c.kind = .time) {x : Time}
    (hsmall : Calendar.Offset.Small x.offset) (hround : RoundTrips s t c (.time x)) :
    IsKept x.offset := by
  have hname : scalarOf? c.kind = some ("Time", .time) := by rw [hkind]; rfl
  obtain ⟨lenient, w, hwrite, z, hread, hshow⟩ :=
    h.write_of_roundTrips hname (showValue_self (by rw [hkind]; rfl)) rfl hround
  cases hwrite
  rw [readValue, if_neg (by simp [hkind]), readText.eq_def, hkind] at hread
  simp only [timeOfText_timeText hsmall] at hread
  obtain rfl := Except.ok.inj hread
  rw [showValue_self (by rw [hkind]; rfl)] at hshow
  obtain ⟨clock, offset⟩ := x
  simp only [Except.ok.injEq, Value.time.injEq, Time.mk.injEq, true_and] at hshow
  exact map_readBack_eq_self.mp hshow

theorem printable_of_roundTrips (h : Offers s b table c t)
    (hkind : c.kind = c.declaration.type.kind) {x : Value} (hx : IsNative c.declaration.type x)
    (hround : RoundTrips s t c x) : IsPrintable c.kind x := by
  generalize htype : c.declaration.type = k at hx hkind
  cases hx with
  | null =>
    rw [IsPrintable.eq_def]
    split <;> trivial
  | moment zoned m hzone hsmall =>
    rw [hkind]
    exact isKept_of_roundTrips_moment h hkind hsmall
      (fun hsome => by rw [htype]; exact hzone hsome) hround
  | time x hsmall =>
    rw [hkind]
    exact isKept_of_roundTrips_time h hkind hsmall hround
  | integer n | smallInteger n =>
    rw [hkind]
    exact fitsWord_of_roundTrips h hkind hround
  | numeric scale d =>
    rw [hkind]
    exact isFinite_of_roundTrips h hkind hround
  | _ =>
    rw [hkind]
    trivial

/-- What goes out for a stored value can be sent back, and shows as before, just when it is one of
the values that go out as they are. -/
theorem roundTrips_iff_printable (h : Offers s b table c t)
    (hkind : c.kind = c.declaration.type.kind) {x : Value} (hx : IsNative c.declaration.type x) :
    RoundTrips s t c x ↔ IsPrintable c.kind x :=
  ⟨printable_of_roundTrips h hkind hx, roundTrips_of_printable h hkind hx⟩

end Types

namespace Towns

/-- A schema with the scalars of the columns of towns. -/
def schema : Schema where
  types := [("Int", .scalar { rule := .int }), ("DateTime", .scalar { rule := .moment })]

/-- How many live in a town. -/
def population : Column where
  name := "n"
  kind := .whole
  nullable := true
  hasDefault := false
  declaration := { key := "n", name := "n", type := .integer }

/-- When a town was founded. -/
def founded : Column where
  name := "founded"
  kind := .moment
  nullable := true
  hasDefault := false
  declaration := { key := "founded", name := "founded", type := .moment true }

/-- A quarter to six in the evening, five hours and a half east of universal time. -/
def evening : DateTime where
  date := { year := 1911, month := 12, day := 12 }
  clock := { hour := 17, minute := 45, second := 0, micro := 250 }
  offset := some 19800000000

theorem offers_founded : Offers schema {} "town" founded (.named "DateTime") where
  type := rfl
  choice := by simp [founded]
  scalar := fun _ => ⟨false, rfl⟩

theorem native_evening : IsNative founded.declaration.type (.moment evening) :=
  .moment true evening (fun _ => rfl)
    (by simp [Calendar.Offset.Small, evening, Calendar.microsPerDay])

theorem roundTrips_evening : Offers schema {} "town" founded (.named "DateTime") ∧
    founded.kind = founded.declaration.type.kind ∧
    IsNative founded.declaration.type (.moment evening) ∧
    RoundTrips schema (.named "DateTime") founded (.moment evening) :=
  ⟨offers_founded, rfl, native_evening,
    (roundTrips_iff_printable offers_founded rfl native_evening).mpr
      (by simp [IsPrintable, founded, IsKept, evening])⟩

theorem offers_population : Offers schema {} "town" population (.named "Int") where
  type := rfl
  choice := by simp [population]
  scalar := fun _ => ⟨false, rfl⟩

/-- A number that an integer column may hold does not go out when 32 bits are too few for it. -/
theorem population_stays : Offers schema {} "town" population (.named "Int") ∧
    population.kind = population.declaration.type.kind ∧
    IsNative population.declaration.type (.int 2147483648) ∧
    ¬ RoundTrips schema (.named "Int") population (.int 2147483648) := by
  refine ⟨offers_population, rfl, .integer _, fun hround => ?_⟩
  have hfits := fitsWord_of_roundTrips offers_population rfl hround
  rw [fitsWord_iff] at hfits
  omega

end Towns

end RelGraph.Conversion
