import RelGraph.Proofs.Conversion
import RelGraph.Proofs.Fetch.Presence
import RelGraph.Proofs.Text.Bytes
/-!
What callers see of a stored cell. At the root the database gives back what the column's type makes
of the cell; below the root the cell travels inside JSON. For every type whose values the API reads
and shows itself, this says for which cells the two ways come to the same.
-/
namespace RelGraph.Direct

open Store Sql Outcome Conversion

/-- A type whose values are shown as they are stored, as numbers, truth values, texts, dates, bytes,
identifiers or JSON. -/
def isBuiltIn : ColumnType → Bool
  | .boolean | .date | .moment _ | .time | .integer | .smallInteger | .bigInteger | .text _
  | .choice .. | .binary _ | .uuid _ | .json => true
  | _ => false

/-- What a row of the root shows of a cell; nothing where it cannot be read or shown. -/
def rootShown (c : Column) (cell : Cell) : Option Value := do
  let v ← (Binding.result c.declaration.type cell).toOption
  (showValue c v).toOption

/-- What a row below the root shows of a cell; nothing where JSON cannot hold it or it cannot be
shown. -/
def belowShown (c : Column) (cell : Cell) : Option Value := do
  let v ← (jsonOf c cell).toOption
  (showValue c v).toOption

/-- A double as JSON holds it. -/
def jsonDouble (x : Binary64) : Binary64 := if x.isFinite then x.brief else .nan

/-- Whether the rows of the root and those below show a cell alike.

Nulls are, except in columns of large bytes, which show no bytes instead; whole numbers are where
the type takes numbers, and doubles where JSON keeps enough of them. A text is shown alike in a
column of dates if all of it is a date, of moments if they are zoned or it has no zone, of
identifiers if it is written in the way in which they are shown, of JSON if it has no number that is
not finite. Bytes are shown alike in columns of large bytes; elsewhere JSON cannot hold them. -/
def ShownAlike : ColumnType → Cell → Prop
  | .binary true, .null => False
  | .binary true, .integer n => (zeroBytes n).toOption = some (toString n).toUTF8.toList
  | .binary true, .real _ => False
  | .binary true, .text s => (bytesOfHex s).toOption = some s.toUTF8.toList
  | .binary true, .blob _ => True
  | _, .null => True
  | .boolean, .real x => (jsonDouble x).isZero = x.isZero
  | .integer, .real x | .smallInteger, .real x | .bigInteger, .real x =>
    (intOf (.float (jsonDouble x))).toOption = (intOf (.float x)).toOption
  | .text _, .real x | .choice .., .real x => jsonDouble x = x
  | .json, .real x => x.isFinite = true ∧ x.brief = x
  | .date, .text s => (dateOfText s).toOption.isSome ∨ (leadingDate s).toOption = none
  | .moment zoned, .text s => zoned = true ∨ ∀ m, momentOfText s = .ok m → m.offset = none
  | .uuid _, .text s => ∃ u, uuidOfText s = .ok u ∧ u.text = s
  | .json, .text s => ∀ v, Json.read s = .ok v → holdsDouble (!·.isFinite) v = false
  | .date, .integer _ | .date, .real _ | .moment _, .integer _ | .moment _, .real _
  | .time, .integer _ | .time, .real _ | .uuid _, .integer _ | .uuid _, .real _ => False
  | .date, .blob _ | .moment _, .blob _ | .time, .blob _ | .uuid _, .blob _ => True
  | .bigInteger, .blob data => (intOf (.bytes data)).toOption = none
  | _, .blob _ => False
  | _, _ => True

/-! ## Types one by one -/

/-- A column with another type. -/
def ofType (c : Column) (t : ColumnType) : Column :=
  { c with kind := t.kind, declaration := { c.declaration with type := t } }

theorem ofType_self {c : Column} (h : c.kind = c.declaration.type.kind) :
    ofType c c.declaration.type = c := by
  obtain ⟨name, kind, nullable, hasDefault, declaration, typeOverride, description⟩ := c
  obtain rfl : kind = declaration.type.kind := h
  rfl

theorem toOption_map {α β : Type} (f : α → β) (a : Converted α) :
    (f <$> a).toOption = a.toOption.map f := by
  cases a <;> rfl

theorem toOption_map_int_inj {a b : Converted Int} :
    (Value.int <$> a).toOption = (Value.int <$> b).toOption ↔ b.toOption = a.toOption := by
  rw [toOption_map, toOption_map]
  constructor
  · intro h
    exact (Option.map_injective (fun m n h => Value.int.inj h) h).symm
  · intro h
    rw [h]

variable (c : Column) (cell : Cell)

theorem rootShown_of_result {t : ColumnType} {v : Value} (h : Binding.result t cell = .ok v) :
    rootShown (ofType c t) cell = (showValue (ofType c t) v).toOption := by
  rw [rootShown, show Binding.result (ofType c t).declaration.type cell = .ok v from h]
  rfl

theorem belowShown_of_jsonOf {t : ColumnType} {v : Value} (h : jsonOf (ofType c t) cell = .ok v) :
    belowShown (ofType c t) cell = (showValue (ofType c t) v).toOption := by
  rw [belowShown, h]
  rfl

theorem alike_boolean :
    rootShown (ofType c .boolean) cell = belowShown (ofType c .boolean) cell ↔
      ShownAlike .boolean cell := by
  cases cell with
  | null => exact iff_of_true rfl trivial
  | integer n => exact iff_of_true rfl trivial
  | real x =>
    show some (Value.bool (!x.isZero)) = some (Value.bool (!(jsonDouble x).isZero)) ↔
      (jsonDouble x).isZero = x.isZero
    simp [eq_comm]
  | text s => exact iff_of_true rfl trivial
  | blob data => exact iff_of_false (Option.some_ne_none _) id

/-- A type whose cells are read as they are, at the root and below it. -/
def isPlain : ColumnType → Bool
  | .integer | .smallInteger | .bigInteger | .text _ | .choice .. | .binary false => true
  | _ => false

theorem plain_cases {t : ColumnType} (h : isPlain t = true) :
    t = .integer ∨ t = .smallInteger ∨ t = .bigInteger ∨ t = .binary false ∨
      (∃ long, t = .text long) ∨ ∃ label stored, t = .choice label stored := by
  cases t with
  | binary large =>
    cases large with
    | false => simp
    | true => cases h
  | integer | smallInteger | bigInteger | text | choice => simp
  | _ => cases h

theorem plain_spec {t : ColumnType} (h : isPlain t = true) :
    Binding.result t cell = .ok (Binding.plain cell) ∧
      jsonOf (ofType c t) cell = jsonOfCell cell := by
  obtain rfl | rfl | rfl | rfl | ⟨long, rfl⟩ | ⟨label, stored, rfl⟩ := plain_cases h <;>
    cases cell <;> exact ⟨rfl, rfl⟩

theorem alike_plain {t : ColumnType} (h : isPlain t = true) :
    rootShown (ofType c t) cell = belowShown (ofType c t) cell ↔ ShownAlike t cell := by
  obtain ⟨hresult, hjson⟩ := plain_spec c cell h
  rw [rootShown_of_result c cell hresult]
  cases cell with
  | null | integer n | text s =>
    rw [belowShown_of_jsonOf c _ (hjson.trans rfl)]
    refine iff_of_true rfl ?_
    obtain rfl | rfl | rfl | rfl | ⟨long, rfl⟩ | ⟨label, stored, rfl⟩ := plain_cases h <;> trivial
  | real x =>
    rw [belowShown_of_jsonOf c _ (hjson.trans rfl)]
    have hkept : some (Value.float x) = some (Value.float (jsonDouble x)) ↔ jsonDouble x = x := by
      simp [eq_comm]
    obtain rfl | rfl | rfl | rfl | ⟨long, rfl⟩ | ⟨label, stored, rfl⟩ := plain_cases h
    · exact toOption_map_int_inj
    · exact toOption_map_int_inj
    · exact toOption_map_int_inj
    · exact iff_of_true rfl trivial
    · exact hkept
    · exact hkept
  | blob data =>
    have hbelow : belowShown (ofType c t) (.blob data) = none := by
      rw [belowShown, hjson]
      rfl
    rw [hbelow]
    obtain rfl | rfl | rfl | rfl | ⟨long, rfl⟩ | ⟨label, stored, rfl⟩ := plain_cases h
    · exact iff_of_false (Option.some_ne_none _) id
    · exact iff_of_false (Option.some_ne_none _) id
    · -- Big integers are the ones that read a blob, and may fail.
      have hshown : showValue (ofType c .bigInteger) (.bytes data) =
          Value.int <$> intOf (.bytes data) := rfl
      rw [Binding.plain, hshown, toOption_map, Option.map_eq_none_iff]
      rfl
    · exact iff_of_false (Option.some_ne_none _) id
    · exact iff_of_false (Option.some_ne_none _) id
    · exact iff_of_false (Option.some_ne_none _) id

theorem alike_date :
    rootShown (ofType c .date) cell = belowShown (ofType c .date) cell ↔
      ShownAlike .date cell := by
  cases cell with
  | null => exact iff_of_true rfl trivial
  | integer n => exact iff_of_false (by rintro ⟨⟩) id
  | real x => exact iff_of_false (by rintro ⟨⟩) id
  | text s =>
    show ((Binding.readAs Value.date (dateOfText s)).toOption.bind fun v =>
        (showValue (ofType c .date) v).toOption) = (Value.date <$> leadingDate s).toOption ↔
      (dateOfText s).toOption.isSome ∨ (leadingDate s).toOption = none
    rw [toOption_map]
    cases hs : dateOfText s with
    | ok d =>
      rw [leadingDate_of_dateOfText hs]
      exact iff_of_true rfl (.inl rfl)
    | error m =>
      show none = (leadingDate s).toOption.map Value.date ↔
        none.isSome = true ∨ (leadingDate s).toOption = none
      cases (leadingDate s).toOption <;> simp
  | blob data => exact iff_of_true rfl trivial

theorem alike_moment (zoned : Bool) :
    rootShown (ofType c (.moment zoned)) cell = belowShown (ofType c (.moment zoned)) cell ↔
      ShownAlike (.moment zoned) cell := by
  cases cell with
  | null => exact iff_of_true rfl trivial
  | integer n => exact iff_of_false (by rintro ⟨⟩) id
  | real x => exact iff_of_false (by rintro ⟨⟩) id
  | text s =>
    show ((Binding.readAs Value.moment (momentOfText s)).toOption.bind fun v =>
        (showValue (ofType c (.moment zoned)) v).toOption) =
        (Value.moment <$> (momentOfText s >>= fun m =>
          pure (if zoned then m else m.naive))).toOption ↔
      zoned = true ∨ ∀ m, momentOfText s = .ok m → m.offset = none
    cases momentOfText s with
    | ok m =>
      show some (Value.moment m) = some (Value.moment (if zoned then m else m.naive)) ↔ _
      cases zoned with
      | true => simp
      | false =>
        obtain ⟨date, clock, offset⟩ := m
        simp [DateTime.naive, eq_comm]
    | error m => exact iff_of_true rfl (.inr fun m h => by cases h)
  | blob data => exact iff_of_true rfl trivial

theorem alike_time :
    rootShown (ofType c .time) cell = belowShown (ofType c .time) cell ↔
      ShownAlike .time cell := by
  cases cell with
  | null => exact iff_of_true rfl trivial
  | integer n => exact iff_of_false (by rintro ⟨⟩) id
  | real x => exact iff_of_false (by rintro ⟨⟩) id
  | text s =>
    refine iff_of_true ?_ trivial
    show ((Binding.readAs Value.time (timeOfText s)).toOption.bind fun v =>
        (showValue (ofType c .time) v).toOption) = (Value.time <$> timeOfText s).toOption
    cases timeOfText s with
    | ok t => rfl
    | error m => rfl
  | blob data => exact iff_of_true rfl trivial

theorem alike_uuid (native : Bool) :
    rootShown (ofType c (.uuid native)) cell = belowShown (ofType c (.uuid native)) cell ↔
      ShownAlike (.uuid native) cell := by
  cases cell with
  | null => exact iff_of_true rfl trivial
  | integer n => exact iff_of_false (by rintro ⟨⟩) id
  | real x => exact iff_of_false (by rintro ⟨⟩) id
  | text s =>
    show ((Binding.readAs Value.uuid (uuidOfText s)).toOption.bind fun v =>
        (showValue (ofType c (.uuid native)) v).toOption) = some (Value.text s) ↔
      ∃ u, uuidOfText s = .ok u ∧ u.text = s
    cases uuidOfText s with
    | ok u =>
      show some (Value.text u.text) = some (Value.text s) ↔ _
      simp
    | error m => exact iff_of_false (by rintro ⟨⟩) (by simp)
  | blob data => exact iff_of_true rfl trivial

theorem showValue_json (v : Value) : (showValue (ofType c .json) v).toOption = some v := by
  cases v <;> rfl

theorem result_json_text (s : String) :
    (Binding.result .json (.text s)).toOption = (Json.read s).toOption := by
  unfold Binding.result
  dsimp only [ColumnType.bare]
  cases Json.read s with
  | ok v => rfl
  | error e => cases e <;> rfl

theorem alike_json :
    rootShown (ofType c .json) cell = belowShown (ofType c .json) cell ↔
      ShownAlike .json cell := by
  cases cell with
  | null => exact iff_of_true rfl trivial
  | integer n => exact iff_of_true rfl trivial
  | real x =>
    show some (Value.float x) = ((embedded (.float (jsonDouble x))).toOption.bind fun v =>
        (showValue (ofType c .json) v).toOption) ↔ x.isFinite = true ∧ x.brief = x
    simp only [showValue_json, Option.bind_fun_some]
    -- A finite double may come back shortened, and may then be none; no other passes at all.
    cases hfinite : x.isFinite with
    | false =>
      rw [jsonDouble, hfinite]
      exact iff_of_false (by rintro ⟨⟩) (by simp)
    | true =>
      rw [jsonDouble, hfinite, if_pos rfl]
      by_cases hnan : x.brief = .nan
      · have hne : x ≠ .nan := by
          rintro rfl
          cases hfinite
        rw [hnan]
        exact iff_of_false (by rintro ⟨⟩) fun h => hne h.2.symm
      · have hok : embedded (.float x.brief) = .ok (.float x.brief) := by
          simp [embedded, holdsNoJson, holdsDouble, hnan]
        rw [hok]
        show some (Value.float x) = some (Value.float x.brief) ↔ _
        simp [eq_comm]
  | text s =>
    show ((Binding.result .json (.text s)).toOption.bind fun v =>
        (showValue (ofType c .json) v).toOption) =
      ((jsonOfText s).toOption.bind fun v => (showValue (ofType c .json) v).toOption) ↔
      ∀ v, Json.read s = .ok v → holdsDouble (!·.isFinite) v = false
    simp only [showValue_json, Option.bind_fun_some, result_json_text, jsonOfText]
    cases Json.read s with
    | ok v =>
      show some v = Except.toOption (if holdsDouble (!·.isFinite) v = true then _ else _) ↔ _
      cases hnumbers : holdsDouble (!·.isFinite) v with
      | true => exact iff_of_false (by rintro ⟨⟩) (by simp [hnumbers])
      | false => exact iff_of_true rfl (by simp [hnumbers])
    | error e => exact iff_of_true rfl (by simp)
  | blob data => exact iff_of_false (Option.some_ne_none _) id

theorem bytesOfHex_hexBytes (data : List UInt8) : bytesOfHex (Text.hexBytes data) = .ok data := by
  have hmark := Text.head?_hexBytes data
  unfold bytesOfHex
  extract_lets digits
  -- No mark is in front of the digits that would be taken off.
  have hdigits : digits = Text.hexBytes data := by
    simp only [digits]
    split
    · rename_i rest hrest
      rw [hrest] at hmark
      exact absurd rfl hmark
    · rfl
  rw [hdigits, Text.readHexBytes_hexBytes]

theorem byteNumbers_injective {a b : List UInt8} (h : byteNumbers a = byteNumbers b) : a = b := by
  refine List.map_injective_iff.mpr ?_ (Value.list.inj h)
  intro x y hxy
  exact UInt8.toNat_inj.mp (Int.ofNat.inj (Value.int.inj hxy))

theorem belowShown_largeBinary {data : List UInt8}
    (h : jsonOf (ofType c (.binary true)) cell = .ok (.text (Text.hexBytes data))) :
    belowShown (ofType c (.binary true)) cell = some (byteNumbers data) := by
  have hshown : showValue (ofType c (.binary true)) (.text (Text.hexBytes data)) =
      byteNumbers <$> bytesOfHex (Text.hexBytes data) := rfl
  rw [belowShown_of_jsonOf c cell h, hshown, bytesOfHex_hexBytes]
  rfl

theorem toOption_map_bytes {a : Converted (List UInt8)} {data : List UInt8} :
    (byteNumbers <$> a).toOption = some (byteNumbers data) ↔ a.toOption = some data := by
  rw [toOption_map, Option.map_eq_some_iff]
  constructor
  · rintro ⟨found, hfound, hsame⟩
    rw [hfound, byteNumbers_injective hsame]
  · intro h
    exact ⟨data, h, rfl⟩

theorem alike_largeBinary :
    rootShown (ofType c (.binary true)) cell = belowShown (ofType c (.binary true)) cell ↔
      ShownAlike (.binary true) cell := by
  cases cell with
  | null => exact iff_of_false (by rintro ⟨⟩) id
  | integer n =>
    have hroot : rootShown (ofType c (.binary true)) (.integer n) =
        (byteNumbers <$> zeroBytes n).toOption := rfl
    rw [hroot, belowShown_largeBinary c _ rfl, toOption_map_bytes]
    rfl
  | real x =>
    rw [belowShown_largeBinary c _ rfl]
    exact iff_of_false (by rintro ⟨⟩) id
  | text s =>
    have hroot : rootShown (ofType c (.binary true)) (.text s) =
        (byteNumbers <$> bytesOfHex s).toOption := rfl
    rw [hroot, belowShown_largeBinary c _ rfl, toOption_map_bytes]
    rfl
  | blob data =>
    rw [belowShown_largeBinary c _ rfl]
    exact iff_of_true rfl trivial

/-- The rows of the root and those below show a cell of a built-in type alike exactly in these
cases. -/
theorem rootShown_eq_belowShown_iff {c : Column} {cell : Cell}
    (hbuiltIn : isBuiltIn c.declaration.type = true) (hkind : c.kind = c.declaration.type.kind) :
    rootShown c cell = belowShown c cell ↔ ShownAlike c.declaration.type cell := by
  rw [← ofType_self hkind]
  show rootShown (ofType c c.declaration.type) cell = belowShown (ofType c c.declaration.type) cell
    ↔ ShownAlike c.declaration.type cell
  -- From here on the column matters through its type only.
  generalize c.declaration.type = t at hbuiltIn
  match t, hbuiltIn with
  | .boolean, _ => exact alike_boolean c cell
  | .date, _ => exact alike_date c cell
  | .moment zoned, _ => exact alike_moment c cell zoned
  | .time, _ => exact alike_time c cell
  | .integer, _ | .smallInteger, _ | .bigInteger, _ | .text _, _ | .choice .., _
  | .binary false, _ => exact alike_plain c cell rfl
  | .binary true, _ => exact alike_largeBinary c cell
  | .uuid native, _ => exact alike_uuid c cell native
  | .json, _ => exact alike_json c cell

/-! ## Rows at their places -/

/-- A plan shows a column under its name: it asks for it, and no relation goes by the name. -/
def ShowsColumn (n : Node) (name : String) : Prop :=
  name ∈ n.columns ∧ name ∉ Members.names n.relations ∧ name ∉ Members.names n.truncated

/-- Under the name of a column a row shows what is read of its cell. -/
theorem SeenAs.field_column {read : Column → Cell → Except Refusal Value} {scan : Scan}
    {r : Registry} {db : Database} {n : Node} {t : Table} {row : StoredRow} {v : Value}
    (h : SeenAs read scan r db n t row v) {name : String} (hname : ShowsColumn n name) :
    ∃ c x, t.column? name = some c ∧ read c (row.cell c) = .ok x ∧
      showValue c x = .ok (v.field name) := by
  obtain ⟨-, -, ht, ms, hcarries, hrow⟩ := h
  obtain ⟨hasked, hrelations, htruncated⟩ := hname
  obtain ⟨t', ht', hshown⟩ := Hydration.field_column hrow hasked hrelations htruncated
  obtain rfl : t' = t := Option.some.inj (ht'.symm.trans ht)
  obtain ⟨c, hc, hshown⟩ := bind_eq_ok.mp hshown
  have hc := Table.column_eq_ok.mp hc
  obtain rfl := Table.column?_name hc
  have hmem : c ∈ columnsOf t' n.columns := List.mem_filterMap.mpr ⟨c.name, hasked, hc⟩
  obtain ⟨x, hx, hfound⟩ := hcarries.column c hmem hrelations
  refine ⟨c, x, hc, hx, ?_⟩
  rw [hfound, Option.getD_some] at hshown
  cases hvalue : showValue c x with
  | error m =>
    rw [hvalue] at hshown
    cases hshown
  | ok w =>
    rw [hvalue] at hshown
    rw [← pure_eq_ok.mp hshown]

/-- Wherever callers see a row in what was fetched, each of its columns shows what the place makes
of the cell. -/
theorem field_of_fetched {r : Registry} {access : Access} {s : Storage} {n : Node}
    {rows : List Value} (h : s.Fetched r access n rows) {i : Nat} {path : Path} {m : Node}
    {v : Value} (hat : shownAt n rows i path = some (m, v)) :
    ∃ t row, rowAt (scanOf r) r (s.seen access) n i path = some (m, t, row) ∧
      r.table? m.table = some t ∧ ∀ name, ShowsColumn m name → ∃ c, t.column? name = some c ∧
        (if path = [] then rootShown c (row.cell c) else belowShown c (row.cell c)) =
          some (v.field name) := by
  obtain ⟨t, row, hrow, hseen⟩ := seen_of_fetched h hat
  refine ⟨t, row, hrow, hseen.table, fun name hname => ?_⟩
  obtain ⟨c, x, hc, hx, hshown⟩ := hseen.field_column hname
  refine ⟨c, hc, ?_⟩
  split
  · rename_i hroot
    rw [if_pos hroot] at hx
    rw [rootShown, hx]
    show (showValue c x).toOption = _
    rw [hshown]
    rfl
  · rename_i hbelow
    rw [if_neg hbelow] at hx
    rw [belowShown, hx]
    show (showValue c x).toOption = _
    rw [hshown]
    rfl

/-- A row that is fetched as one of the root and again through a relation, however deep, shows the
same in a column of a built-in type exactly where its cell is one that both ways show alike. -/
theorem field_eq_field_iff (r : Registry) (hkinds : r.KindsDeclared)
    (access₁ access₂ : Access) (s₁ s₂ : Storage) (n₁ n₂ : Node) (rows₁ rows₂ : List Value)
    (h₁ : s₁.Fetched r access₁ n₁ rows₁) (h₂ : s₂.Fetched r access₂ n₂ rows₂) :
    ∃ scan : Scan, ∀ i m₁ v₁ j path m₂ v₂, shownAt n₁ rows₁ i [] = some (m₁, v₁) →
      path ≠ [] → shownAt n₂ rows₂ j path = some (m₂, v₂) →
        ∃ t₁ row₁ t₂ row₂, rowAt scan r (s₁.seen access₁) n₁ i [] = some (m₁, t₁, row₁) ∧
          rowAt scan r (s₂.seen access₂) n₂ j path = some (m₂, t₂, row₂) ∧
          (t₁ = t₂ → row₁ = row₂ → ∀ name, ShowsColumn m₁ name → ShowsColumn m₂ name →
            ∃ c, t₁.column? name = some c ∧ (isBuiltIn c.declaration.type = true →
              (v₁.field name = v₂.field name ↔
                ShownAlike c.declaration.type (row₁.cell c)))) := by
  refine ⟨scanOf r, fun i m₁ v₁ j path m₂ v₂ hat₁ hpath hat₂ => ?_⟩
  obtain ⟨t₁, row₁, hrow₁, htable, hfield₁⟩ := field_of_fetched h₁ hat₁
  obtain ⟨t₂, row₂, hrow₂, -, hfield₂⟩ := field_of_fetched h₂ hat₂
  refine ⟨t₁, row₁, t₂, row₂, hrow₁, hrow₂, ?_⟩
  rintro rfl rfl name hname₁ hname₂
  obtain ⟨c, hc, hroot⟩ := hfield₁ name hname₁
  obtain ⟨c', hc', hbelow⟩ := hfield₂ name hname₂
  obtain rfl : c' = c := Option.some.inj (hc'.symm.trans hc)
  rw [if_pos rfl] at hroot
  rw [if_neg hpath] at hbelow
  refine ⟨c', hc, fun hbuiltIn => ?_⟩
  rw [← rootShown_eq_belowShown_iff hbuiltIn (hkinds.column? htable hc), hroot, hbelow,
    Option.some_inj]

namespace Family

theorem kindsDeclared : registry.KindsDeclared := by
  simp [Registry.KindsDeclared, Table.KindsDeclared, registry, parent, child, table, column]

/-- All parents, and what identifies them. -/
def marks : Node := { table := "parent", columns := ["mark"] }

/-- Callers see what identifies the parent, written with hyphens. -/
theorem fetched_marks : storage.Fetched registry .own marks
    [.object [("mark", .text "12345678-1234-5678-1234-567812345678")]] := by
  have hroot (scan : Scan) : rootRows scan storage.committed parent marks = [parentRow] :=
    rootRows_eq_singleton scan rfl rfl rfl rfl
  have hresult (scan : Scan) : Direct.result scan registry storage.committed marks =
      .ok [.object [("mark", .uuid ⟨0x12345678123456781234567812345678⟩)]] := by
    have htable : registry.table? marks.table = some parent := rfl
    unfold Direct.result
    rw [htable]
    dsimp only
    rw [hroot]
    simp only [List.mapM_cons, List.mapM_nil, marks, bind, Except.bind, pure, Except.pure]
    rfl
  obtain ⟨f, hf, hapart, hbound⟩ : ∃ f, Fetch.ofNode registry marks = .ok f ∧ f.RootApart ∧
      (Storage.boundCells (Fetch.checkSize f) (Dialect.sqlite.fetch f)).toOption.isSome :=
    ⟨_, rfl, by simp [Fetch.RootApart, sourcesOf], by decide +kernel⟩
  have hfetched := (result_eq hf (Scoping.tellsApart_of_rootApart hf hapart)).trans (hresult _)
  have hplan : (Plan.ofSelection registry 5 "parent" ⟨"parentFindMany", none, [],
      [("mark", ⟨"mark", none, [], []⟩)]⟩ []).1 = .ok marks := by cbv
  refine ⟨Plan.planned_ofSelection hplan, ⟨f, hf, hapart⟩,
    Storage.fetch_of_result hf hbound hfetched ?_⟩
  simp only [Hydration.rows, List.mapM_cons, List.mapM_nil, marks, Hydration.row,
    Hydration.relationValues]
  rfl

/-- What the parent shows at the root and below its child is compared under all names. -/
theorem field_eq_field_marks :
    registry.KindsDeclared ∧
      storage.Fetched registry .own marks
        [.object [("mark", .text "12345678-1234-5678-1234-567812345678")]] ∧
      storage.Fetched registry .own (parentOfEach ["mark"])
        [.object [("id", .int 5),
          ("parent", .object [("mark", .text "12345678123456781234567812345678")])]] ∧
      ∃ scan t₁ row₁ t₂ row₂,
        rowAt scan registry storage.committed marks 0 [] = some (marks, t₁, row₁) ∧
        rowAt scan registry storage.committed (parentOfEach ["mark"]) 0 [("parent", 0)] =
          some ({ table := "parent", columns := ["mark"], relation := some toParent }, t₂, row₂) ∧
        (t₁ = t₂ → row₁ = row₂ → ∃ c, t₁.column? "mark" = some c ∧
          (isBuiltIn c.declaration.type = true →
            (Value.text "12345678-1234-5678-1234-567812345678" =
                .text "12345678123456781234567812345678" ↔
              ShownAlike c.declaration.type (row₁.cell c)))) := by
  obtain ⟨scan, h⟩ := field_eq_field_iff registry kindsDeclared .own .own storage storage _ _ _ _
    fetched_marks fetched_mark
  obtain ⟨t₁, row₁, t₂, row₂, hrow₁, hrow₂, halike⟩ :=
    h 0 _ _ 0 [("parent", 0)] _ _ rfl (by simp) rfl
  refine ⟨kindsDeclared, fetched_marks, fetched_mark, scan, t₁, row₁, t₂, row₂, hrow₁, hrow₂,
    fun ht hrow => ?_⟩
  exact halike ht hrow "mark" (by simp [ShowsColumn, marks, Members.names])
    (by simp [ShowsColumn, Members.names])

/-- At the root the parent is identified in another way than below its child. -/
theorem mark_shown_differently :
    storage.Fetched registry .own marks
        [.object [("mark", .text "12345678-1234-5678-1234-567812345678")]] ∧
      storage.Fetched registry .own (parentOfEach ["mark"])
        [.object [("id", .int 5),
          ("parent", .object [("mark", .text "12345678123456781234567812345678")])]] ∧
      storage.committed.rows parent = [parentRow] ∧
      "12345678-1234-5678-1234-567812345678" ≠ "12345678123456781234567812345678" :=
  ⟨fetched_marks, fetched_mark, rfl, by decide⟩

end Family

end RelGraph.Direct
