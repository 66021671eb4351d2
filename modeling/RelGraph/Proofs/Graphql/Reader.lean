import RelGraph.Graphql.Reader
/-!
Reading definitions from tokens. A reader that takes some tokens and finds something is followed by
the next reader on the tokens left, so that what a definition is read as is put together from what
its parts are read as. An enum with at least one value is read as the choice of its values, by name.
-/
namespace RelGraph.Graphql.Reader

variable {α β : Type} {ts mid rest : List Token} {a : α} {b : β}

/-- A reader finds something in some tokens and leaves the rest. -/
def Reads (r : Reader α) (ts : List Token) (a : α) (rest : List Token) : Prop :=
  r.run ts = .ok (a, rest)

theorem Reads.pure (a : α) (ts : List Token) : Reads (pure a) ts a ts := rfl

theorem Reads.run_bind {r : Reader α} (h : Reads r ts a mid) (f : α → Reader β) :
    (r >>= f).run ts = (f a).run mid := by
  rw [StateT.run_bind, h]
  rfl

theorem Reads.bind {r : Reader α} {f : α → Reader β} (h : Reads r ts a mid)
    (hf : Reads (f a) mid b rest) : Reads (r >>= f) ts b rest :=
  (h.run_bind f).trans hf

/-- A reader refuses some tokens. -/
def Refuses (r : Reader α) (ts : List Token) : Prop := ∃ reason, r.run ts = .error reason

theorem Refuses.bind {r : Reader α} (h : Refuses r ts) (f : α → Reader β) :
    Refuses (r >>= f) ts := by
  obtain ⟨reason, h⟩ := h
  exact ⟨reason, by rw [StateT.run_bind, h]; rfl⟩

theorem Reads.bind_refuses {r : Reader α} {f : α → Reader β} (h : Reads r ts a mid)
    (hf : Refuses (f a) mid) : Refuses (r >>= f) ts := by
  obtain ⟨reason, hf⟩ := hf
  exact ⟨reason, (h.run_bind f).trans hf⟩

theorem reads_get (ts : List Token) : Reads get ts ts ts := rfl

/-- Tokens at which a text has not ended to be made of tokens. -/
def Readable (ts : List Token) : Prop := ∀ reason, ts.head? ≠ some (.unreadable reason)

theorem reads_goOn (h : Readable rest) (ts : List Token) : Reads (goOn rest) ts () rest := by
  rw [goOn]
  · rfl
  · rintro reason others rfl
    exact h reason rfl

theorem reads_peek (ts : List Token) : Reads peek ts ts.head? ts := rfl

theorem reads_skip? {t : Token} (h : Readable rest) : Reads (skip? t) (t :: rest) true rest := by
  refine (reads_get _).bind ?_
  simp only [if_true]
  exact (reads_goOn h _).bind (.pure _ _)

theorem reads_skip?_of_ne {t : Token} (h : ts.head? ≠ some t) : Reads (skip? t) ts false ts := by
  refine (reads_get _).bind ?_
  match ts with
  | [] => exact .pure _ _
  | first :: rest =>
    have hne : first ≠ t := by simpa using h
    simp only [if_neg hne]
    exact .pure _ _

theorem reads_name {s : String} (h : Readable rest) : Reads name (.name s :: rest) s rest :=
  (reads_get _).bind ((reads_goOn h _).bind (.pure _ _))

theorem reads_directives {constant : Bool} (fuel : Nat) (h : ts.head? ≠ some (.mark '@')) :
    Reads (directives constant fuel) ts [] ts := by
  cases fuel with
  | zero => exact .pure _ _
  | succ fuel => exact (reads_skip?_of_ne h).bind (.pure _ _)

theorem reads_description?_name (s : String) (rest : List Token) :
    Reads description? (.name s :: rest) none (.name s :: rest) :=
  (reads_get _).bind (.pure _ _)

/-! ## Enums -/

/-- The values of an enum with its closing brace. -/
def valueTokens (names : List String) (rest : List Token) : List Token :=
  names.map .name ++ .mark '\x7d' :: rest

variable {names : List String} {fuel : Nat}

theorem head_valueTokens (names : List String) (rest : List Token) :
    (∃ s, (valueTokens names rest).head? = some (.name s)) ∨
      (valueTokens names rest).head? = some (.mark '\x7d') := by
  cases names with
  | nil => exact .inr rfl
  | cons s names => exact .inl ⟨s, rfl⟩

theorem readable_valueTokens (names : List String) (rest : List Token) :
    Readable (valueTokens names rest) := by
  intro reason
  obtain ⟨s, h⟩ | h := head_valueTokens names rest <;> simp [h]

theorem head_valueTokens_ne (names : List String) (rest : List Token) :
    (valueTokens names rest).head? ≠ some (.mark '@') := by
  obtain ⟨s, h⟩ | h := head_valueTokens names rest <;> simp [h]

theorem reads_choiceValue {s : String} (fuel : Nat) (hs : s ∉ Naming.reservedEnumValues)
    (h : Readable rest) (hdirective : rest.head? ≠ some (.mark '@')) :
    Reads (choiceValue fuel) (.name s :: rest) { name := s } rest := by
  have hfree : ¬ (["true", "false", "null"].contains s = true) :=
    fun hmem => hs (List.contains_iff_mem.mp hmem)
  rw [choiceValue]
  refine (reads_description?_name s rest).bind ((reads_peek _).bind ?_)
  simp only [List.head?_cons, if_neg hfree]
  exact (reads_name h).bind ((reads_directives fuel hdirective).bind (.pure _ _))

theorem refuses_choiceValue {s : String} (fuel : Nat) (hs : s ∈ Naming.reservedEnumValues)
    (rest : List Token) : Refuses (choiceValue fuel) (.name s :: rest) := by
  have hreserved : ["true", "false", "null"].contains s = true := List.contains_iff_mem.mpr hs
  rw [choiceValue]
  refine (reads_description?_name s rest).bind_refuses ((reads_peek _).bind_refuses ?_)
  simp only [List.head?_cons, if_pos hreserved]
  exact Refuses.bind ⟨_, rfl⟩ _

theorem reads_upTo (depth : Nat) (hnames : ∀ s ∈ names, s ∉ Naming.reservedEnumValues)
    (hrest : Readable rest) (hfuel : names.length < fuel) :
    Reads (upTo (.mark '\x7d') (choiceValue depth) fuel) (valueTokens names rest)
      (names.map ({ name := · })) rest := by
  induction names generalizing fuel with
  | nil =>
    obtain ⟨fuel, rfl⟩ := Nat.exists_eq_add_of_lt hfuel
    exact (reads_skip? hrest).bind (.pure _ _)
  | cons s names ih =>
    obtain ⟨fuel, rfl⟩ : ∃ n, fuel = n + 1 := ⟨fuel - 1, by omega⟩
    rw [List.forall_mem_cons] at hnames
    have hfirst := reads_choiceValue depth hnames.1 (readable_valueTokens names rest)
      (head_valueTokens_ne names rest)
    have hothers := ih hnames.2 (Nat.lt_of_succ_lt_succ hfuel)
    exact (reads_skip?_of_ne (by simp [valueTokens])).bind
      (hfirst.bind (hothers.bind (.pure _ _)))

theorem refuses_upTo (depth : Nat) (hnames : ∃ s ∈ names, s ∈ Naming.reservedEnumValues)
    (rest : List Token) (hfuel : names.length < fuel) :
    Refuses (upTo (.mark '\x7d') (choiceValue depth) fuel) (valueTokens names rest) := by
  induction names generalizing fuel with
  | nil =>
    obtain ⟨s, hs, -⟩ := hnames
    cases hs
  | cons s names ih =>
    obtain ⟨fuel, rfl⟩ : ∃ n, fuel = n + 1 := ⟨fuel - 1, by omega⟩
    refine (reads_skip?_of_ne (by simp [valueTokens])).bind_refuses ?_
    by_cases hs : s ∈ Naming.reservedEnumValues
    · exact (refuses_choiceValue depth hs _).bind _
    · have hfirst := reads_choiceValue depth hs (readable_valueTokens names rest)
        (head_valueTokens_ne names rest)
      have hothers := ih (by simpa [hs] using hnames) (Nat.lt_of_succ_lt_succ hfuel)
      exact hfirst.bind_refuses (hothers.bind _)

/-- The tokens of an enum. -/
def enumTokens (name : String) (values : List String) (rest : List Token) : List Token :=
  .name "enum" :: .name name :: .mark '\x7b' :: valueTokens values rest

/-- What an enum is read as. -/
def enumRead (name : String) (values : List String) : Definition :=
  .type name {} (.choice (values.map ({ name := · })))

/-- Where there is a value, the first needs no look at the closing brace. -/
theorem run_someUpTo (depth : Nat) (hne : names ≠ []) (rest : List Token) (fuel : Nat) :
    (someUpTo (.mark '\x7d') (choiceValue depth) fuel).run (valueTokens names rest) =
      (upTo (.mark '\x7d') (choiceValue depth) (fuel + 1)).run (valueTokens names rest) := by
  obtain ⟨s, names, rfl⟩ := List.exists_cons_of_ne_nil hne
  have hopen : Reads (skip? (.mark '\x7d')) (valueTokens (s :: names) rest) false
      (valueTokens (s :: names) rest) :=
    reads_skip?_of_ne (by simp [valueTokens])
  rw [upTo, hopen.run_bind]
  rfl

theorem reads_group (depth : Nat) (hne : names ≠ [])
    (hnames : ∀ s ∈ names, s ∉ Naming.reservedEnumValues) (hrest : Readable rest)
    (hfuel : names.length ≤ fuel) :
    Reads (group fuel '\x7b' '\x7d' (choiceValue depth))
      (.mark '\x7b' :: valueTokens names rest) (names.map ({ name := · })) rest :=
  (reads_skip? (readable_valueTokens names rest)).bind <|
    (run_someUpTo depth hne rest fuel).trans
      (reads_upTo depth hnames hrest (Nat.lt_succ_of_le hfuel))

theorem refuses_group (depth : Nat) (hnames : ∃ s ∈ names, s ∈ Naming.reservedEnumValues)
    (rest : List Token) (hfuel : names.length ≤ fuel) :
    Refuses (group fuel '\x7b' '\x7d' (choiceValue depth))
      (.mark '\x7b' :: valueTokens names rest) := by
  have hne : names ≠ [] := fun hnone => by simp [hnone] at hnames
  obtain ⟨reason, hupTo⟩ := refuses_upTo depth hnames rest (Nat.lt_succ_of_le hfuel)
  exact (reads_skip? (readable_valueTokens names rest)).bind_refuses
    ⟨reason, (run_someUpTo depth hne rest fuel).trans hupTo⟩

/-- Behind its keyword and name an enum is the group of its values. -/
theorem run_definition (fuel : Nat) (name : String) (names : List String) (rest : List Token) :
    (definition fuel).run (enumTokens name names rest) =
      (group fuel '\x7b' '\x7d' (choiceValue fuel) >>= fun values =>
        pure (.type name {} (.choice values))).run (.mark '\x7b' :: valueTokens names rest) := by
  have hfollows : Reads (follows (.mark '\x7b')) (enumTokens name names rest) false
      (enumTokens name names rest) := rfl
  have hkeyword : Reads (goOn (.name name :: .mark '\x7b' :: valueTokens names rest))
      (enumTokens name names rest) () (.name name :: .mark '\x7b' :: valueTokens names rest) :=
    reads_goOn (by simp [Readable]) _
  have hname : Reads Reader.name (.name name :: .mark '\x7b' :: valueTokens names rest) name
      (.mark '\x7b' :: valueTokens names rest) :=
    reads_name (by simp [Readable])
  have hdirectives : Reads (directives true fuel) (.mark '\x7b' :: valueTokens names rest) []
      (.mark '\x7b' :: valueTokens names rest) :=
    reads_directives fuel (by simp)
  refine (hfollows.run_bind _).trans (((reads_description?_name _ _).run_bind _).trans ?_)
  refine ((reads_get _).run_bind _).trans ((hkeyword.run_bind _).trans ?_)
  refine (hname.run_bind _).trans ?_
  simp only [typeContent, bind_assoc, pure_bind]
  exact hdirectives.run_bind _

/-- An enum with some values is read as the choice of these, whatever comes behind it. -/
theorem reads_definition {name : String} (hne : names ≠ [])
    (hnames : ∀ s ∈ names, s ∉ Naming.reservedEnumValues) (hrest : Readable rest)
    (hfuel : names.length ≤ fuel) :
    Reads (definition fuel) (enumTokens name names rest) (enumRead name names) rest :=
  (run_definition fuel name names rest).trans
    ((reads_group fuel hne hnames hrest hfuel).bind (.pure _ _))

/-- An enum with a reserved value is refused. -/
theorem refuses_definition (name : String) (hnames : ∃ s ∈ names, s ∈ Naming.reservedEnumValues)
    (rest : List Token) (hfuel : names.length ≤ fuel) :
    Refuses (definition fuel) (enumTokens name names rest) := by
  rw [Refuses, run_definition]
  exact (refuses_group fuel hnames rest hfuel).bind _

/-! ## Documents -/

/-- A text is a document of one definition when its tokens are read as one. -/
theorem ofText_of_reads {text : String} {d : Definition} (htext : Token.ofText text = ts)
    (hts : Readable ts) (h : Reads (definition (ts.length + 1)) ts d []) :
    Document.ofText text = .ok [d] := by
  have hread : Reads (goOn ts >>= fun _ => definitions (ts.length + 1) (ts.length + 1)) ts [d] [] :=
    (reads_goOn hts ts).bind (h.bind ((reads_get _).bind (.pure _ _)))
  rw [Reads] at hread
  rw [Document.ofText, htext]
  simp only [hread]
  rfl

/-- A text is no document when its tokens are refused as a definition. -/
theorem ofText_of_refuses {text : String} (htext : Token.ofText text = ts) (hts : Readable ts)
    (h : Refuses (definition (ts.length + 1)) ts) :
    ∃ reason, Document.ofText text = .error reason := by
  have hrefused : Refuses (goOn ts >>= fun _ => definitions (ts.length + 1) (ts.length + 1)) ts :=
    (reads_goOn hts ts).bind_refuses (h.bind _)
  obtain ⟨reason, hreason⟩ := hrefused
  rw [Document.ofText, htext]
  simp only [hreason]
  exact ⟨_, rfl⟩

variable {text name : String}

theorem length_le_enumTokens (name : String) (names : List String) :
    names.length ≤ (enumTokens name names []).length + 1 := by
  simp only [enumTokens, valueTokens, List.length_cons, List.length_append, List.length_map]
  omega

theorem readable_enumTokens (name : String) (names : List String) :
    Readable (enumTokens name names []) := by
  simp [Readable, enumTokens]

/-- A text with the tokens of an enum, none of whose values is reserved, is a document that defines
it. -/
theorem ofText_of_enumTokens (htext : Token.ofText text = enumTokens name names [])
    (hne : names ≠ []) (hnames : ∀ s ∈ names, s ∉ Naming.reservedEnumValues) :
    Document.ofText text = .ok [enumRead name names] :=
  ofText_of_reads htext (readable_enumTokens name names)
    (reads_definition hne hnames (by simp [Readable]) (length_le_enumTokens name names))

/-- A text with the tokens of an enum, of which some value is reserved, is no document. -/
theorem ofText_of_enumTokens_reserved (htext : Token.ofText text = enumTokens name names [])
    (hnames : ∃ s ∈ names, s ∈ Naming.reservedEnumValues) :
    ∃ reason, Document.ofText text = .error reason :=
  ofText_of_refuses htext (readable_enumTokens name names)
    (refuses_definition name hnames [] (length_le_enumTokens name names))

end RelGraph.Graphql.Reader
