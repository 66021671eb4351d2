import RelGraph.Value.Attribute
import RelGraph.Text.Template
/-!
Named computations on values: the capitals of a text, the weekday of a date. A field whose name is
that of a computation runs it on the request, which is a row of things and nothing that computations
are meant for: most refuse it, each in its own words, and few give a value. With arguments the
computation is asked for things by name, of which most know none.
-/
namespace RelGraph.Value

/-- The name by which computations know a request. -/
def requestKind : String := "GraphQLResolveInfo"

/-- What is said where a whole number is expected. -/
def noWholeNumber : String := s!"'{requestKind}' object cannot be interpreted as an integer"

/-- What is said where bytes are expected. -/
def noBytes : String := s!"a bytes-like object is required, not '{requestKind}'"

/-- What is said where a decimal number is expected. -/
def noDecimal : String := s!"conversion from {requestKind} to Decimal is not supported"

/-- What is said where a way of rounding is expected. -/
def noRounding : String :=
  "valid values for rounding are:\n  [ROUND_CEILING, ROUND_FLOOR, ROUND_UP, ROUND_DOWN,\n" ++
    "   ROUND_HALF_UP, ROUND_HALF_DOWN, ROUND_HALF_EVEN,\n   ROUND_05UP]"

/-- What a computation answers to a request: it takes nothing, it refuses what it is given, or it
gives a value. -/
inductive Reply
  | takesNothing
  | refusal (message : String)
  | value (v : Value)
deriving Repr, Inhabited

/-- What the place of a template stands for when the field of a name fills it. -/
def filledPlace (field : String) (inside : List Char) : Except String String :=
  let (name, rest) := Text.placeName inside
  let position := Numeral.fromDigits 10 (name.map fun c => c.toNat - 48)
  if name.all Char.isDigit then
    if position > 0 then
      .error s!"Replacement index {position} out of range for positional args tuple"
    else match String.ofList rest with
      | ".field_name" | "[0]" => .ok field
      | "[9]" => .ok "\x7b\x7d"
      | rest => .error (s!"'{requestKind}' object has no attribute " ++
          Text.quoted (String.ofList (rest.toList.drop 1)))
  else .error (Text.quoted (String.ofList name))

/-- A template filled with the members of a request, which has none by name. -/
def filledByName (inside : List Char) : Except String String :=
  if (Text.placeName inside).1.all Char.isDigit then
    .error "Format string contains positional fields"
  else .error "tuple indices must be integers or slices, not str"

/-- A reply from what may have failed. -/
def Reply.ofExcept (r : Except String String) : Reply :=
  match r with
  | .ok s => .value (.text s)
  | .error message => .refusal message

/-- What computations on a text reply. -/
def textReply (s name : String) : Option Reply :=
  match name with
  | "capitalize" | "casefold" | "isalnum" | "isalpha" | "isascii" | "isdecimal" | "isdigit"
  | "isidentifier" | "islower" | "isnumeric" | "isprintable" | "isspace" | "istitle" | "isupper"
  | "lower" | "swapcase" | "title" | "upper" => some .takesNothing
  | "center" | "expandtabs" | "ljust" | "rjust" | "splitlines" | "zfill" =>
    some (.refusal noWholeNumber)
  | "count" | "find" | "index" | "partition" | "rfind" | "rindex" | "rpartition" =>
    some (.refusal s!"must be str, not {requestKind}")
  | "split" | "rsplit" => some (.refusal s!"must be str or None, not {requestKind}")
  | "encode" => some (.refusal s!"encode() argument 'encoding' must be str, not {requestKind}")
  | "startswith" =>
    if "startswith".toList.isPrefixOf s.toList then some (.value (.bool true))
    else some (.refusal "tuple for startswith must only contain str, not list")
  | "endswith" =>
    if "endswith".toList.isSuffixOf s.toList then some (.value (.bool true))
    else some (.refusal "tuple for endswith must only contain str, not list")
  | "lstrip" | "rstrip" | "strip" => some (.refusal s!"{name} arg must be None or str")
  | "removeprefix" | "removesuffix" =>
    some (.refusal s!"{name}() argument must be str, not {requestKind}")
  | "replace" => some (.refusal "replace expected at least 2 arguments, got 1")
  | "join" => some (.refusal "sequence item 1: expected str instance, list found")
  | "maketrans" =>
    some (.refusal "if you give only one argument to maketrans it must be a dict")
  | "format" => some (.ofExcept (Text.fillTemplate (filledPlace name) s))
  | "format_map" => some (.ofExcept (Text.fillTemplate filledByName s))
  | "translate" => some (.value (.text s))
  | _ => none

/-- What computations on bytes reply. -/
def bytesReply (name : String) : Option Reply :=
  match name with
  | "capitalize" | "isalnum" | "isalpha" | "isascii" | "isdigit" | "islower" | "isspace"
  | "istitle" | "isupper" | "lower" | "swapcase" | "title" | "upper" => some .takesNothing
  | "center" | "expandtabs" | "ljust" | "rjust" | "splitlines" | "zfill" =>
    some (.refusal noWholeNumber)
  | "count" | "find" | "index" | "rfind" | "rindex" =>
    some (.refusal s!"argument should be integer or bytes-like object, not '{requestKind}'")
  | "decode" => some (.refusal s!"decode() argument 'encoding' must be str, not {requestKind}")
  | "startswith" | "endswith" => some (.refusal "a bytes-like object is required, not 'str'")
  | "fromhex" => some (.refusal s!"fromhex() argument must be str, not {requestKind}")
  | "hex" => some (.refusal "sep must be length 1.")
  | "join" => some (.refusal "sequence item 0: expected a bytes-like object, str found")
  | "maketrans" => some (.refusal "maketrans expected 2 arguments, got 1")
  | "replace" => some (.refusal "replace expected at least 2 arguments, got 1")
  | "lstrip" | "rstrip" | "strip" | "partition" | "rpartition" | "removeprefix" | "removesuffix"
  | "split" | "rsplit" | "translate" => some (.refusal noBytes)
  | _ => none

/-- What computations on a list reply: what the list would hold afterwards is not seen. -/
def listReply (name : String) : Option Reply :=
  match name with
  | "clear" | "copy" | "reverse" => some .takesNothing
  | "append" | "extend" => some (.value .null)
  | "count" => some (.value (.int 0))
  | "remove" => some (.refusal "list.remove(x): x not in list")
  | "insert" => some (.refusal "insert expected 2 arguments, got 1")
  | "pop" => some (.refusal noWholeNumber)
  | "sort" => some (.refusal "sort() takes no positional arguments")
  | _ => none

/-- What computations on a row of fixed length reply. -/
def tupleReply (name : String) : Option Reply :=
  match name with
  | "count" => some (.value (.int 0))
  | "index" => some (.refusal "tuple.index(x): x not in tuple")
  | _ => none

/-- What computations on a whole number reply. -/
def wholeReply (name : String) : Option Reply :=
  match name with
  | "as_integer_ratio" | "bit_count" | "bit_length" | "conjugate" => some .takesNothing
  | "to_bytes" => some (.refusal noWholeNumber)
  | "from_bytes" => some (.refusal "'str' object cannot be interpreted as an integer")
  | _ => none

/-- What computations on a double reply. -/
def doubleReply (name : String) : Option Reply :=
  match name with
  | "as_integer_ratio" | "conjugate" | "hex" | "is_integer" => some .takesNothing
  | "fromhex" => some (.refusal "bad argument type for built-in operation")
  | _ => none

/-- What computations on a date reply. -/
def dateReply (name : String) : Option Reply :=
  match name with
  | "ctime" | "isocalendar" | "isoformat" | "isoweekday" | "timetuple" | "today" | "toordinal"
  | "weekday" => some .takesNothing
  | "fromisocalendar" | "fromordinal" | "fromtimestamp" | "replace" =>
    some (.refusal noWholeNumber)
  | "fromisoformat" => some (.refusal "fromisoformat: argument must be str")
  | "strftime" => some (.refusal s!"strftime() argument 1 must be str, not {requestKind}")
  | _ => none

/-- What computations on a moment reply. -/
def momentReply (name : String) : Option Reply :=
  match name with
  | "date" | "dst" | "time" | "timestamp" | "timetz" | "tzname" | "utcnow" | "utcoffset"
  | "utctimetuple" => some .takesNothing
  | "astimezone" | "now" => some (.refusal
      s!"tzinfo argument must be None or of a tzinfo subclass, not type '{requestKind}'")
  | "combine" =>
    some (.refusal s!"combine() argument 1 must be datetime.date, not {requestKind}")
  | "isoformat" =>
    some (.refusal s!"isoformat() argument 1 must be a unicode character, not {requestKind}")
  | "strptime" => some (.refusal "strptime() takes exactly 2 arguments (1 given)")
  | "utcfromtimestamp" => some (.refusal noWholeNumber)
  | name => dateReply name

/-- What computations on a time of day reply. -/
def timeReply (name : String) : Option Reply :=
  match name with
  | "dst" | "tzname" | "utcoffset" => some .takesNothing
  | "fromisoformat" => some (.refusal "fromisoformat: argument must be str")
  | "isoformat" | "strftime" =>
    some (.refusal s!"{name}() argument 1 must be str, not {requestKind}")
  | "replace" => some (.refusal noWholeNumber)
  | _ => none

/-- What computations on a decimal number reply. -/
def decimalReply (name : String) : Option Reply :=
  match name with
  | "adjusted" | "as_integer_ratio" | "as_tuple" | "canonical" | "conjugate" | "copy_abs"
  | "copy_negate" | "is_canonical" | "is_finite" | "is_infinite" | "is_nan" | "is_qnan"
  | "is_signed" | "is_snan" | "is_zero" | "radix" => some .takesNothing
  | "compare" | "compare_signal" | "compare_total" | "compare_total_mag" | "copy_sign"
  | "logical_and" | "logical_or" | "logical_xor" | "max" | "max_mag" | "min" | "min_mag"
  | "next_toward" | "quantize" | "remainder_near" | "rotate" | "same_quantum" | "scaleb"
  | "shift" => some (.refusal noDecimal)
  | "exp" | "is_normal" | "is_subnormal" | "ln" | "log10" | "logb" | "logical_invert"
  | "next_minus" | "next_plus" | "normalize" | "number_class" | "sqrt" | "to_eng_string" =>
    some (.refusal "optional argument must be a context")
  | "fma" => some (.refusal "function missing required argument 'third' (pos 2)")
  | "from_float" => some (.refusal "argument must be int or float")
  | "to_integral" | "to_integral_exact" | "to_integral_value" => some (.refusal noRounding)
  | _ => none

/-- What the computation of a name on a value replies; `none` where there is no such computation. -/
def reply (v : Value) (name : String) : Option Reply :=
  match v with
  | text s => textReply s name
  | bytes _ => bytesReply name
  | list _ => listReply name
  | tuple _ => tupleReply name
  | bool _ | int _ => wholeReply name
  | float _ => doubleReply name
  | date _ => dateReply name
  | moment _ => momentReply name
  | time _ => timeReply name
  | decimal _ => decimalReply name
  | _ => none

/-- What a computation makes of arguments by name: it takes none, and says so with or without the
kind of its value; it takes one thing at all; it knows some names, the first of which is taken by
the request; or it minds the request first. -/
inductive Keywords
  | none
  | noneAtAll
  | oneThing
  | known (names : List String)
  | overlooked
deriving Repr, Inhabited

/-- How computations on a value take arguments by name. -/
def keywords (v : Value) (name : String) : Keywords :=
  match v, name with
  | text _, "encode" | bytes _, "decode" => .known ["encoding", "errors"]
  | text _, "split" | bytes _, "split" | text _, "rsplit" | bytes _, "rsplit" =>
    .known ["sep", "maxsplit"]
  | bytes _, "hex" => .known ["sep", "bytes_per_sep"]
  | bool _, "to_bytes" | int _, "to_bytes" => .known ["length", "byteorder", "signed"]
  | bool _, "from_bytes" | int _, "from_bytes" => .known ["bytes", "byteorder", "signed"]
  | moment _, "fromtimestamp" => .known ["timestamp", "tz"]
  | text _, "expandtabs" | bytes _, "expandtabs" | text _, "splitlines" | bytes _, "splitlines"
  | date _, "strftime" | moment _, "strftime" | moment _, "astimezone" | moment _, "now"
  | time _, "isoformat" | time _, "strftime" => .oneThing
  | text _, "count" | text _, "find" | text _, "index" | text _, "rfind" | text _, "rindex"
  | text _, "startswith" | text _, "endswith" | bytes _, "count" | bytes _, "find"
  | bytes _, "index" | bytes _, "rfind" | bytes _, "rindex" | bytes _, "startswith"
  | bytes _, "endswith" | date _, "fromordinal" | moment _, "fromordinal"
  | moment _, "utcfromtimestamp" | moment _, "strptime" => .noneAtAll
  | text _, "format" | list _, "sort" | date _, "replace" | date _, "fromisocalendar"
  | moment _, "replace" | moment _, "fromisocalendar" | moment _, "combine"
  | moment _, "isoformat" | time _, "replace" | decimal _, "fma" => .overlooked
  | _, _ => .none

/-- What is said of arguments by name, if anything. -/
def keywordRefusal (v : Value) (name : String) (given : List String) : Option String :=
  match given with
  | [] => none
  | first :: more =>
    match v.keywords name with
    | .none => some s!"{v.kindName}.{name}() takes no keyword arguments"
    | .noneAtAll => some s!"{name}() takes no keyword arguments"
    | .oneThing => some s!"{name}() takes at most 1 argument ({more.length + 2} given)"
    | .known names =>
      if given.length ≥ names.length then
        some s!"{name}() takes at most {names.length} arguments ({more.length + 2} given)"
      else if (names.head?.map given.contains).getD false then
        some (s!"argument for {name}() given by name ('{names.headD first}') and position (1)")
      else (given.find? (!names.contains ·)).map fun unknown =>
        s!"'{unknown}' is an invalid keyword argument for {name}()"
    | .overlooked => none

/-- What a value has under a name: what a computation of the name replies to a request with
arguments of the given names, and else the part of the name. -/
def lookUp (v : Value) (name : String) (given : List String) : Attempt Value :=
  match v.reply name with
  | none => .ok (v.part name)
  | some reply =>
    match v.keywordRefusal name given, reply with
    | some message, _ | none, .refusal message => Attempt.mishap (.badKind message)
    | none, .takesNothing =>
      Attempt.mishap (.badKind s!"{v.kindName}.{name}() takes no arguments (1 given)")
    | none, .value answer => .ok answer

end RelGraph.Value
