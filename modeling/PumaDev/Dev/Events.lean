import PumaDev.Go.Quote
import PumaDev.Go.Unmarshal

/-!
# Event lines

`Events.Add` builds one line of JSON with `fmt`: the time, the event's name and
then, in pairs, the keys and values it was handed.  Keys and names go through
`%s`, as they are; values go through `%#v`, which writes an integer in decimal
and a string as a **Go** literal.  The readers of the line decode it as
**JSON**.

* `Events.line` is the text `Add` builds; an odd number of arguments makes its
  loop run off the end of the slice.
* `Call` is a call as the callers make it: constant keys and names without
  characters that need an escape, every key once.
* `unmarshalMap_text` says what decoding the line of any call gives.

`roundTrips_iff` draws the line between the two alphabets: decoding gives back
exactly what was handed in when, and only when, no string value holds a
character that Go escapes in a way JSON does not know.  Terminal escapes in an
application's log are such characters (`not_roundTrips_terminalEscape`).
-/

namespace PumaDev

/-- An argument of `Events.Add`: the callers pass strings and integers. -/
inductive Arg where
  | str (s : GoString)
  | int (n : ℤ)
  deriving DecidableEq

namespace Fmt

/-- The verb `%s`. -/
def verbS : Arg → GoString
  | .str s => s
  | .int n => "%!s(int=".toList ++ Strconv.itoa n ++ [')']

/-- The verb `%#v`. -/
def verbSharpV (T : PrintTable) : Arg → GoString
  | .str s => Strconv.quote T s
  | .int n => Strconv.itoa n

end Fmt

namespace Events

/-- What the loop of `Events.Add` writes; `none` is the panic of an index past
the end of `args`. -/
def fields (T : PrintTable) : List Arg → Option GoString
  | [] => some []
  | [_] => none
  | k :: v :: rest => (fields T rest).map fun tail =>
      ',' :: '"' :: Fmt.verbS k ++ '"' :: ':' :: Fmt.verbSharpV T v ++ tail

/-- The line `Events.Add` builds at the time `now`. -/
def line (T : PrintTable) (now name : GoString) (args : List Arg) : Option GoString :=
  (fields T args).map fun body =>
    '{' :: "\"time\":\"".toList ++ now ++ "\",\"event\":\"".toList ++ name ++ ['"'] ++ body ++
      ['}', '\n']

end Events

/-! ## Calls -/

/-- A text without quotes, backslashes and control characters. -/
structure PlainText where
  text : GoString
  plain : ∀ c ∈ text, Json.Literal c

/-- A text given by its characters is plain if each of them is. -/
def PlainText.of (text : String) (plain : ∀ c ∈ text.toList, Json.Literal c) : PlainText :=
  ⟨text.toList, plain⟩

/-- The key that `eventAdd` puts before the arguments of an app's event. -/
def PlainText.app : PlainText := .of "app" (by decide)

/-- The event of a line that an app prints. -/
def PlainText.consoleLog : PlainText := .of "console_log" (by decide)

/-- The key of that line. -/
def PlainText.message : PlainText := .of "message" (by decide)

/-- A call of `Events.Add` as the callers make it.  The time is what
`time.Time.String` prints: digits, signs and a zone's name. -/
structure Call where
  now : PlainText
  name : PlainText
  /-- The keys and values, in order. -/
  pairs : List (PlainText × Arg)
  /-- No key is given twice, and none is one of the two `Add` writes itself. -/
  distinct : ("time".toList :: "event".toList :: pairs.map fun p => p.1.text).Nodup

namespace Arg

/-- What a value's text is read as, when it is read at all. -/
def json : Arg → Json
  | .str s => .str s
  | .int n => .num n 0

/-- The value has no character on which Go and JSON part. -/
def JsonSafe (T : PrintTable) : Arg → Prop
  | .str s => Strconv.JsonSafe T s
  | .int _ => True

instance (T : PrintTable) : ∀ a : Arg, Decidable (a.JsonSafe T)
  | .str s => inferInstanceAs (Decidable (Strconv.JsonSafe T s))
  | .int _ => .isTrue trivial

/-- The decoded value that gives the argument back. -/
def decoded : Arg → GoAny
  | .str s => .str s
  | .int n => .float64 n

/-- **A value where JSON reads it.** -/
theorem reads_verbSharpV (T : PrintTable) (a : Arg) :
    Json.Reads (Fmt.verbSharpV T a) (if a.JsonSafe T then some a.json else none) := by
  cases a with
  | str s => exact Json.reads_quote T s
  | int n =>
      cases n with
      | ofNat n => exact Json.renders_nat n
      | negSucc n => exact Json.renders_neg (n + 1)

end Arg

namespace Call

variable (c : Call)

/-- The arguments after the event's name. -/
def args : List Arg := c.pairs.flatMap fun p => [.str p.1.text, p.2]

/-- The line of the call. -/
def line (T : PrintTable) : Option GoString := Events.line T c.now.text c.name.text c.args

/-- No value has a character on which Go and JSON part. -/
def JsonSafe (T : PrintTable) : Prop := ∀ p ∈ c.pairs, p.2.JsonSafe T

instance (T : PrintTable) : Decidable (c.JsonSafe T) :=
  List.decidableBAll _ c.pairs

/-- Everything the line says, in order. -/
def entries : List (GoString × Json) :=
  ("time".toList, .str c.now.text) :: ("event".toList, .str c.name.text) ::
    c.pairs.map fun p => (p.1.text, p.2.json)

/-- A member whose value is a plain text between quotes. -/
def plainMember (key : String) (value : PlainText) : Json.Member where
  key := key.toList
  value := '"' :: value.text ++ ['"']
  reads := some (.str value.text)

/-- A member whose value is printed by `%#v`. -/
def pairMember (T : PrintTable) (p : PlainText × Arg) : Json.Member where
  key := p.1.text
  value := Fmt.verbSharpV T p.2
  reads := if p.2.JsonSafe T then some p.2.json else none

theorem plainMember_ok {key : String} (plain : ∀ c ∈ key.toList, Json.Literal c)
    (value : PlainText) : (plainMember key value).Ok where
  key := plain
  value := by
    show Json.Renders ('"' :: value.text ++ ['"']) (.str value.text)
    have literal : Json.Renders ('"' :: value.text ++ ['"'])
        (.str (Json.text ([] ++ value.text.map .char))) :=
      Json.renders_string fun stack =>
        Json.scan_literals value.text value.plain stack false []
    rw [List.nil_append, Json.text_map_char] at literal
    exact literal

theorem pairMember_ok (T : PrintTable) (p : PlainText × Arg) : (pairMember T p).Ok where
  key := p.1.plain
  value := p.2.reads_verbSharpV T

/-- The text of the line, as an object under construction. -/
def text (T : PrintTable) : GoString :=
  Json.objectLine (plainMember "time" c.now)
    (plainMember "event" c.name :: c.pairs.map (pairMember T))

/-- What one turn of the loop writes. -/
theorem pairMember_text (T : PrintTable) (p : PlainText × Arg) (tail : GoString) :
    ',' :: '"' :: Fmt.verbS (.str p.1.text) ++ '"' :: ':' :: Fmt.verbSharpV T p.2 ++ tail =
      (',' :: (pairMember T p).text) ++ tail := rfl

/-- What the loop writes for pairs. -/
theorem fields_args (T : PrintTable) (pairs : List (PlainText × Arg)) :
    Events.fields T (pairs.flatMap fun p => [.str p.1.text, p.2]) =
      some ((pairs.map (pairMember T)).flatMap fun m => ',' :: m.text) := by
  induction pairs with
  | nil => simp [Events.fields]
  | cons p rest ih =>
      rw [List.flatMap_cons]
      show Events.fields T (.str p.1.text :: p.2 :: rest.flatMap _) = _
      rw [Events.fields, ih, Option.map_some, pairMember_text, List.map_cons,
        List.flatMap_cons]

/-- A call with its arguments in pairs does not panic while it builds its
line. -/
theorem line_eq (T : PrintTable) : c.line T = some (c.text T) := by
  rw [line, Events.line, args, fields_args, Option.map_some, text, Json.objectLine]
  simp [Json.Member.text, plainMember]

/-- The members of the line, when each of them can be read. -/
theorem mapM_entry (T : PrintTable) :
    ((plainMember "time" c.now :: plainMember "event" c.name ::
      c.pairs.map (pairMember T)).mapM Json.Member.entry) =
      if c.JsonSafe T then some c.entries else none := by
  have values : ∀ pairs : List (PlainText × Arg),
      (pairs.map (pairMember T)).mapM Json.Member.entry =
        if ∀ p ∈ pairs, p.2.JsonSafe T then
          some (pairs.map fun p => (p.1.text, p.2.json)) else none := by
    intro pairs
    induction pairs with
    | nil => simp
    | cons p rest ih =>
        rw [List.map_cons, List.mapM_cons, ih]
        by_cases here : p.2.JsonSafe T
        · have entry : (pairMember T p).entry = some (p.1.text, p.2.json) := by
            simp [pairMember, Json.Member.entry, here]
          have split : (∀ q ∈ p :: rest, q.2.JsonSafe T) ↔ ∀ q ∈ rest, q.2.JsonSafe T :=
            ⟨fun all q mem => all q (List.mem_cons_of_mem _ mem), fun later =>
              List.forall_mem_cons.mpr ⟨here, later⟩⟩
          rw [entry]
          by_cases later : ∀ q ∈ rest, q.2.JsonSafe T
          · rw [if_pos later, if_pos (split.mpr later)]
            rfl
          · rw [if_neg later, if_neg (mt split.mp later)]
            rfl
        · have refused : (pairMember T p).entry = none := by
            simp [pairMember, Json.Member.entry, here]
          have some_not : ¬ ∀ q ∈ p :: rest, q.2.JsonSafe T := fun all =>
            here (all p List.mem_cons_self)
          rw [refused, if_neg some_not]
          rfl
  rw [List.mapM_cons, List.mapM_cons, values]
  by_cases safe : c.JsonSafe T
  · have all : ∀ p ∈ c.pairs, p.2.JsonSafe T := safe
    rw [if_pos safe, if_pos all]
    rfl
  · have some_not : ¬ ∀ p ∈ c.pairs, p.2.JsonSafe T := safe
    rw [if_neg safe, if_neg some_not]
    rfl

/-- **The line, parsed**: everything it says, or nothing at all. -/
theorem parse_text (T : PrintTable) :
    Json.parse (c.text T) = if c.JsonSafe T then some (.obj c.entries) else none := by
  have ok : ∀ m ∈ plainMember "event" c.name :: c.pairs.map (pairMember T), m.Ok := by
    intro m mem
    rcases List.mem_cons.mp mem with rfl | inPairs
    · exact plainMember_ok (by decide) c.name
    · obtain ⟨p, -, rfl⟩ := List.mem_map.mp inPairs
      exact pairMember_ok T p
  rw [text, Json.parse_objectLine _ _ (plainMember_ok (by decide) c.now) ok, mapM_entry]
  split <;> rfl

/-- The line is flat. -/
theorem depth_entries : Unmarshal.depth (.obj c.entries) = 1 := by
  have flat : ∀ e ∈ c.entries, Unmarshal.depth e.2 = 0 := by
    intro e mem
    simp only [entries, List.mem_cons, List.mem_map] at mem
    rcases mem with rfl | rfl | ⟨p, -, rfl⟩
    · rfl
    · rfl
    · cases p.2 <;> rfl
  rw [Unmarshal.depth, Unmarshal.depthMembers_of_flat flat]

/-- **The line, decoded.** -/
theorem unmarshalMap_text (T : PrintTable) :
    unmarshalMap (c.text T) =
      if c.JsonSafe T then (Unmarshal.members c.entries).map Registry.ofList else none := by
  rw [unmarshalMap, parse_text]
  have shallow : Unmarshal.depth (.obj c.entries) ≤ Unmarshal.maxNestingDepth := by
    rw [c.depth_entries]
    decide
  by_cases safe : c.JsonSafe T
  · rw [if_pos safe, if_pos safe]
    exact if_pos shallow
  · rw [if_neg safe, if_neg safe]

/-- The keys of the line, and of whatever it is decoded to, are distinct. -/
theorem nodup_keys {decoded : List (GoString × GoAny)}
    (each : List.Forall₂ Unmarshal.Decodes c.entries decoded) :
    (decoded.map Prod.fst).Nodup := by
  have keys : c.entries.map Prod.fst =
      "time".toList :: "event".toList :: c.pairs.map fun p => p.1.text := by
    simp [entries, Function.comp_def]
  rw [Unmarshal.keys_of_forall₂ each, keys]
  exact c.distinct

end Call

/-! ## The round trip -/

/-- A call whose integers fit a float64. -/
structure SmallCall extends Call where
  small : ∀ p ∈ pairs, ∀ n, p.2 = .int n → |n| < 2 ^ 53

namespace SmallCall

variable (c : SmallCall)

/-- What a reader should get back: the time, the event's name and exactly the
values that were handed in, under their keys. -/
def expected : List (GoString × GoAny) :=
  ("time".toList, .str c.now.text) :: ("event".toList, .str c.name.text) ::
    c.pairs.map fun p => (p.1.text, p.2.decoded)

/-- The line is one JSON object, and decoding it into a `map[string]any` gives
back what was handed in and nothing else. -/
def RoundTrips (T : PrintTable) : Prop :=
  ∃ text members obj, c.line T = some text ∧ Json.parse text = some (.obj members) ∧
    unmarshalMap text = some obj ∧ ∀ k v, obj.lookup k = some v ↔ (k, v) ∈ c.expected

/-- Each entry of the line decodes to what is expected of it. -/
theorem entries_decoded : List.Forall₂ Unmarshal.Decodes c.entries c.expected := by
  refine .cons ⟨rfl, rfl⟩ (.cons ⟨rfl, rfl⟩ ?_)
  rw [List.forall₂_map_left_iff, List.forall₂_map_right_iff, List.forall₂_same]
  intro p mem
  refine ⟨rfl, ?_⟩
  cases value : p.2 with
  | str s => rfl
  | int n => exact Unmarshal.number_of_small (c.small p mem n value)

/-- **The exact domain of the round trip.**  Decoding an event line gives back
the event's name and exactly the given values if and only if no string value
holds a character that Go escapes in a way JSON does not know. -/
theorem roundTrips_iff (T : PrintTable) : c.RoundTrips T ↔ c.JsonSafe T := by
  constructor
  · rintro ⟨text, members, obj, line, parsed, -⟩
    by_contra part
    rw [c.line_eq T, Option.some.injEq] at line
    rw [← line, c.parse_text T, if_neg part] at parsed
    cases parsed
  · intro safe
    have decodes : unmarshalMap (c.text T) = some (Registry.ofList c.expected) := by
      rw [c.unmarshalMap_text T, if_pos safe,
        Unmarshal.members_eq_some_iff.mpr c.entries_decoded, Option.map_some]
    refine ⟨c.text T, c.entries, Registry.ofList c.expected, c.line_eq T, ?_, decodes,
      fun k v => Registry.lookup_ofList (c.nodup_keys c.entries_decoded)⟩
    rw [c.parse_text T, if_pos safe]

/-- A log line that switches a terminal's colours off, as `handleLog` passes it
on. -/
def terminalEscape : SmallCall where
  now := .of "2024-05-01 10:00:00 +0000 UTC" (by decide)
  name := .consoleLog
  pairs := [(.app, .str "blog".toList), (.message, .str "\x1b[0mready".toList)]
  distinct := by decide
  small := by simp

/-- The line of that call is not JSON. -/
theorem not_roundTrips_terminalEscape :
    ¬ terminalEscape.RoundTrips PrintTable.asciiOnly := by
  rintro ⟨text, members, obj, line, parsed, -⟩
  have refused : (terminalEscape.line PrintTable.asciiOnly).bind Json.parse = none := by
    decide
  rw [line, Option.bind_some, parsed] at refused
  cases refused

end SmallCall

end PumaDev
