import Mathlib.Data.List.Forall2
import PumaDev.Lib.JsonText

/-!
# Printing JSON

What a producer of nested JSON has to know about the reader.  `Stands n text v` says that the
text is read as the value wherever a value may stand, whatever it is nested in, as long as
`n` more levels fit; a number ends only at the character behind it, which is why something has
to follow.  An array or an object ends by itself: it is `Closed`, and `Closed.parse` reads it
as a whole document.

The texts of the elements and members are put together by `arrText` and `objText`, without
white space; white space is added afterwards, in `PumaDev.Lib.JsonIndent`.
-/

namespace PumaDev

namespace Json

/-! ## The bodies of string literals -/

/-- The body of a string literal, or a part of it, that spells these characters. -/
def SpellsText (body s : List Char) : Prop :=
  ∃ ps, List.Forall₂ Spells ps s ∧ ∀ stack isKey acc,
    scan ⟨stack, .str isKey acc⟩ body = some ⟨stack, .str isKey (acc ++ ps)⟩

theorem spellsText_nil : SpellsText [] [] :=
  ⟨[], .nil, fun stack isKey acc => by rw [scan_nil, List.append_nil]⟩

theorem SpellsText.append {body body' s s' : List Char} (front : SpellsText body s)
    (back : SpellsText body' s') : SpellsText (body ++ body') (s ++ s') := by
  obtain ⟨ps, spells, reads⟩ := front
  obtain ⟨ps', spells', reads'⟩ := back
  refine ⟨ps ++ ps', List.rel_append spells spells', fun stack isKey acc => ?_⟩
  rw [scan_append, reads, Option.bind_some, reads', List.append_assoc]

/-- A character that stands for itself. -/
theorem spellsText_literal {c : Char} (literal : Literal c) : SpellsText [c] [c] :=
  ⟨[.char c], .cons (Or.inl rfl) .nil, fun stack isKey acc => by
    rw [scan_of_read (read_literal literal stack isKey acc), scan_nil]⟩

/-! ## Texts of values -/

/-- A character that ends a number. -/
def isDelimiter (c : Char) : Bool := c = ',' || c = '}' || c = ']' || isSpace c

/-- **The text stands for the value**, wherever `n` more levels may be opened. -/
structure Stands (n : ℕ) (text : List Char) (v : Json) : Prop where
  /-- It begins like a value. -/
  begins : ∃ c t, text = c :: t ∧ isSpace c = false ∧ c ≠ ']'
  read : ∀ stack c rest, stack.length + n ≤ maxNestingDepth → isDelimiter c = true →
    scan ⟨stack, .value⟩ (text ++ c :: rest) = scan (deliver v stack) (c :: rest)

/-- It ends by itself. -/
structure Closed (n : ℕ) (text : List Char) (v : Json) : Prop where
  begins : ∃ c t, text = c :: t ∧ isSpace c = false ∧ c ≠ ']'
  read : ∀ stack, stack.length + n ≤ maxNestingDepth →
    scan ⟨stack, .value⟩ text = some (deliver v stack)

theorem Closed.stands {n : ℕ} {text : List Char} {v : Json} (closed : Closed n text v) :
    Stands n text v :=
  ⟨closed.begins, fun stack c rest fits _ => by
    rw [scan_append, closed.read stack fits, Option.bind_some]⟩

theorem Stands.mono {n m : ℕ} {text : List Char} {v : Json} (stands : Stands n text v)
    (le : n ≤ m) : Stands m text v :=
  ⟨stands.begins, fun stack c rest fits => stands.read stack c rest (by omega)⟩

/-- **A document**, and the same with a line feed behind it. -/
theorem Closed.parse {n : ℕ} {text : List Char} {v : Json} (closed : Closed n text v)
    (fits : n ≤ maxNestingDepth) : parse text = some v ∧ Json.parse (text ++ ['\n']) = some v := by
  have whole := closed.read [] (by simpa using fits)
  constructor
  · rw [Json.parse, whole]
    rfl
  · rw [Json.parse, scan_append, whole]
    rfl

/-! ## Values that are not nested -/

theorem closed_null : Closed 0 "null".toList .null :=
  ⟨⟨'n', _, rfl, by decide, by decide⟩, fun _ _ => rfl⟩

theorem closed_bool (b : Bool) :
    Closed 0 (if b then "true".toList else "false".toList) (.bool b) := by
  cases b
  · exact ⟨⟨'f', _, rfl, by decide, by decide⟩, fun _ _ => rfl⟩
  · exact ⟨⟨'t', _, rfl, by decide, by decide⟩, fun _ _ => rfl⟩

/-- A string literal. -/
theorem closed_str {body s : List Char} (spells : SpellsText body s) :
    Closed 0 ('"' :: body ++ ['"']) (.str s) := by
  obtain ⟨ps, same, reads⟩ := spells
  refine ⟨⟨'"', _, rfl, by decide, by decide⟩, fun stack _ => ?_⟩
  rw [List.cons_append, scan_open_quote, scan_append, reads, Option.bind_some, List.nil_append,
    scan_of_read (t := deliver (.str s) stack) (by
      simp [read, readString, endString, text_of_spells same]), scan_nil]

/-- An integer ends at every delimiter. -/
theorem scan_number_end (neg : Bool) (n : ℕ) (stack : List Frame) {c : Char}
    (stop : isDelimiter c = true) (rest : List Char) :
    scan ⟨stack, .num (intNumber neg n)⟩ (c :: rest) =
      scan (deliver (.num (if neg then -(n : ℤ) else n) 0) stack) (c :: rest) := by
  have ends : (intNumber neg n).read c = none := by
    simp only [isDelimiter, isSpace, Bool.or_eq_true, decide_eq_true_eq] at stop
    rcases stop with ((rfl | rfl) | rfl) | ((rfl | rfl) | rfl) | rfl <;>
      by_cases zero : n = 0 <;> simp [intNumber, Number.read, Number.extend, isDigit, zero]
  have value : (intNumber neg n).finish =
      some (.num (if neg then -(n : ℤ) else n) 0) := by
    by_cases zero : n = 0 <;> simp [intNumber, Number.finish, zero]
  have same : read ⟨stack, .num (intNumber neg n)⟩ c =
      read (deliver (.num (if neg then -(n : ℤ) else n) 0) stack) c := by
    simp only [read, ends, value, Option.bind_some]
    rcases stack with _ | ⟨frame, stack⟩
    · rfl
    · cases frame <;> rfl
  rw [scan_cons, scan_cons, same]

/-- The decimal text of an integer. -/
def intText : ℤ → List Char
  | .ofNat n => Nat.toDigits 10 n
  | .negSucc n => '-' :: Nat.toDigits 10 (n + 1)

theorem stands_int (i : ℤ) : Stands 0 (intText i) (.num i 0) := by
  have digit : ∀ n : ℕ, ∃ c t, Nat.toDigits 10 n = c :: t ∧ isSpace c = false ∧ c ≠ ']' := by
    intro n
    obtain ⟨c, t, split⟩ := List.exists_cons_of_ne_nil (Nat.toDigits_ne_nil (b := 10) (n := n))
    have numeral : c.isDigit = true := Nat.isDigit_of_mem_toDigits (b := 10) (by decide)
      (by decide) (by rw [split]; exact List.mem_cons_self)
    refine ⟨c, t, split, ?_, ?_⟩
    · by_contra space
      simp only [isSpace, Bool.not_eq_false, Bool.or_eq_true, decide_eq_true_eq] at space
      rcases space with ((rfl | rfl) | rfl) | rfl <;> exact absurd numeral (by decide)
    · rintro rfl
      exact absurd numeral (by decide)
  cases i with
  | ofNat n =>
      refine ⟨digit n, fun stack c rest _ stop => ?_⟩
      rw [intText, scan_append, scan_toDigits n .start, Option.bind_some,
        scan_number_end false n stack stop]
      rfl
  | negSucc n =>
      refine ⟨⟨'-', _, rfl, by decide, by decide⟩, fun stack c rest _ stop => ?_⟩
      have minus : read ⟨stack, .value⟩ '-' =
          some ⟨stack, .num ⟨.minus, true, 0, 0, false, 0⟩⟩ := rfl
      rw [intText, List.cons_append, scan_of_read minus, scan_append,
        scan_toDigits (n + 1) .minus, Option.bind_some, scan_number_end true (n + 1) stack stop]
      rfl

/-! ## Arrays -/

/-- The elements of an array behind the first one. -/
def moreElements (ts : List (List Char)) : List Char := ts.flatMap fun t => ',' :: t

/-- An array. -/
def arrText : List (List Char) → List Char
  | [] => "[]".toList
  | t :: ts => '[' :: t ++ moreElements ts ++ [']']

/-- What follows an element starts with a comma or with the bracket. -/
theorem moreElements_head (ts : List (List Char)) (close : Char) (rest : List Char)
    (closer : isDelimiter close = true) :
    ∃ c tail, isDelimiter c = true ∧ moreElements ts ++ close :: rest = c :: tail := by
  cases ts with
  | nil => exact ⟨close, rest, closer, rfl⟩
  | cons t ts => exact ⟨',', _, by decide, rfl⟩

theorem scan_moreElements {n : ℕ} {ts : List (List Char)} {vs : List Json}
    (each : List.Forall₂ (Stands n) ts vs) {stack : List Frame}
    (fits : stack.length + (n + 1) ≤ maxNestingDepth) (items : List Json) :
    scan ⟨.arr items :: stack, .afterValue⟩ (moreElements ts ++ [']']) =
      some (deliver (.arr (items ++ vs)) stack) := by
  induction each generalizing items with
  | nil =>
      have closing : read ⟨.arr items :: stack, .afterValue⟩ ']' =
          some (deliver (.arr items) stack) := rfl
      rw [List.append_nil]
      show scan _ [']'] = _
      rw [scan_of_read closing, scan_nil]
  | @cons t v ts vs stands rest ih =>
      have comma : read ⟨.arr items :: stack, .afterValue⟩ ',' =
          some ⟨.arr items :: stack, .value⟩ := rfl
      obtain ⟨c, tail, stop, next⟩ := moreElements_head ts ']' [] (by decide)
      show scan _ (((',' :: t) ++ moreElements ts) ++ [']']) = _
      rw [List.append_assoc, List.cons_append, scan_of_read comma, next,
        stands.read _ c tail (by rw [List.length_cons]; omega) stop, ← next]
      show scan ⟨.arr (items ++ [v]) :: stack, .afterValue⟩ _ = _
      rw [ih (items ++ [v]), List.append_assoc, List.singleton_append]

/-- **An array.** -/
theorem closed_arr {n : ℕ} {ts : List (List Char)} {vs : List Json}
    (each : List.Forall₂ (Stands n) ts vs) : Closed (n + 1) (arrText ts) (.arr vs) := by
  have opening : ∀ stack : List Frame, stack.length + (n + 1) ≤ maxNestingDepth →
      read ⟨stack, .value⟩ '[' = some ⟨.arr [] :: stack, .valueOrEnd⟩ := by
    intro stack fits
    have room : stack.length < maxNestingDepth := by omega
    simp [read, beginValue, isSpace, push, room]
  cases each with
  | nil =>
      refine ⟨⟨'[', _, rfl, by decide, by decide⟩, fun stack fits => ?_⟩
      show scan _ ['[', ']'] = _
      rw [scan_of_read (opening stack fits), scan_of_read (t := deliver (.arr []) stack) rfl,
        scan_nil]
  | @cons t v ts vs stands rest =>
      refine ⟨⟨'[', _, rfl, by decide, by decide⟩, fun stack fits => ?_⟩
      obtain ⟨first, t', begins, noSpace, notEnd⟩ := stands.begins
      obtain ⟨c, tail, stop, next⟩ := moreElements_head ts ']' [] (by decide)
      -- the first element may as well stand where a value has to
      have same : scan ⟨.arr [] :: stack, .valueOrEnd⟩ (t ++ c :: tail) =
          scan ⟨.arr [] :: stack, .value⟩ (t ++ c :: tail) := by
        rw [begins, List.cons_append, scan_cons, scan_cons]
        congr 1
        simp [read, noSpace, notEnd]
      show scan _ (('[' :: t ++ moreElements ts) ++ [']']) = _
      rw [List.append_assoc, List.cons_append, scan_of_read (opening stack fits), next, same,
        stands.read _ c tail (by rw [List.length_cons]; omega) stop, ← next]
      exact scan_moreElements rest fits [v]

/-! ## Objects -/

/-- A member: the body of its key, and its value. -/
def memberText (m : List Char × List Char) : List Char := '"' :: m.1 ++ '"' :: ':' :: m.2

/-- The members of an object behind the first one. -/
def moreMembers (ms : List (List Char × List Char)) : List Char :=
  ms.flatMap fun m => ',' :: memberText m

/-- An object. -/
def objText : List (List Char × List Char) → List Char
  | [] => "\x7b\x7d".toList
  | m :: ms => '{' :: memberText m ++ moreMembers ms ++ ['}']

/-- The text of a member stands for the member. -/
structure StandsMember (n : ℕ) (m : List Char × List Char) (e : List Char × Json) : Prop where
  key : SpellsText m.1 e.1
  value : Stands n m.2 e.2

theorem moreMembers_head (ms : List (List Char × List Char)) :
    ∃ c tail, isDelimiter c = true ∧ moreMembers ms ++ ['}'] = c :: tail := by
  cases ms with
  | nil => exact ⟨'}', [], by decide, rfl⟩
  | cons m ms => exact ⟨',', _, by decide, rfl⟩

/-- One member, where a key may stand. -/
theorem scan_memberText {n : ℕ} {m : List Char × List Char} {e : List Char × Json}
    (stands : StandsMember n m e) {mode : Mode} (place : mode = .keyOrEnd ∨ mode = .key)
    {stack : List Frame} (fits : stack.length + (n + 1) ≤ maxNestingDepth)
    (members : List (List Char × Json)) (old : List Char) {c : Char}
    (stop : isDelimiter c = true) (rest : List Char) :
    scan ⟨.obj members old :: stack, mode⟩ (memberText m ++ c :: rest) =
      scan ⟨.obj (members ++ [e]) [] :: stack, .afterValue⟩ (c :: rest) := by
  obtain ⟨ps, same, reads⟩ := stands.key
  have opening : read ⟨.obj members old :: stack, mode⟩ '"' =
      some ⟨.obj members old :: stack, .str true []⟩ := by
    rcases place with rfl | rfl <;> rfl
  have closing : read ⟨.obj members old :: stack, .str true ps⟩ '"' =
      some ⟨.obj members e.1 :: stack, .colon⟩ := by
    simp [read, readString, endString, text_of_spells same]
  have colon : read ⟨.obj members e.1 :: stack, .colon⟩ ':' =
      some ⟨.obj members e.1 :: stack, .value⟩ := rfl
  have split : memberText m ++ c :: rest =
      '"' :: (m.1 ++ '"' :: ':' :: (m.2 ++ c :: rest)) := by simp [memberText]
  rw [split, scan_of_read opening, scan_append, reads, Option.bind_some, List.nil_append,
    scan_of_read closing, scan_of_read colon,
    stands.value.read _ c rest (by rw [List.length_cons]; omega) stop]
  rfl

theorem scan_moreMembers {n : ℕ} {ms : List (List Char × List Char)}
    {es : List (List Char × Json)} (each : List.Forall₂ (StandsMember n) ms es)
    {stack : List Frame} (fits : stack.length + (n + 1) ≤ maxNestingDepth)
    (members : List (List Char × Json)) :
    scan ⟨.obj members [] :: stack, .afterValue⟩ (moreMembers ms ++ ['}']) =
      some (deliver (.obj (members ++ es)) stack) := by
  induction each generalizing members with
  | nil =>
      have closing : read ⟨.obj members [] :: stack, .afterValue⟩ '}' =
          some (deliver (.obj members) stack) := rfl
      rw [List.append_nil]
      show scan _ ['}'] = _
      rw [scan_of_read closing, scan_nil]
  | @cons m e ms es stands rest ih =>
      have comma : read ⟨.obj members [] :: stack, .afterValue⟩ ',' =
          some ⟨.obj members [] :: stack, .key⟩ := rfl
      obtain ⟨c, tail, stop, next⟩ := moreMembers_head ms
      show scan _ (((',' :: memberText m) ++ moreMembers ms) ++ ['}']) = _
      rw [List.append_assoc, List.cons_append, scan_of_read comma, next,
        scan_memberText stands (Or.inr rfl) fits members [] stop, ← next, ih (members ++ [e]),
        List.append_assoc, List.singleton_append]

/-- **An object.** -/
theorem closed_obj {n : ℕ} {ms : List (List Char × List Char)} {es : List (List Char × Json)}
    (each : List.Forall₂ (StandsMember n) ms es) : Closed (n + 1) (objText ms) (.obj es) := by
  have opening : ∀ stack : List Frame, stack.length + (n + 1) ≤ maxNestingDepth →
      read ⟨stack, .value⟩ '{' = some ⟨.obj [] [] :: stack, .keyOrEnd⟩ := by
    intro stack fits
    have room : stack.length < maxNestingDepth := by omega
    simp [read, beginValue, isSpace, push, room]
  cases each with
  | nil =>
      refine ⟨⟨'{', _, rfl, by decide, by decide⟩, fun stack fits => ?_⟩
      show scan _ ['{', '}'] = _
      rw [scan_of_read (opening stack fits), scan_of_read (t := deliver (.obj []) stack) rfl,
        scan_nil]
  | @cons m e ms es stands rest =>
      refine ⟨⟨'{', _, rfl, by decide, by decide⟩, fun stack fits => ?_⟩
      obtain ⟨c, tail, stop, next⟩ := moreMembers_head ms
      show scan _ (('{' :: memberText m ++ moreMembers ms) ++ ['}']) = _
      rw [List.append_assoc, List.cons_append, scan_of_read (opening stack fits), next,
        scan_memberText stands (Or.inl rfl) fits [] [] stop, ← next]
      exact scan_moreMembers rest fits [e]

end Json

end PumaDev
