import Mathlib.Data.List.Basic
import Mathlib.Data.List.Monad
import Mathlib.Tactic.IntervalCases
import PumaDev.Lib.Json

/-!
# Building a JSON line from pieces

What a producer of JSON text has to know about the reader of
`PumaDev.Lib.Json`: how a string literal, a decimal integer and the members of
an object are read, whatever they are nested in.

A value's text is described by `Reads text r`: read as `v` in every place where
a value may stand (`r = some v`), or refused in every such place (`r = none`).
`parse_objectLine` then reads a whole line `{"k₁":t₁,…,"kₙ":tₙ}`: it is an object
with exactly the members whose texts are read, and it is refused as soon as one
of them is.
-/

namespace PumaDev

namespace Json

/-! ## Reading piece by piece -/

@[simp] theorem scan_nil (s : Scan) : scan s [] = some s := rfl

theorem scan_cons (s : Scan) (c : Char) (cs : List Char) :
    scan s (c :: cs) = (read s c).bind fun t => scan t cs := rfl

/-- **Reading a concatenation is reading its parts.** -/
theorem scan_append (s : Scan) (as bs : List Char) :
    scan s (as ++ bs) = (scan s as).bind fun t => scan t bs := by
  simp only [scan, List.foldlM_append, Option.bind_eq_bind]

/-- One character read, when the state it leads to is known. -/
theorem scan_of_read {s t : Scan} {c : Char} (h : read s c = some t)
    (cs : List Char) : scan s (c :: cs) = scan t cs := by
  rw [scan_cons, h, Option.bind_some]

/-- A character the state cannot take ends the reading. -/
theorem scan_of_refused {s : Scan} {c : Char} (h : read s c = none)
    (cs : List Char) : scan s (c :: cs) = none := by
  rw [scan_cons, h, Option.bind_none]

/-! ## String literals -/

/-- A character that stands for itself inside a string literal. -/
structure Literal (c : Char) : Prop where
  not_quote : c ≠ '"'
  not_escape : c ≠ '\\'
  not_control : 0x20 ≤ c.toNat

instance (c : Char) : Decidable (Literal c) :=
  decidable_of_iff (c ≠ '"' ∧ c ≠ '\\' ∧ 0x20 ≤ c.toNat)
    ⟨fun h => ⟨h.1, h.2.1, h.2.2⟩, fun h => ⟨h.1, h.2, h.3⟩⟩

-- Decided along the text; the search also knows how to try every character there is.
instance (cs : List Char) : Decidable (∀ c ∈ cs, Literal c) := List.decidableBAll _ cs

theorem read_literal {c : Char} (h : Literal c) (stack : List Frame)
    (isKey : Bool) (acc : List Piece) :
    read ⟨stack, .str isKey acc⟩ c = some ⟨stack, .str isKey (acc ++ [.char c])⟩ := by
  simp [read, readString, h.not_quote, h.not_escape, Nat.not_lt.mpr h.not_control]

/-- A run of characters that stand for themselves. -/
theorem scan_literals (cs : List Char) (h : ∀ c ∈ cs, Literal c)
    (stack : List Frame) (isKey : Bool) (acc : List Piece) :
    scan ⟨stack, .str isKey acc⟩ cs =
      some ⟨stack, .str isKey (acc ++ cs.map .char)⟩ := by
  induction cs generalizing acc with
  | nil => simp
  | cons c rest ih =>
      rw [scan_of_read (read_literal (h c (by simp)) stack isKey acc),
        ih fun d mem => h d (List.mem_cons_of_mem _ mem)]
      simp

/-- A scalar value is not a surrogate. -/
theorem not_surrogate (c : Char) :
    isHighSurrogate c.toNat = false ∧ isLowSurrogate c.toNat = false := by
  have valid : c.toNat < 0xD800 ∨ 0xDFFF < c.toNat := by
    rcases c.valid with low | ⟨high, -⟩
    · exact Or.inl low
    · exact Or.inr high
  simp only [isHighSurrogate, isLowSurrogate, Bool.and_eq_false_iff,
    decide_eq_false_iff_not]
  omega

/-- The piece `p` is a spelling of the character `c`. -/
def Spells (p : Piece) (c : Char) : Prop := p = .char c ∨ p = .unit c.toNat

/-- The text of a literal each of whose pieces spells one character: no two
escapes can form a pair, since a character is never a surrogate. -/
theorem text_of_spells {ps : List Piece} {cs : List Char}
    (h : List.Forall₂ Spells ps cs) : text ps = cs := by
  induction h with
  | nil => rfl
  | @cons p c ps cs spells rest ih =>
      rcases spells with rfl | rfl
      · rw [text, ih]
      · have lone : loneUnit c.toNat = c := by
          simp [loneUnit, not_surrogate c, Char.ofNat_toNat]
        cases ps with
        | nil => simp [text, lone, ← ih]
        | cons q qs =>
            cases q with
            | char d => simp [text, lone, ← ih]
            | unit m => simp [text, lone, (not_surrogate c).1, ← ih]

/-- The text of a run of plain characters. -/
theorem text_map_char (cs : List Char) : text (cs.map .char) = cs := by
  refine text_of_spells ?_
  induction cs with
  | nil => exact .nil
  | cons c rest ih => exact .cons (Or.inl rfl) ih

/-! ## Texts that stand for a value -/

/-- In every place where a value may stand, before a comma or a closing brace,
`cs` is read as `v`. -/
def Renders (cs : List Char) (v : Json) : Prop :=
  ∀ (stack : List Frame) (c : Char) (rest : List Char), c = ',' ∨ c = '}' →
    scan ⟨stack, .value⟩ (cs ++ c :: rest) = scan (deliver v stack) (c :: rest)

/-- In every place where a value may stand, `cs` makes the reader fail. -/
def Refused (cs : List Char) : Prop :=
  ∀ (stack : List Frame) (rest : List Char),
    scan ⟨stack, .value⟩ (cs ++ rest) = none

/-- What `cs` is read as where a value may stand; `none` for a refusal. -/
def Reads (cs : List Char) : Option Json → Prop
  | some v => Renders cs v
  | none => Refused cs

theorem scan_open_quote (stack : List Frame) (cs : List Char) :
    scan ⟨stack, .value⟩ ('"' :: cs) = scan ⟨stack, .str false []⟩ cs :=
  scan_of_read (by rfl) cs

/-- A string literal whose body is read as the pieces `ps`. -/
theorem renders_string {body : List Char} {ps : List Piece}
    (h : ∀ stack, scan ⟨stack, .str false []⟩ body = some ⟨stack, .str false ps⟩) :
    Renders ('"' :: body ++ ['"']) (.str (text ps)) := by
  intro stack c rest _
  rw [List.append_assoc, List.cons_append, scan_open_quote, scan_append, h,
    Option.bind_some, List.singleton_append]
  exact scan_of_read (by simp [read, readString, endString]) _

/-- A string literal whose body cannot be read. -/
theorem refused_string {body : List Char}
    (h : ∀ stack, scan ⟨stack, .str false []⟩ body = none) :
    Refused ('"' :: body ++ ['"']) := by
  intro stack rest
  rw [List.append_assoc, List.cons_append, scan_open_quote, scan_append, h,
    Option.bind_none]

/-! ### Decimal integers -/

theorem digit_toNat {d : ℕ} (h : d < 10) : (Nat.digitChar d).toNat = 48 + d := by
  interval_cases d <;> rfl

theorem isDigit_digitChar {d : ℕ} (h : d < 10) : isDigit (Nat.digitChar d) = true := by
  interval_cases d <;> rfl

theorem digitValue_digitChar {d : ℕ} (h : d < 10) : digitValue (Nat.digitChar d) = d := by
  rw [digitValue, digit_toNat h]
  omega

/-- The state of the reader after the digits of an integer. -/
def intNumber (neg : Bool) (n : ℕ) : Number :=
  ⟨if n = 0 then .zero else .int, neg, n, 0, false, 0⟩

/-- What a number in the making is, just before its first digit. -/
inductive BeforeDigits : Bool → Mode → Prop where
  | start : BeforeDigits false .value
  | minus : BeforeDigits true (.num ⟨.minus, true, 0, 0, false, 0⟩)

/-- The digits of a natural number, read one by one. -/
theorem scan_toDigits (n : ℕ) {neg : Bool} {mode : Mode}
    (before : BeforeDigits neg mode) (stack : List Frame) :
    scan ⟨stack, mode⟩ (Nat.toDigits 10 n) = some ⟨stack, .num (intNumber neg n)⟩ := by
  induction n using Nat.strongRecOn with
  | ind n ih =>
      by_cases small : n < 10
      · rw [Nat.toDigits_of_lt_base small]
        cases before <;> interval_cases n <;> rfl
      · have digit : n % 10 < 10 := Nat.mod_lt _ (by decide)
        have leading : n / 10 ≠ 0 := by omega
        have value : n / 10 * 10 + n % 10 = n := by omega
        have next : read ⟨stack, .num (intNumber neg (n / 10))⟩ (Nat.digitChar (n % 10)) =
            some ⟨stack, .num (intNumber neg n)⟩ := by
          simp [read, Number.read, intNumber, leading, isDigit_digitChar digit,
            digitValue_digitChar digit, value, show n ≠ 0 by omega]
        rw [Nat.toDigits_of_base_le (by decide) (by omega), scan_append,
          ih (n / 10) (by omega), Option.bind_some, scan_of_read next, scan_nil]

/-- After a comma or a closing brace, an integer is a finished value. -/
theorem scan_intNumber (neg : Bool) (n : ℕ) (stack : List Frame) {c : Char}
    (stop : c = ',' ∨ c = '}') (rest : List Char) :
    scan ⟨stack, .num (intNumber neg n)⟩ (c :: rest) =
      scan (deliver (.num (if neg then -(n : ℤ) else n) 0) stack) (c :: rest) := by
  have ends : (intNumber neg n).read c = none := by
    rcases stop with rfl | rfl <;> by_cases zero : n = 0 <;>
      simp [intNumber, Number.read, Number.extend, isDigit, zero]
  have value : (intNumber neg n).finish =
      some (.num (if neg then -(n : ℤ) else n) 0) := by
    by_cases zero : n = 0 <;> simp [intNumber, Number.finish, zero]
  have same : read ⟨stack, .num (intNumber neg n)⟩ c =
      read (deliver (.num (if neg then -(n : ℤ) else n) 0) stack) c := by
    simp only [read, ends, value, Option.bind_some]
    rcases stack with _ | ⟨frame, stack⟩
    · rfl
    · cases frame <;> rfl
  rw [scan_cons, scan_cons, same]

theorem renders_nat (n : ℕ) : Renders (Nat.toDigits 10 n) (.num n 0) := by
  intro stack c rest stop
  rw [scan_append, scan_toDigits n .start, Option.bind_some,
    scan_intNumber false n stack stop]
  rfl

theorem renders_neg (n : ℕ) :
    Renders ('-' :: Nat.toDigits 10 n) (.num (-(n : ℤ)) 0) := by
  intro stack c rest stop
  have minus : read ⟨stack, .value⟩ '-' =
      some ⟨stack, .num ⟨.minus, true, 0, 0, false, 0⟩⟩ := by rfl
  rw [List.cons_append, scan_of_read minus, scan_append,
    scan_toDigits n .minus, Option.bind_some, scan_intNumber true n stack stop]
  rfl

/-! ## Objects -/

/-- A member of an object under construction: its key, the text of its value
and what that text is read as. -/
structure Member where
  key : List Char
  value : List Char
  reads : Option Json

/-- The text of a member. -/
def Member.text (m : Member) : List Char := '"' :: m.key ++ '"' :: ':' :: m.value

/-- The key has no character that needs an escape, and the text of the value is
read as the member says. -/
structure Member.Ok (m : Member) : Prop where
  key : ∀ c ∈ m.key, Literal c
  value : Reads m.value m.reads

/-- The entry the member contributes to the object, unless it is refused. -/
def Member.entry (m : Member) : Option (List Char × Json) :=
  m.reads.map fun v => (m.key, v)

/-- A key and its colon, where a key may stand. -/
theorem scan_key {mode : Mode} (place : mode = .keyOrEnd ∨ mode = .key)
    (members : List (List Char × Json)) (old key : List Char) (stack : List Frame)
    (plain : ∀ c ∈ key, Literal c) (rest : List Char) :
    scan ⟨.obj members old :: stack, mode⟩ ('"' :: key ++ '"' :: ':' :: rest) =
      scan ⟨.obj members key :: stack, .value⟩ rest := by
  have opening : read ⟨.obj members old :: stack, mode⟩ '"' =
      some ⟨.obj members old :: stack, .str true []⟩ := by
    rcases place with rfl | rfl <;> rfl
  have closing : read ⟨.obj members old :: stack, .str true (key.map .char)⟩ '"' =
      some ⟨.obj members key :: stack, .colon⟩ := by
    simp [read, readString, endString, text_map_char]
  have colon : read ⟨.obj members key :: stack, .colon⟩ ':' =
      some ⟨.obj members key :: stack, .value⟩ := by rfl
  rw [List.cons_append, scan_of_read opening, scan_append,
    scan_literals key plain, Option.bind_some, List.nil_append,
    scan_of_read closing, scan_of_read colon]

/-- One member, up to the comma or brace that follows it. -/
theorem scan_member {mode : Mode} (place : mode = .keyOrEnd ∨ mode = .key)
    (members : List (List Char × Json)) (old : List Char) (stack : List Frame)
    {m : Member} (ok : m.Ok) {c : Char} (stop : c = ',' ∨ c = '}')
    (rest : List Char) :
    scan ⟨.obj members old :: stack, mode⟩ (m.text ++ c :: rest) =
      m.entry.bind fun e =>
        scan ⟨.obj (members ++ [e]) [] :: stack, .afterValue⟩ (c :: rest) := by
  have head : m.text ++ c :: rest =
      '"' :: m.key ++ '"' :: ':' :: (m.value ++ c :: rest) := by
    simp [Member.text]
  rw [head, scan_key place members old m.key stack ok.key]
  have value := ok.value
  rcases hreads : m.reads with _ | v
  · rw [hreads] at value
    rw [Member.entry, hreads, Option.map_none, Option.bind_none]
    exact value _ _
  · rw [hreads] at value
    rw [Member.entry, hreads, Option.map_some, Option.bind_some]
    exact value _ c rest stop

/-- The members after the first one, and the brace that closes the object. -/
theorem scan_members (ms : List Member) (ok : ∀ m ∈ ms, m.Ok)
    (members : List (List Char × Json)) (rest : List Char) :
    scan ⟨[.obj members []], .afterValue⟩
        (ms.flatMap (fun m => ',' :: m.text) ++ '}' :: rest) =
      (ms.mapM Member.entry).bind fun es =>
        scan ⟨[], .done (.obj (members ++ es))⟩ rest := by
  induction ms generalizing members with
  | nil =>
      simp only [List.flatMap_nil, List.nil_append, List.mapM_nil,
        Option.pure_def, Option.bind_some, List.append_nil]
      exact scan_of_read (by rfl) rest
  | cons m ms ih =>
      have later := ih fun m' mem => ok m' (List.mem_cons_of_mem _ mem)
      have comma : read ⟨[.obj members []], .afterValue⟩ ',' =
          some ⟨[.obj members []], .key⟩ := by rfl
      -- what follows the member starts with a comma or with the brace
      obtain ⟨c, tail, stop, hnext⟩ : ∃ c tail, (c = ',' ∨ c = '}') ∧
          ms.flatMap (fun m => ',' :: m.text) ++ '}' :: rest = c :: tail := by
        cases ms with
        | nil => exact ⟨'}', rest, Or.inr rfl, rfl⟩
        | cons n ns => exact ⟨',', _, Or.inl rfl, rfl⟩
      rw [List.flatMap_cons, List.cons_append, List.cons_append,
        scan_of_read comma, List.append_assoc, hnext,
        scan_member (Or.inr rfl) members [] [] (ok m (by simp)) stop, ← hnext,
        List.mapM_cons]
      cases hentry : m.entry with
      | none => rfl
      | some e =>
          simp only [Option.bind_some, later, Option.bind_eq_bind,
            Option.pure_def, Option.bind_assoc, List.append_assoc,
            List.singleton_append]

/-- The text of an object with at least one member, ended by a line feed. -/
def objectLine (m : Member) (ms : List Member) : List Char :=
  '{' :: m.text ++ ms.flatMap (fun m => ',' :: m.text) ++ ['}', '\n']

/-- **Reading a line.**  The line is an object with exactly the members whose
texts are read, and it is refused as soon as one of them is. -/
theorem parse_objectLine (m : Member) (ms : List Member) (okHead : m.Ok)
    (okTail : ∀ m ∈ ms, m.Ok) :
    parse (objectLine m ms) = ((m :: ms).mapM Member.entry).map .obj := by
  have opening : read ⟨[], .value⟩ '{' = some ⟨[.obj [] []], .keyOrEnd⟩ := by rfl
  obtain ⟨c, tail, stop, hnext⟩ : ∃ c tail, (c = ',' ∨ c = '}') ∧
      ms.flatMap (fun m => ',' :: m.text) ++ ['}', '\n'] = c :: tail := by
    cases ms with
    | nil => exact ⟨'}', ['\n'], Or.inr rfl, rfl⟩
    | cons n ns => exact ⟨',', _, Or.inl rfl, rfl⟩
  rw [parse, objectLine, List.append_assoc, List.cons_append,
    scan_of_read opening, hnext,
    scan_member (Or.inl rfl) [] [] [] okHead stop, ← hnext, List.mapM_cons]
  cases hentry : m.entry with
  | none => rfl
  | some e =>
      have line := scan_members ms okTail [e] ['\n']
      have space : ∀ v : Json, scan ⟨[], .done v⟩ ['\n'] = some ⟨[], .done v⟩ :=
        fun v => rfl
      simp only [Option.bind_some, List.nil_append]
      rw [line]
      cases ms.mapM Member.entry with
      | none => rfl
      | some es => simp [space, Scan.finish]

end Json

end PumaDev
