import PumaDev.Go.Strings
import PumaDev.Lib.JsonText

/-!
# Go quoting, read as JSON

`strconv.Quote` writes a string as a Go literal.  Which characters it leaves
alone is decided by `strconv.IsPrint`, a table that follows the Unicode version
of the toolchain; `PrintTable` is such a table, of which only the part every
version agrees on, ASCII, is fixed.

The Go and the JSON escape alphabets overlap without being the same.
`GoOnly T c` is the set of characters on which they part: those that Go writes
with an escape JSON does not have (`\a`, `\v`, `\x`, `\U`).  `reads_quote` is
the comparison: where a JSON value may stand, a quoted string is read as the
string itself when it is free of such characters, and refused when it is not.
-/

namespace PumaDev

/-- `strconv.IsPrint`: the printable characters of some Unicode version. -/
structure PrintTable where
  isPrint : Char → Bool
  /-- In ASCII these are the characters from the space to the tilde. -/
  ascii : ∀ c : Char, c.toNat < 0x80 →
    (isPrint c = true ↔ 0x20 ≤ c.toNat ∧ c.toNat < 0x7F)

namespace PrintTable

/-- The table without any printable character beyond ASCII. -/
def asciiOnly : PrintTable where
  isPrint c := decide (0x20 ≤ c.toNat ∧ c.toNat < 0x7F)
  ascii _ _ := by simp

instance : Inhabited PrintTable := ⟨asciiOnly⟩

/-- A printable character is not a control character. -/
theorem not_control_of_isPrint {T : PrintTable} {c : Char} (h : T.isPrint c = true) :
    0x20 ≤ c.toNat := by
  by_cases ascii : c.toNat < 0x80
  · exact ((T.ascii c ascii).mp h).1
  · omega

end PrintTable

namespace Strconv

/-- The last `k` hexadecimal digits of `n`, in lower case. -/
def hexDigits : ℕ → ℕ → GoString
  | 0, _ => []
  | k + 1, n => hexDigits k (n / 16) ++ [Nat.digitChar (n % 16)]

/-- One character of a quoted string (`strconv.appendEscapedRune` for the
quote `"`). -/
def escapedRune (T : PrintTable) (c : Char) : GoString :=
  if c = '"' ∨ c = '\\' then ['\\', c]
  else if T.isPrint c then [c]
  else if c = '\x07' then ['\\', 'a']
  else if c = '\x08' then ['\\', 'b']
  else if c = '\x0c' then ['\\', 'f']
  else if c = '\n' then ['\\', 'n']
  else if c = '\r' then ['\\', 'r']
  else if c = '\t' then ['\\', 't']
  else if c = '\x0b' then ['\\', 'v']
  else if c.toNat < 0x20 ∨ c.toNat = 0x7F then '\\' :: 'x' :: hexDigits 2 c.toNat
  else if c.toNat < 0x10000 then '\\' :: 'u' :: hexDigits 4 c.toNat
  else '\\' :: 'U' :: hexDigits 8 c.toNat

/-- The body of `strconv.Quote`. -/
def quoteBody (T : PrintTable) (s : GoString) : GoString := s.flatMap (escapedRune T)

/-- `strconv.Quote`. -/
def quote (T : PrintTable) (s : GoString) : GoString := '"' :: quoteBody T s ++ ['"']

/-- The characters Go writes with an escape that JSON does not have. -/
def GoOnly (T : PrintTable) (c : Char) : Prop :=
  (c.toNat < 0x20 ∧ c ∉ ['\x08', '\x0c', '\n', '\r', '\t']) ∨ c.toNat = 0x7F ∨
    (0x10000 ≤ c.toNat ∧ T.isPrint c = false)

instance (T : PrintTable) (c : Char) : Decidable (GoOnly T c) :=
  inferInstanceAs (Decidable (_ ∨ _ ∨ _))

/-- The string has no character on which the two alphabets part. -/
def JsonSafe (T : PrintTable) (s : GoString) : Prop := ∀ c ∈ s, ¬ GoOnly T c

instance (T : PrintTable) (s : GoString) : Decidable (JsonSafe T s) :=
  List.decidableBAll _ s

end Strconv

/-! ## One character -/

namespace Json

open Strconv

theorem hexValue_digitChar {d : ℕ} (h : d < 16) : hexValue (Nat.digitChar d) = some d := by
  interval_cases d <;> rfl

/-- One hexadecimal digit of an escape. -/
theorem read_hex {d : ℕ} (h : d < 16) (stack : List Frame) (isKey : Bool)
    (acc : List Piece) (missing n : ℕ) :
    read ⟨stack, .hex isKey acc missing n⟩ (Nat.digitChar d) =
      some (if missing ≤ 1 then ⟨stack, .str isKey (acc ++ [.unit (n * 16 + d)])⟩
        else ⟨stack, .hex isKey acc (missing - 1) (n * 16 + d)⟩) := by
  simp only [read, hexValue_digitChar h, Option.map_some]

/-- The four digits of a `\u` escape. -/
theorem scan_unit {n : ℕ} (bound : n < 0x10000) (stack : List Frame) (isKey : Bool)
    (acc : List Piece) :
    scan ⟨stack, .str isKey acc⟩ ('\\' :: 'u' :: hexDigits 4 n) =
      some ⟨stack, .str isKey (acc ++ [.unit n])⟩ := by
  have digit : ∀ m : ℕ, m % 16 < 16 := fun m => Nat.mod_lt m (by decide)
  have opening : scan ⟨stack, .str isKey acc⟩ ['\\', 'u'] =
      some ⟨stack, .hex isKey acc 4 0⟩ := by rfl
  have value : (((0 * 16 + n / 16 / 16 / 16 % 16) * 16 + n / 16 / 16 % 16) * 16 +
      n / 16 % 16) * 16 + n % 16 = n := by omega
  have split : '\\' :: 'u' :: hexDigits 4 n = ['\\', 'u'] ++ hexDigits 4 n := rfl
  rw [split, scan_append, opening, Option.bind_some]
  simp only [hexDigits, List.nil_append, List.cons_append]
  rw [scan_of_read (read_hex (digit _) ..), if_neg (by decide),
    scan_of_read (read_hex (digit _) ..), if_neg (by decide),
    scan_of_read (read_hex (digit _) ..), if_neg (by decide),
    scan_of_read (read_hex (digit _) ..), if_pos (by decide), value, scan_nil]

/-- A two-character escape that JSON has. -/
theorem scan_escape {c d : Char} (h : escaped c = some d) (stack : List Frame)
    (isKey : Bool) (acc : List Piece) :
    scan ⟨stack, .str isKey acc⟩ ['\\', c] =
      some ⟨stack, .str isKey (acc ++ [.char d])⟩ := by
  have opening : read ⟨stack, .str isKey acc⟩ '\\' = some ⟨stack, .esc isKey acc⟩ := by
    rfl
  have letter : c ≠ 'u' := by
    rintro rfl
    simp [escaped] at h
  have closing : read ⟨stack, .esc isKey acc⟩ c =
      some ⟨stack, .str isKey (acc ++ [.char d])⟩ := by
    simp [read, letter, h]
  rw [scan_of_read opening, scan_of_read closing, scan_nil]

/-- An escape that JSON does not have. -/
theorem scan_unknown_escape {c : Char} (unknown : escaped c = none) (letter : c ≠ 'u')
    (stack : List Frame) (isKey : Bool) (acc : List Piece) (rest : List Char) :
    scan ⟨stack, .str isKey acc⟩ ('\\' :: c :: rest) = none := by
  have opening : read ⟨stack, .str isKey acc⟩ '\\' = some ⟨stack, .esc isKey acc⟩ := by
    rfl
  rw [scan_of_read opening, scan_of_refused (by simp [read, letter, unknown])]

/-- **One character of a quoted string, read as JSON**: a spelling of the
character where the alphabets agree on it. -/
theorem scan_escapedRune {T : PrintTable} {c : Char} (agree : ¬ GoOnly T c) :
    ∃ p, Spells p c ∧ ∀ (stack : List Frame) (isKey : Bool) (acc : List Piece),
      scan ⟨stack, .str isKey acc⟩ (escapedRune T c) =
        some ⟨stack, .str isKey (acc ++ [p])⟩ := by
  by_cases quoted : c = '"' ∨ c = '\\'
  · refine ⟨.char c, Or.inl rfl, fun stack isKey acc => ?_⟩
    rw [escapedRune, if_pos quoted]
    rcases quoted with rfl | rfl <;> exact scan_escape (by rfl) stack isKey acc
  obtain ⟨notQuote, notEscape⟩ := not_or.mp quoted
  cases printable : T.isPrint c with
  | true =>
      have literal : Literal c :=
        ⟨notQuote, notEscape, PrintTable.not_control_of_isPrint printable⟩
      refine ⟨.char c, Or.inl rfl, fun stack isKey acc => ?_⟩
      rw [escapedRune, if_neg quoted, if_pos printable,
        scan_of_read (read_literal literal stack isKey acc), scan_nil]
  | false =>
      by_cases control : c.toNat < 0x20
      · -- the control characters both alphabets name
        have named : c ∈ ['\x08', '\x0c', '\n', '\r', '\t'] := by
          by_contra other
          exact agree (Or.inl ⟨control, other⟩)
        refine ⟨.char c, Or.inl rfl, fun stack isKey acc => ?_⟩
        simp only [List.mem_cons, List.not_mem_nil, or_false] at named
        rcases named with rfl | rfl | rfl | rfl | rfl <;>
          simp only [escapedRune, printable] <;>
          exact scan_escape (by rfl) stack isKey acc
      · have notDel : c.toNat ≠ 0x7F := fun h => agree (Or.inr (Or.inl h))
        have bmp : c.toNat < 0x10000 := by
          by_contra beyond
          exact agree (Or.inr (Or.inr ⟨Nat.le_of_not_lt beyond, printable⟩))
        have unnamed : ∀ d : Char, d.toNat < 0x20 → c ≠ d := by
          rintro d low rfl
          exact control low
        refine ⟨.unit c.toNat, Or.inr rfl, fun stack isKey acc => ?_⟩
        rw [escapedRune, if_neg quoted, printable, if_neg (by simp),
          if_neg (unnamed _ (by decide)), if_neg (unnamed _ (by decide)),
          if_neg (unnamed _ (by decide)), if_neg (unnamed _ (by decide)),
          if_neg (unnamed _ (by decide)), if_neg (unnamed _ (by decide)),
          if_neg (unnamed _ (by decide)), if_neg (not_or.mpr ⟨control, notDel⟩),
          if_pos bmp]
        exact scan_unit bmp stack isKey acc

/-- A character the alphabets part on makes the reader fail. -/
theorem scan_goOnly {T : PrintTable} {c : Char} (part : GoOnly T c)
    (stack : List Frame) (isKey : Bool) (acc : List Piece) (rest : List Char) :
    scan ⟨stack, .str isKey acc⟩ (escapedRune T c ++ rest) = none := by
  -- in each case the character after the backslash is not a JSON escape
  suffices h : ∃ letter tail, escapedRune T c = '\\' :: letter :: tail ∧
      escaped letter = none ∧ letter ≠ 'u' by
    obtain ⟨letter, tail, text, unknown, notUnit⟩ := h
    rw [text]
    exact scan_unknown_escape unknown notUnit stack isKey acc (tail ++ rest)
  have notQuoted : ¬ (c = '"' ∨ c = '\\') := by
    rintro (rfl | rfl) <;> rcases part with ⟨low, -⟩ | del | ⟨beyond, -⟩ <;>
      simp_all
  have hidden : T.isPrint c = false := by
    rcases part with ⟨low, -⟩ | del | ⟨-, unprintable⟩
    · by_contra printable
      have := PrintTable.not_control_of_isPrint (eq_true_of_ne_false printable)
      omega
    · by_contra printable
      have := ((T.ascii c (by omega)).mp (eq_true_of_ne_false printable)).2
      omega
    · exact unprintable
  have unnamed : ∀ d ∈ ['\x08', '\x0c', '\n', '\r', '\t'], c ≠ d := by
    rintro d mem rfl
    rcases part with ⟨-, other⟩ | del | ⟨beyond, -⟩
    · exact other mem
    all_goals
      simp only [List.mem_cons, List.not_mem_nil, or_false] at mem
      rcases mem with rfl | rfl | rfl | rfl | rfl <;> simp_all
  rw [escapedRune, if_neg notQuoted, hidden, if_neg (by simp)]
  by_cases bell : c = '\x07'
  · exact ⟨'a', [], if_pos bell, rfl, by decide⟩
  rw [if_neg bell, if_neg (unnamed _ (by simp)), if_neg (unnamed _ (by simp)),
    if_neg (unnamed _ (by simp)), if_neg (unnamed _ (by simp)),
    if_neg (unnamed _ (by simp))]
  by_cases vtab : c = '\x0b'
  · exact ⟨'v', [], if_pos vtab, rfl, by decide⟩
  rw [if_neg vtab]
  by_cases control : c.toNat < 0x20 ∨ c.toNat = 0x7F
  · exact ⟨'x', hexDigits 2 c.toNat, if_pos control, rfl, by decide⟩
  · rw [if_neg control]
    have beyond : 0x10000 ≤ c.toNat := by
      rcases part with ⟨low, -⟩ | del | ⟨beyond, -⟩
      · exact absurd (Or.inl low) control
      · exact absurd (Or.inr del) control
      · exact beyond
    exact ⟨'U', hexDigits 8 c.toNat, if_neg (Nat.not_lt.mpr beyond), rfl, by decide⟩

/-! ## Whole strings -/

/-- The body of a quoted string whose characters all agree. -/
theorem scan_quoteBody {T : PrintTable} {s : GoString} (safe : JsonSafe T s) :
    ∃ ps, List.Forall₂ Spells ps s ∧
      ∀ (stack : List Frame) (isKey : Bool) (acc : List Piece),
        scan ⟨stack, .str isKey acc⟩ (quoteBody T s) =
          some ⟨stack, .str isKey (acc ++ ps)⟩ := by
  induction s with
  | nil => exact ⟨[], .nil, fun stack isKey acc => by simp [quoteBody]⟩
  | cons c rest ih =>
      obtain ⟨p, spells, here⟩ := scan_escapedRune (safe c (by simp))
      obtain ⟨ps, spellsRest, later⟩ :=
        ih fun d mem => safe d (List.mem_cons_of_mem _ mem)
      refine ⟨p :: ps, .cons spells spellsRest, fun stack isKey acc => ?_⟩
      have text : quoteBody T (c :: rest) = escapedRune T c ++ quoteBody T rest :=
        List.flatMap_cons
      rw [text, scan_append, here, Option.bind_some, later, List.append_assoc,
        List.singleton_append]

/-- The body of a quoted string with a character they part on. -/
theorem scan_quoteBody_refused {T : PrintTable} {s : GoString}
    (partly : ¬ JsonSafe T s) (stack : List Frame) (isKey : Bool)
    (acc : List Piece) : scan ⟨stack, .str isKey acc⟩ (quoteBody T s) = none := by
  induction s generalizing acc with
  | nil => exact absurd (fun c mem => absurd mem (by simp)) partly
  | cons c rest ih =>
      have text : quoteBody T (c :: rest) = escapedRune T c ++ quoteBody T rest :=
        List.flatMap_cons
      rw [text]
      by_cases part : GoOnly T c
      · exact scan_goOnly part stack isKey acc (quoteBody T rest)
      · obtain ⟨p, -, here⟩ := scan_escapedRune part
        rw [scan_append, here, Option.bind_some]
        refine ih (fun safe => partly fun d mem => ?_) (acc ++ [p])
        rcases List.mem_cons.mp mem with rfl | later
        · exact part
        · exact safe d later

/-- **A quoted string where a JSON value may stand** is read as the string, or
refused, according to whether the two alphabets agree on all of it. -/
theorem reads_quote (T : PrintTable) (s : GoString) :
    Reads (quote T s) (if JsonSafe T s then some (.str s) else none) := by
  by_cases safe : JsonSafe T s
  · obtain ⟨ps, spells, body⟩ := scan_quoteBody safe
    have literal : Renders (quote T s) (.str (text ps)) :=
      renders_string fun stack => by simpa using body stack false []
    rw [text_of_spells spells] at literal
    rw [if_pos safe]
    exact literal
  · rw [if_neg safe]
    exact refused_string fun stack => scan_quoteBody_refused safe stack false []

end Json

end PumaDev
