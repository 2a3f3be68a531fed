import Mathlib.Data.Int.Notation
import Mathlib.Data.List.Basic
import Mathlib.Tactic.Common

/-!
# A JSON reader as a pushdown scanner

The reader is a machine that takes one character at a time: a stack of the
containers that are still open and a mode that says what may come next.  It
accepts exactly the grammar of RFC 8259, builds the value while it goes, and
resolves `\u` escapes the way UTF-16 pairs do, a lone surrogate becoming the
replacement character.

Reading one character at a time has a price in states and pays it back in
proofs: reading a concatenation is reading its parts one after the other
(`scan_append`), so a text that is built from pieces is read piece by piece,
whatever the pieces are nested in.  What a producer of JSON has to know about
its pieces is in `PumaDev.Lib.JsonText`.
-/

namespace PumaDev

/-- A JSON value.  A number is kept exactly, as `mantissa * 10 ^ exponent`; an
object keeps its members in the order of the text. -/
inductive Json where
  | null
  | bool (b : Bool)
  | num (mantissa exponent : ℤ)
  | str (s : List Char)
  | arr (items : List Json)
  | obj (members : List (List Char × Json))

namespace Json

/-! ## String literals -/

/-- A piece of a string literal: a character, or one `\u` escape. -/
inductive Piece where
  | char (c : Char)
  | unit (n : ℕ)

def isHighSurrogate (n : ℕ) : Bool := 0xD800 ≤ n && n < 0xDC00

def isLowSurrogate (n : ℕ) : Bool := 0xDC00 ≤ n && n < 0xE000

/-- The character of a `\u` escape that is not part of a pair. -/
def loneUnit (n : ℕ) : Char :=
  if isHighSurrogate n || isLowSurrogate n then '\uFFFD' else Char.ofNat n

/-- The text of a string literal: two `\u` escapes that form a surrogate pair
are one character. -/
def text : List Piece → List Char
  | [] => []
  | .char c :: rest => c :: text rest
  | .unit n :: rest =>
      match rest with
      | .unit m :: rest' =>
          if isHighSurrogate n && isLowSurrogate m then
            Char.ofNat (0x10000 + (n - 0xD800) * 0x400 + (m - 0xDC00)) :: text rest'
          else loneUnit n :: text (.unit m :: rest')
      | other => loneUnit n :: text other

/-- The value of a hexadecimal digit. -/
def hexValue (c : Char) : Option ℕ :=
  if '0' ≤ c ∧ c ≤ '9' then some (c.toNat - 48)
  else if 'a' ≤ c ∧ c ≤ 'f' then some (c.toNat - 87)
  else if 'A' ≤ c ∧ c ≤ 'F' then some (c.toNat - 55)
  else none

/-- The character a two-character escape stands for. -/
def escaped : Char → Option Char
  | '"' => some '"'
  | '\\' => some '\\'
  | '/' => some '/'
  | 'b' => some '\x08'
  | 'f' => some '\x0c'
  | 'n' => some '\n'
  | 'r' => some '\r'
  | 't' => some '\t'
  | _ => none

/-! ## Numbers -/

/-- How far into a number the reader is. -/
inductive Phase where
  | minus | zero | int | dot | frac | e | eSign | exp
  deriving DecidableEq

/-- A number being read: sign, all digits so far, how many of them stand after
the point, and the exponent. -/
structure Number where
  phase : Phase
  neg : Bool
  digits : ℕ
  fracLen : ℕ
  expNeg : Bool
  exp : ℕ

def isDigit (c : Char) : Bool := '0' ≤ c && c ≤ '9'

def digitValue (c : Char) : ℕ := c.toNat - 48

/-- The first character of a number. -/
def Number.start (c : Char) : Option Number :=
  if c = '-' then some ⟨.minus, true, 0, 0, false, 0⟩
  else if c = '0' then some ⟨.zero, false, 0, 0, false, 0⟩
  else if isDigit c then some ⟨.int, false, digitValue c, 0, false, 0⟩
  else none

/-- Enter the fraction or the exponent of a number, if `c` opens one. -/
def Number.extend (a : Number) (c : Char) : Option Number :=
  if c = '.' ∧ a.phase ≠ .frac then some { a with phase := .dot }
  else if c = 'e' ∨ c = 'E' then some { a with phase := .e }
  else none

/-- One more character of a number; `none` where the number ends. -/
def Number.read (a : Number) (c : Char) : Option Number :=
  match a.phase with
  | .minus =>
      if c = '0' then some { a with phase := .zero }
      else if isDigit c then some { a with phase := .int, digits := digitValue c }
      else none
  | .zero => a.extend c
  | .int =>
      if isDigit c then some { a with digits := a.digits * 10 + digitValue c }
      else a.extend c
  | .dot | .frac =>
      if isDigit c then
        some { a with
          phase := .frac
          digits := a.digits * 10 + digitValue c
          fracLen := a.fracLen + 1 }
      else if a.phase = .dot then none
      else a.extend c
  | .e =>
      if c = '+' then some { a with phase := .eSign }
      else if c = '-' then some { a with phase := .eSign, expNeg := true }
      else if isDigit c then some { a with phase := .exp, exp := digitValue c }
      else none
  | .eSign =>
      if isDigit c then some { a with phase := .exp, exp := digitValue c } else none
  | .exp =>
      if isDigit c then some { a with exp := a.exp * 10 + digitValue c } else none

/-- The value of a number that may end here. -/
def Number.finish (a : Number) : Option Json :=
  match a.phase with
  | .zero | .int | .frac | .exp =>
      some (.num (if a.neg then -(a.digits : ℤ) else a.digits)
        ((if a.expNeg then -(a.exp : ℤ) else a.exp) - a.fracLen))
  | _ => none

/-! ## The machine -/

/-- An open container: what it holds so far, and in an object the key whose
value is being read. -/
inductive Frame where
  | arr (items : List Json)
  | obj (members : List (List Char × Json)) (key : List Char)

/-- What may come next. -/
inductive Mode where
  | value
  | valueOrEnd
  | keyOrEnd
  | key
  | colon
  | afterValue
  | done (v : Json)
  | str (isKey : Bool) (acc : List Piece)
  | esc (isKey : Bool) (acc : List Piece)
  | hex (isKey : Bool) (acc : List Piece) (missing n : ℕ)
  | lit (rest : List Char) (v : Json)
  | num (a : Number)

/-- The state of the reader. -/
structure Scan where
  stack : List Frame
  mode : Mode

/-- The deepest nesting the reader accepts. -/
def maxNestingDepth : ℕ := 10000

/-- White space between tokens. -/
def isSpace (c : Char) : Bool := c = ' ' || c = '\t' || c = '\r' || c = '\n'

/-- Hand a finished value to the innermost open container. -/
def deliver (v : Json) : List Frame → Scan
  | [] => ⟨[], .done v⟩
  | .arr items :: rest => ⟨.arr (items ++ [v]) :: rest, .afterValue⟩
  | .obj members key :: rest => ⟨.obj (members ++ [(key, v)]) [] :: rest, .afterValue⟩

/-- Open a container. -/
def push (frame : Frame) (stack : List Frame) (mode : Mode) : Option Scan :=
  if stack.length < maxNestingDepth then some ⟨frame :: stack, mode⟩ else none

/-- Close the innermost container with `c`. -/
def close (c : Char) : List Frame → Option Scan
  | .arr items :: rest => if c = ']' then some (deliver (.arr items) rest) else none
  | .obj members _ :: rest => if c = '}' then some (deliver (.obj members) rest) else none
  | [] => none

/-- The end of a string literal. -/
def endString (isKey : Bool) (acc : List Piece) (stack : List Frame) : Option Scan :=
  if isKey then
    match stack with
    | .obj members _ :: rest => some ⟨.obj members (text acc) :: rest, .colon⟩
    | _ => none
  else some (deliver (.str (text acc)) stack)

/-- The first character of a value. -/
def beginValue (stack : List Frame) (c : Char) : Option Scan :=
  if isSpace c then some ⟨stack, .value⟩
  else if c = '{' then push (.obj [] []) stack .keyOrEnd
  else if c = '[' then push (.arr []) stack .valueOrEnd
  else if c = '"' then some ⟨stack, .str false []⟩
  else if c = 't' then some ⟨stack, .lit ['r', 'u', 'e'] (.bool true)⟩
  else if c = 'f' then some ⟨stack, .lit ['a', 'l', 's', 'e'] (.bool false)⟩
  else if c = 'n' then some ⟨stack, .lit ['u', 'l', 'l'] .null⟩
  else (Number.start c).map fun a => ⟨stack, .num a⟩

/-- A character after a finished value. -/
def afterValue (s : Scan) (c : Char) : Option Scan :=
  if isSpace c then some s
  else
    match s.mode, s.stack with
    | .afterValue, .arr items :: rest =>
        if c = ',' then some ⟨.arr items :: rest, .value⟩ else close c s.stack
    | .afterValue, .obj members key :: rest =>
        if c = ',' then some ⟨.obj members key :: rest, .key⟩ else close c s.stack
    | _, _ => none

/-- One character inside a string literal. -/
def readString (stack : List Frame) (isKey : Bool) (acc : List Piece) (c : Char) :
    Option Scan :=
  if c = '"' then endString isKey acc stack
  else if c = '\\' then some ⟨stack, .esc isKey acc⟩
  else if c.toNat < 0x20 then none
  else some ⟨stack, .str isKey (acc ++ [.char c])⟩

/-- One character. -/
def read (s : Scan) (c : Char) : Option Scan :=
  match s.mode with
  | .value => beginValue s.stack c
  | .valueOrEnd =>
      if isSpace c then some s
      else if c = ']' then close c s.stack
      else beginValue s.stack c
  | .keyOrEnd =>
      if isSpace c then some s
      else if c = '}' then close c s.stack
      else if c = '"' then some ⟨s.stack, .str true []⟩
      else none
  | .key =>
      if isSpace c then some s
      else if c = '"' then some ⟨s.stack, .str true []⟩
      else none
  | .colon =>
      if isSpace c then some s
      else if c = ':' then some ⟨s.stack, .value⟩
      else none
  | .afterValue | .done _ => afterValue s c
  | .str isKey acc => readString s.stack isKey acc c
  | .esc isKey acc =>
      if c = 'u' then some ⟨s.stack, .hex isKey acc 4 0⟩
      else (escaped c).map fun d => ⟨s.stack, .str isKey (acc ++ [.char d])⟩
  | .hex isKey acc missing n =>
      (hexValue c).map fun d =>
        if missing ≤ 1 then ⟨s.stack, .str isKey (acc ++ [.unit (n * 16 + d)])⟩
        else ⟨s.stack, .hex isKey acc (missing - 1) (n * 16 + d)⟩
  | .lit rest v =>
      match rest with
      | [] => none
      | d :: more =>
          if c ≠ d then none
          else if more = [] then some (deliver v s.stack)
          else some ⟨s.stack, .lit more v⟩
  | .num a =>
      match a.read c with
      | some a' => some ⟨s.stack, .num a'⟩
      | none => a.finish.bind fun v => afterValue (deliver v s.stack) c

/-- Read a text. -/
def scan (s : Scan) (cs : List Char) : Option Scan := cs.foldlM read s

/-- What the reader has when the text ends. -/
def Scan.finish (s : Scan) : Option Json :=
  match s.mode, s.stack with
  | .done v, _ => some v
  | .num a, [] => a.finish
  | _, _ => none

/-- The value of a JSON text. -/
def parse (cs : List Char) : Option Json := (scan ⟨[], .value⟩ cs).bind Scan.finish

end Json

end PumaDev
