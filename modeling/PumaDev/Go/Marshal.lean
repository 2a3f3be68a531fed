import Mathlib.Data.List.Sort
import PumaDev.Go.Bytes
import PumaDev.Lib.JsonIndent
import PumaDev.Lib.JsonPrint

/-!
# `encoding/json`: encoding

`json.Marshal` writes the members of a map in the order of their keys and those of a struct in
the order of its fields.  A string may hold any bytes: characters that HTML or JavaScript would
take for something else are written as escapes, and so is the replacement character for a byte
that begins no encoding.

`Input.read` is what a reader gets: the value itself, its strings decoded.  `parse_marshal` and
`parse_marshalIndent` say that it gets it, whatever the bytes are.
-/

namespace PumaDev

namespace Marshal

open Strconv Utf8

/-- A value to be encoded. -/
inductive Input where
  | null
  | bool (b : Bool)
  | int (n : ℤ)
  | str (s : Bytes)
  | slice (items : List Input)
  /-- A map, its members in any order. -/
  | map (members : List (Bytes × Input))
  | struct (fields : List (Bytes × Input))

/-! ## Strings -/

/-- One character of a string, with `escapeHTML`. -/
def escapedChar (c : Char) : GoString :=
  if c = '\\' ∨ c = '"' then ['\\', c]
  else if c = '\n' then ['\\', 'n']
  else if c = '\r' then ['\\', 'r']
  else if c = '\t' then ['\\', 't']
  else if c.toNat < 0x20 ∨ c = '<' ∨ c = '>' ∨ c = '&' then
    '\\' :: 'u' :: '0' :: '0' :: hexDigits 2 c.toNat
  else if c.toNat = 0x2028 ∨ c.toNat = 0x2029 then
    '\\' :: 'u' :: '2' :: '0' :: '2' :: hexDigits 1 c.toNat
  else [c]

/-- The body of a string: the loop decodes a character at a time, `skip` counts the bytes of the
last one that are still to be passed over. -/
def escaped : ℕ → Bytes → GoString
  | _, [] => []
  | skip + 1, _ :: rest => escaped skip rest
  | 0, b :: rest =>
      match decodeRune (b :: rest) with
      | some c => escapedChar c ++ escaped (c.utf8Size - 1) rest
      | none => "\\ufffd".toList ++ escaped 0 rest

/-! ## Values -/

/-- The members of a map in the order of their keys. -/
def sortKeys {α : Type} (ms : List (Bytes × α)) : List (Bytes × α) :=
  ms.insertionSort fun a b => a.1 ≤ b.1

/-- A member, its key escaped. -/
def member (m : Bytes × GoString) : GoString × GoString := (escaped 0 m.1, m.2)

mutual

/-- `json.Marshal`. -/
def marshal : Input → GoString
  | .null => "null".toList
  | .bool b => if b then "true".toList else "false".toList
  | .int n => Json.intText n
  | .str s => '"' :: escaped 0 s ++ ['"']
  | .slice items => Json.arrText (marshalAll items)
  | .map members => Json.objText ((sortKeys (marshalMembers members)).map member)
  | .struct fields => Json.objText ((marshalMembers fields).map member)

def marshalAll : List Input → List GoString
  | [] => []
  | v :: rest => marshal v :: marshalAll rest

def marshalMembers : List (Bytes × Input) → List (Bytes × GoString)
  | [] => []
  | (k, v) :: rest => (k, marshal v) :: marshalMembers rest

end

/-- `json.NewEncoder(w).Encode`. -/
def encode (v : Input) : GoString := marshal v ++ ['\n']

/-- `json.MarshalIndent` with two blanks for each level; `none` for an error. -/
def marshalIndent (v : Input) : Option GoString :=
  Json.indent (fun depth => '\n' :: List.replicate (2 * depth) ' ') (marshal v)

/-! ## What a reader gets -/

mutual

def Input.read : Input → Json
  | .null => .null
  | .bool b => .bool b
  | .int n => .num n 0
  | .str s => .str (runes 0 s)
  | .slice items => .arr (readAll items)
  | .map members => .obj ((sortKeys (readMembers members)).map fun m => (runes 0 m.1, m.2))
  | .struct fields => .obj ((readMembers fields).map fun m => (runes 0 m.1, m.2))

def readAll : List Input → List Json
  | [] => []
  | v :: rest => v.read :: readAll rest

def readMembers : List (Bytes × Input) → List (Bytes × Json)
  | [] => []
  | (k, v) :: rest => (k, v.read) :: readMembers rest

end

mutual

/-- How deeply slices, maps and structs are nested. -/
def Input.depth : Input → ℕ
  | .null | .bool _ | .int _ | .str _ => 0
  | .slice items => depthAll items + 1
  | .map members => depthMembers members + 1
  | .struct fields => depthMembers fields + 1

def depthAll : List Input → ℕ
  | [] => 0
  | v :: rest => max v.depth (depthAll rest)

def depthMembers : List (Bytes × Input) → ℕ
  | [] => 0
  | (_, v) :: rest => max v.depth (depthMembers rest)

end

/-! ## Strings are read back -/

open Json (SpellsText)

/-- An escape by number. -/
theorem spellsText_unit (c : Char) (small : c.toNat < 0x10000) :
    SpellsText ('\\' :: 'u' :: hexDigits 4 c.toNat) [c] :=
  ⟨[.unit c.toNat], .cons (Or.inr rfl) .nil, fun stack isKey acc =>
    Json.scan_unit small stack isKey acc⟩

/-- An escape with a letter. -/
theorem spellsText_letter {c d : Char} (letter : Json.escaped d = some c) :
    SpellsText ['\\', d] [c] :=
  ⟨[.char c], .cons (Or.inl rfl) .nil, fun stack isKey acc =>
    Json.scan_escape letter stack isKey acc⟩

theorem spellsText_escapedChar (c : Char) : SpellsText (escapedChar c) [c] := by
  unfold escapedChar
  split_ifs with quoted line back tab special separator
  · rcases quoted with rfl | rfl
    · exact spellsText_letter rfl
    · exact spellsText_letter rfl
  · subst line
    exact spellsText_letter rfl
  · subst back
    exact spellsText_letter rfl
  · subst tab
    exact spellsText_letter rfl
  · have small : c.toNat < 0x100 := by
      rcases special with control | rfl | rfl | rfl
      · omega
      all_goals decide
    have digits : '0' :: '0' :: hexDigits 2 c.toNat = hexDigits 4 c.toNat := by
      have zero : c.toNat / 16 / 16 = 0 := by omega
      simp only [hexDigits, zero]
      rfl
    rw [digits]
    exact spellsText_unit c (by omega)
  · have digits : '2' :: '0' :: '2' :: hexDigits 1 c.toNat = hexDigits 4 c.toNat := by
      rcases separator with eq | eq <;> rw [eq] <;> decide
    rw [digits]
    exact spellsText_unit c (by omega)
  · refine Json.spellsText_literal ⟨fun eq => quoted (Or.inr eq), fun eq => quoted (Or.inl eq), ?_⟩
    by_contra control
    exact special (Or.inl (by omega))

/-- **A string is read as its characters**, with the replacement character for what is none. -/
theorem spellsText_escaped (skip : ℕ) (s : Bytes) : SpellsText (escaped skip s) (runes skip s) := by
  fun_induction escaped skip s with
  | case1 skip => cases skip <;> exact Json.spellsText_nil
  | case2 skip b rest ih => exact ih
  | case3 b rest c decoded ih =>
      rw [runes, decoded]
      exact (spellsText_escapedChar c).append ih
  | case4 b rest decoded ih =>
      rw [runes, decoded]
      exact (spellsText_unit '\uFFFD' (by decide)).append ih

/-! ## Values are read back -/

theorem marshalMembers_eq (ms : List (Bytes × Input)) :
    marshalMembers ms = ms.map fun m => (m.1, marshal m.2) := by
  induction ms with
  | nil => rfl
  | cons m ms ih => rw [marshalMembers, ih, List.map_cons]

theorem readMembers_eq (ms : List (Bytes × Input)) :
    readMembers ms = ms.map fun m => (m.1, m.2.read) := by
  induction ms with
  | nil => rfl
  | cons m ms ih => rw [readMembers, ih, List.map_cons]

/-- Sorting looks at the keys only. -/
theorem sortKeys_map {α β : Type} (f : α → β) (ms : List (Bytes × α)) :
    sortKeys (ms.map fun m => (m.1, f m.2)) = (sortKeys ms).map fun m => (m.1, f m.2) :=
  (List.map_insertionSort (fun a b : Bytes × α => a.1 ≤ b.1) (fun a b : Bytes × β => a.1 ≤ b.1)
    (fun m => (m.1, f m.2)) ms fun _ _ _ _ => Iff.rfl).symm

theorem mem_sortKeys {α : Type} {ms : List (Bytes × α)} {m : Bytes × α} :
    m ∈ sortKeys ms ↔ m ∈ ms := List.mem_insertionSort _

/-- Members whose values are read back are read back. -/
theorem standsMembers {n : ℕ} {ms : List (Bytes × Input)}
    (each : ∀ m ∈ ms, Json.Stands n (marshal m.2) m.2.read) :
    List.Forall₂ (Json.StandsMember n) ((ms.map fun m => (m.1, marshal m.2)).map member)
      ((ms.map fun m => (m.1, m.2.read)).map fun m => (runes 0 m.1, m.2)) := by
  induction ms with
  | nil => exact .nil
  | cons m ms ih =>
      exact .cons ⟨spellsText_escaped 0 m.1, each m List.mem_cons_self⟩
        (ih fun m' mem => each m' (List.mem_cons_of_mem _ mem))

theorem closed_struct {n : ℕ} {fields : List (Bytes × Input)}
    (each : ∀ m ∈ fields, Json.Stands n (marshal m.2) m.2.read) :
    Json.Closed (n + 1) (marshal (.struct fields)) (Input.struct fields).read := by
  rw [marshal, Input.read, marshalMembers_eq, readMembers_eq]
  exact Json.closed_obj (standsMembers each)

theorem closed_map {n : ℕ} {members : List (Bytes × Input)}
    (each : ∀ m ∈ members, Json.Stands n (marshal m.2) m.2.read) :
    Json.Closed (n + 1) (marshal (.map members)) (Input.map members).read := by
  rw [marshal, Input.read, marshalMembers_eq, readMembers_eq, sortKeys_map marshal,
    sortKeys_map Input.read]
  exact Json.closed_obj (standsMembers fun m mem => each m (mem_sortKeys.mp mem))

mutual

/-- **Every value is read back.** -/
theorem stands_marshal : ∀ v : Input, Json.Stands v.depth (marshal v) v.read
  | .null => Json.closed_null.stands
  | .bool b => (Json.closed_bool b).stands
  | .int n => Json.stands_int n
  | .str s => (Json.closed_str (spellsText_escaped 0 s)).stands
  | .slice items => (Json.closed_arr (stands_marshalAll items)).stands
  | .map members => (closed_map (stands_marshalMembers members)).stands
  | .struct fields => (closed_struct (stands_marshalMembers fields)).stands

theorem stands_marshalAll : ∀ items : List Input,
    List.Forall₂ (Json.Stands (depthAll items)) (marshalAll items) (readAll items)
  | [] => .nil
  | v :: rest => .cons ((stands_marshal v).mono (le_max_left _ _))
      ((stands_marshalAll rest).imp fun _ _ stands => stands.mono (le_max_right _ _))

theorem stands_marshalMembers : ∀ (ms : List (Bytes × Input)), ∀ m ∈ ms,
    Json.Stands (depthMembers ms) (marshal m.2) m.2.read
  | [], _, mem => absurd mem List.not_mem_nil
  | (_, v) :: rest, m, mem => by
      rcases List.mem_cons.mp mem with rfl | later
      · exact (stands_marshal v).mono (le_max_left _ _)
      · exact (stands_marshalMembers rest m later).mono (le_max_right _ _)

end

/-- A value that is no number ends by itself. -/
theorem closed_marshal (v : Input) (noInt : ∀ n, v ≠ .int n) :
    Json.Closed v.depth (marshal v) v.read := by
  cases v with
  | null => exact Json.closed_null
  | bool b => exact Json.closed_bool b
  | int n => exact absurd rfl (noInt n)
  | str s => exact Json.closed_str (spellsText_escaped 0 s)
  | slice items => exact Json.closed_arr (stands_marshalAll items)
  | map members => exact closed_map (stands_marshalMembers members)
  | struct fields => exact closed_struct (stands_marshalMembers fields)

/-- **`json.NewEncoder(w).Encode`** writes a line that is read as the value. -/
theorem parse_encode (v : Input) (noInt : ∀ n, v ≠ .int n)
    (fits : v.depth ≤ Json.maxNestingDepth) : Json.parse (encode v) = some v.read :=
  ((closed_marshal v noInt).parse fits).2

/-- **`json.MarshalIndent`** writes a text that is read as the value. -/
theorem parse_marshalIndent (v : Input) (noInt : ∀ n, v ≠ .int n)
    (fits : v.depth ≤ Json.maxNestingDepth) :
    ∃ text, marshalIndent v = some text ∧ Json.parse text = some v.read := by
  refine Json.parse_indent (fun depth c mem => ?_) ((closed_marshal v noInt).parse fits).1
  rcases List.mem_cons.mp mem with rfl | blank
  · rfl
  · rw [List.eq_of_mem_replicate blank]
    rfl

/-- An object with an empty array in it. -/
example : marshalIndent
    (.map [(Utf8.encode "b".toList, .int 1), (Utf8.encode "a".toList, .slice [])]) =
      some "\x7b\n  \"a\": [],\n  \"b\": 1\n\x7d".toList := by decide +kernel

end Marshal

end PumaDev
