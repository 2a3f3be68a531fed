import Mathlib.Data.List.Basic
import Mathlib.Data.List.Infix
import Mathlib.Tactic.Common

/-!
# Go strings

A Go string is a finite sequence of bytes.  The functions of the program treat
only ASCII bytes specially (`/`, `.`, `-`, `:`, brackets, quotes), so a string
is modelled as a list of characters without any bound on what they are: read
with characters up to 255 it is an arbitrary byte string, read with Unicode
scalars it is a valid UTF-8 text.  The names are those of the packages
`strings`, `strconv` and `net`.
-/

namespace PumaDev

/-- A Go string. -/
abbrev GoString := List Char

/-- What is said of every byte of a string is decided byte by byte, rather than by going
through all the characters there are. -/
instance (priority := 1100) decidableForallMem (s : GoString) (p : Char → Prop)
    [DecidablePred p] : Decidable (∀ c ∈ s, p c) := List.decidableBAll _ s

namespace Strings

/-- `strings.HasPrefix`. -/
def hasPrefix (s start : GoString) : Bool := start.isPrefixOf s

/-- `strings.HasSuffix`. -/
def hasSuffix (s suffix : GoString) : Bool := suffix.isSuffixOf s

/-- `strings.TrimSuffix`. -/
def trimSuffix (s suffix : GoString) : GoString :=
  if hasSuffix s suffix then s.take (s.length - suffix.length) else s

/-- `strings.IndexByte`; Go's `-1` is `none`. -/
def indexByte (s : GoString) (c : Char) : Option ℕ := s.idxOf? c

/-- `strings.LastIndexByte`; Go's `-1` is `none`. -/
def lastIndexByte (s : GoString) (c : Char) : Option ℕ :=
  (s.reverse.idxOf? c).map fun i => s.length - 1 - i

/-- `strings.Split` at a one-byte separator. -/
def split (s : GoString) (sep : Char) : List GoString := s.splitOn sep

/-- `strings.Join` with a one-byte separator. -/
def join (elems : List GoString) (sep : Char) : GoString :=
  [sep].intercalate elems

/-- `strings.Replace(s, old, new, -1)` for single bytes. -/
def replaceByte (s : GoString) (old new : Char) : GoString :=
  s.map fun c => if c = old then new else c

/-- `unicode.IsSpace`. -/
def isSpace (c : Char) : Bool :=
  c ∈ ['\t', '\n', '\x0b', '\x0c', '\r', ' ', '\x85', '\xa0', '\u1680', '\u2028',
    '\u2029', '\u202f', '\u205f', '\u3000'] ||
    (0x2000 ≤ c.toNat && c.toNat ≤ 0x200a)

/-- `strings.TrimSpace` and `bytes.TrimSpace`. -/
def trimSpace (s : GoString) : GoString :=
  ((s.dropWhile isSpace).reverse.dropWhile isSpace).reverse

/-- Replacing a byte that does not occur changes nothing, and only then. -/
theorem replaceByte_eq_self_iff {s : GoString} {old new : Char}
    (differ : new ≠ old) : replaceByte s old new = s ↔ old ∉ s := by
  induction s with
  | nil => simp [replaceByte]
  | cons c rest ih =>
      have ih' : List.map (fun c => if c = old then new else c) rest = rest ↔
          old ∉ rest := ih
      by_cases here : c = old
      · subst here
        simp [replaceByte, differ]
      · have apart : ¬ old = c := fun h => here h.symm
        simp [replaceByte, here, apart, ih']

@[simp] theorem join_singleton (elem : GoString) (sep : Char) : join [elem] sep = elem := by
  simp [join, List.intercalate]

@[simp] theorem join_cons_cons (elem next : GoString) (elems : List GoString) (sep : Char) :
    join (elem :: next :: elems) sep = elem ++ sep :: join (next :: elems) sep := by
  simp [join, List.intercalate, List.intersperse]

/-- Two nonempty lists are joined one after the other, with a separator in between. -/
theorem join_append {elems elems' : List GoString} (sep : Char) (some_ : elems ≠ [])
    (some_' : elems' ≠ []) :
    join (elems ++ elems') sep = join elems sep ++ sep :: join elems' sep := by
  induction elems with
  | nil => exact absurd rfl some_
  | cons elem rest ih =>
      cases rest with
      | nil =>
          obtain ⟨first, later, rfl⟩ := List.exists_cons_of_ne_nil some_'
          simp
      | cons next rest =>
          have later := ih (List.cons_ne_nil next rest)
          rw [List.cons_append] at later
          simp [later]

/-- A byte is found behind a text without it. -/
theorem indexByte_append {s : GoString} {c : Char} (rest : GoString) (absent : c ∉ s) :
    indexByte (s ++ c :: rest) c = some s.length := by
  rw [indexByte, List.idxOf?_eq_some_iff]
  refine ⟨by simp, by simp, fun j before => ?_⟩
  rw [List.getElem_append_left before]
  intro same
  exact absent (same ▸ List.getElem_mem before)

/-- A byte is found in front of a text without it. -/
theorem lastIndexByte_append {rest : GoString} {c : Char} (s : GoString) (absent : c ∉ rest) :
    lastIndexByte (s ++ c :: rest) c = some s.length := by
  have reversed : (s ++ c :: rest).reverse = rest.reverse ++ c :: s.reverse := by simp
  have found : (rest.reverse ++ c :: s.reverse).idxOf? c = some rest.reverse.length :=
    indexByte_append s.reverse (by simpa using absent)
  simp only [lastIndexByte, reversed, found, Option.map_some, List.length_append,
    List.length_cons, List.length_reverse, Option.some.injEq]
  omega

/-- A byte has no last position exactly when it does not occur. -/
theorem lastIndexByte_eq_none_iff {s : GoString} {c : Char} :
    lastIndexByte s c = none ↔ c ∉ s := by
  simp [lastIndexByte]

/-- The last position of a byte is followed by a text without it. -/
theorem split_of_lastIndexByte {s : GoString} {c : Char} {i : ℕ}
    (h : lastIndexByte s c = some i) : ∃ rest, c ∉ rest ∧ s = s.take i ++ c :: rest := by
  have occurs : c ∈ s.reverse := by
    by_contra absent
    rw [List.mem_reverse] at absent
    rw [lastIndexByte_eq_none_iff.mpr absent] at h
    cases h
  obtain ⟨after, before, split, absent⟩ := List.eq_append_cons_of_mem occurs
  have text : s = before.reverse ++ c :: after.reverse := by
    rw [← List.reverse_reverse s, split]
    simp
  have found : indexByte s.reverse c = some after.length := by
    rw [split]
    exact indexByte_append before absent
  have position : i = before.reverse.length := by
    obtain ⟨j, first, rfl⟩ := Option.map_eq_some_iff.mp h
    rw [indexByte, first] at found
    cases found
    rw [text]
    simp
  refine ⟨after.reverse, by simpa using absent, ?_⟩
  conv_rhs => rw [text, position, List.take_left]
  exact text

/-- No piece of a split contains the separator. -/
theorem sep_notMem_of_mem_split {s piece : GoString} {sep : Char}
    (h : piece ∈ split s sep) : sep ∉ piece := by
  induction s generalizing piece with
  | nil => simp_all [split]
  | cons c rest ih =>
      rw [split, List.splitOn_cons_eq_if_modifyHead] at h
      split at h
      · rcases List.mem_cons.mp h with rfl | later
        · simp
        · exact ih later
      · next hne =>
          have apart : ¬ sep = c := fun heq => hne (by simp [heq])
          cases hs : rest.splitOn sep with
          | nil => exact absurd hs (List.splitOn_ne_nil sep rest)
          | cons p ps =>
              rw [hs, List.modifyHead_cons] at h
              rcases List.mem_cons.mp h with rfl | later
              · have first : sep ∉ p := ih (by rw [split, hs]; simp)
                simp [apart, first]
              · exact ih (by rw [split, hs]; exact List.mem_cons_of_mem _ later)

end Strings

namespace Strconv

/-- `strconv.Itoa`, also what the verbs `%d` and `%#v` print of an `int`. -/
def itoa : ℤ → GoString
  | .ofNat n => Nat.toDigits 10 n
  | .negSucc n => '-' :: Nat.toDigits 10 (n + 1)

end Strconv

/-- The text has none of the bytes that `net.SplitHostPort` looks for. -/
structure Unported (s : GoString) : Prop where
  colon : ':' ∉ s
  opening : '[' ∉ s
  closing : ']' ∉ s

instance (s : GoString) : Decidable (Unported s) :=
  decidable_of_iff (':' ∉ s ∧ '[' ∉ s ∧ ']' ∉ s)
    ⟨fun h => ⟨h.1, h.2.1, h.2.2⟩, fun h => ⟨h.colon, h.opening, h.closing⟩⟩

namespace Net

/-- `net.SplitHostPort`: the host and the port, or `none` where Go returns an
error (whose text nobody reads). -/
def splitHostPort (hostport : GoString) : Option (GoString × GoString) :=
  match Strings.lastIndexByte hostport ':' with
  | none => none
  | some i =>
      if hostport.head? = some '[' then
        -- the first ']' has to stand just before the last ':'
        match Strings.indexByte hostport ']' with
        | none => none
        | some close =>
            if close + 1 ≠ i then none
            else if '[' ∈ hostport.drop 1 then none
            else if ']' ∈ hostport.drop (close + 1) then none
            else some ((hostport.take close).drop 1, hostport.drop (i + 1))
      else if ':' ∈ hostport.take i then none
      else if '[' ∈ hostport then none
      else if ']' ∈ hostport then none
      else some (hostport.take i, hostport.drop (i + 1))

/-- A host and a port without brackets are split at the colon. -/
theorem splitHostPort_of_unported {h p : GoString} (host : Unported h) (port : Unported p) :
    splitHostPort (h ++ ':' :: p) = some (h, p) := by
  have last : Strings.lastIndexByte (h ++ ':' :: p) ':' = some h.length :=
    Strings.lastIndexByte_append h port.colon
  have unopened : '[' ∉ h ++ ':' :: p := by simp [host.opening, port.opening]
  have unclosed : ']' ∉ h ++ ':' :: p := by simp [host.closing, port.closing]
  have head : (h ++ ':' :: p).head? ≠ some '[' := fun first =>
    unopened (List.mem_of_head? first)
  rw [splitHostPort, last]
  simp only [if_neg head, List.take_left, if_neg host.colon, if_neg unopened, if_neg unclosed]
  simp

end Net

end PumaDev
