import Mathlib.Data.List.DropRight
import PumaDev.Go.Quote

/-!
# Byte strings and UTF-8

Where a function looks inside its argument as UTF-8, a string of characters is
not enough of a model: a Go string may hold any bytes, and `strconv.Quote` and
`bytes.TrimSpace` give those that are no UTF-8 a treatment of their own.  Here a
string is its bytes.

Decoding is that of the language: `decodeRune_eq_some_iff` says that a
character is found at the front of a string exactly when the string begins with
its encoding, and everything below rests on it.

* `Strconv.quoteBytes` is `strconv.Quote`; whatever the bytes, what it writes
  has no newline (`newline_not_mem_quoteBytes`).
* `Bytes.trimSpace` is `bytes.TrimSpace`; it returns a part of its argument
  (`infix_trimSpace`).

On the encoding of a text both are what the functions on characters are
(`quoteBytes_encode`, `trimSpace_encode`).
-/

namespace PumaDev

/-- A Go string or `[]byte`, as its bytes. -/
abbrev Bytes := List UInt8

/-- The byte `'\n'`. -/
def newline : UInt8 := 10

namespace Utf8

/-- `utf8.DecodeRune`; `none` stands for `RuneError` of width 1, which a byte
gets that begins no encoding. -/
def decodeRune (s : Bytes) : Option Char := s.toByteArray.utf8DecodeChar? 0

/-- The bytes of a text. -/
def encode (s : GoString) : Bytes := s.flatMap String.utf8EncodeChar

@[simp] theorem encode_nil : encode [] = [] := rfl

@[simp] theorem encode_cons (c : Char) (s : GoString) :
    encode (c :: s) = String.utf8EncodeChar c ++ encode s := rfl

@[simp] theorem encode_append (s t : GoString) : encode (s ++ t) = encode s ++ encode t :=
  List.flatMap_append

@[simp] theorem decodeRune_nil : decodeRune [] = none := rfl

@[simp] theorem decodeRune_encodeChar (c : Char) (rest : Bytes) :
    decodeRune (String.utf8EncodeChar c ++ rest) = some c := by
  rw [decodeRune, List.toByteArray_append]
  exact ByteArray.utf8DecodeChar?_utf8EncodeChar_append

/-- **Decoding finds what was encoded**, and nothing else. -/
theorem decodeRune_eq_some_iff {s : Bytes} {c : Char} :
    decodeRune s = some c ↔ ∃ rest, s = String.utf8EncodeChar c ++ rest := by
  constructor
  · intro found
    obtain ⟨rest, split⟩ := ByteArray.exists_of_utf8DecodeChar?_eq_some found
    refine ⟨rest.data.toList, ?_⟩
    have bytes := congrArg (fun b : ByteArray => b.data.toList) split
    simpa using bytes
  · rintro ⟨rest, rfl⟩
    exact decodeRune_encodeChar c rest

/-- The encoding of a character is not empty. -/
theorem encodeChar_eq_cons (c : Char) : ∃ b rest, String.utf8EncodeChar c = b :: rest :=
  List.exists_cons_of_ne_nil String.utf8EncodeChar_ne_nil

/-- An encoding starts with a byte that no other place of one can hold. -/
theorem isUTF8FirstByte_of_cons {c : Char} {b : UInt8} {rest : Bytes}
    (split : String.utf8EncodeChar c = b :: rest) : b.IsUTF8FirstByte := by
  have inside : 0 < (String.utf8EncodeChar c).length := by simp [split]
  have zero : (String.utf8EncodeChar c)[0].IsUTF8FirstByte :=
    UInt8.isUTF8FirstByte_getElem_utf8EncodeChar.mpr rfl
  simpa [split] using zero

theorem encodeChar_injective {c d : Char}
    (same : String.utf8EncodeChar c = String.utf8EncodeChar d) : c = d := by
  have decoded := congrArg (fun s => decodeRune (s ++ [])) same
  simpa only [decodeRune_encodeChar, Option.some.injEq] using decoded

/-- A byte that is a character by itself is in the encoding of no other. -/
theorem mem_encodeChar_iff {a c : Char} {b : UInt8} (single : String.utf8EncodeChar a = [b]) :
    b ∈ String.utf8EncodeChar c ↔ c = a := by
  constructor
  · intro mem
    obtain ⟨i, inside, at_⟩ := List.mem_iff_getElem.mp mem
    -- a byte behind the first is never the first byte of anything
    have first : b.IsUTF8FirstByte := isUTF8FirstByte_of_cons single
    have atZero : i = 0 :=
      UInt8.isUTF8FirstByte_getElem_utf8EncodeChar.mp (at_ ▸ first)
    obtain ⟨d, rest, split⟩ := encodeChar_eq_cons c
    subst atZero
    have head : d = b := by simpa [split] using at_
    have same : String.utf8EncodeChar c ++ [] = String.utf8EncodeChar a ++ rest := by
      rw [single, split, head, List.append_nil, List.singleton_append]
    have decoded := congrArg decodeRune same
    rw [decodeRune_encodeChar, decodeRune_encodeChar] at decoded
    exact Option.some.inj decoded
  · rintro rfl
    simp [single]

/-- A newline in the bytes of a text is a newline of the text. -/
theorem newline_mem_encode {s : GoString} : newline ∈ encode s ↔ '\n' ∈ s := by
  have char : ∀ c, newline ∈ String.utf8EncodeChar c ↔ c = '\n' := fun c =>
    mem_encodeChar_iff (by decide)
  simp [encode, char]

/-! ## From the back -/

/-- `utf8.DecodeLastRune`: the character whose encoding the string ends with. -/
def decodeLastRune (s : Bytes) : Option Char :=
  [1, 2, 3, 4].findSome? fun k =>
    (decodeRune (s.drop (s.length - k))).filter fun c => c.utf8Size = k

/-- A text's encoding is not the end of a longer one. -/
theorem append_encodeChar_ne {c d : Char} {front : Bytes} (some_ : front ≠ []) :
    front ++ String.utf8EncodeChar d ≠ String.utf8EncodeChar c := by
  intro same
  obtain ⟨b, rest, split⟩ := encodeChar_eq_cons d
  have first : b.IsUTF8FirstByte := isUTF8FirstByte_of_cons split
  have inside : front.length < (String.utf8EncodeChar c).length := by
    rw [← same, split]
    simp
  have at_ : (String.utf8EncodeChar c)[front.length] = b := by
    simp [← same, split]
  have zero : front.length = 0 :=
    UInt8.isUTF8FirstByte_getElem_utf8EncodeChar.mp (at_ ▸ first)
  exact some_ (List.eq_nil_of_length_eq_zero zero)

/-- What is found at the end is there. -/
theorem eq_of_decodeLastRune {s : Bytes} {c : Char} (h : decodeLastRune s = some c) :
    s = s.take (s.length - c.utf8Size) ++ String.utf8EncodeChar c := by
  obtain ⟨k, -, found⟩ := List.exists_of_findSome?_eq_some h
  obtain ⟨decoded, size⟩ := Option.filter_eq_some_iff.mp found
  rw [decide_eq_true_eq] at size
  obtain ⟨rest, split⟩ := decodeRune_eq_some_iff.mp decoded
  have lengths := congrArg List.length split
  rw [List.length_drop, List.length_append, String.length_utf8EncodeChar] at lengths
  have empty : rest = [] := List.eq_nil_of_length_eq_zero (by omega)
  rw [empty, List.append_nil, ← size] at split
  rw [← split, List.take_append_drop]

/-- **Decoding from the back** finds the last character of a text. -/
@[simp] theorem decodeLastRune_append (front : Bytes) (c : Char) :
    decodeLastRune (front ++ String.utf8EncodeChar c) = some c := by
  set s := front ++ String.utf8EncodeChar c with s_eq
  cases h : decodeLastRune s with
  | none =>
      have size : c.utf8Size ∈ [1, 2, 3, 4] := by
        have pos := c.utf8Size_pos
        have le := c.utf8Size_le_four
        interval_cases c.utf8Size <;> simp
      have none_ := List.findSome?_eq_none_iff.mp h _ size
      have suffix : s.drop (s.length - c.utf8Size) = String.utf8EncodeChar c ++ [] := by
        simp [s_eq]
      rw [suffix, decodeRune_encodeChar] at none_
      simp at none_
  | some d =>
      -- two encodings at the end of one string: neither is longer than the other
      have ends := eq_of_decodeLastRune h
      have split : front ++ String.utf8EncodeChar c =
          s.take (s.length - d.utf8Size) ++ String.utf8EncodeChar d := s_eq.symm.trans ends
      have same : String.utf8EncodeChar c = String.utf8EncodeChar d := by
        rcases List.append_eq_append_iff.mp split with ⟨more, -, longer⟩ | ⟨more, -, longer⟩
        · by_cases none_ : more = []
          · simpa [none_] using longer
          · exact absurd longer.symm (append_encodeChar_ne none_)
        · by_cases none_ : more = []
          · simpa [none_] using longer.symm
          · exact absurd longer.symm (append_encodeChar_ne none_)
      rw [encodeChar_injective same]

/-- The characters that `range` finds in a string; a byte that begins no encoding is the
replacement character.  `skip` bytes belong to the character before. -/
def runes : ℕ → Bytes → GoString
  | _, [] => []
  | skip + 1, _ :: rest => runes skip rest
  | 0, b :: rest =>
      match decodeRune (b :: rest) with
      | some c => c :: runes (c.utf8Size - 1) rest
      | none => '\uFFFD' :: runes 0 rest

theorem runes_skip (front s : Bytes) : runes front.length (front ++ s) = runes 0 s := by
  induction front with
  | nil => cases s <;> rfl
  | cons b rest ih => exact ih

/-- **The characters of an encoded text are its own.** -/
theorem runes_encode (s : GoString) : runes 0 (encode s) = s := by
  induction s with
  | nil => rfl
  | cons c s ih =>
      obtain ⟨b, rest, split⟩ := encodeChar_eq_cons c
      have size : c.utf8Size - 1 = rest.length := by
        rw [← String.length_utf8EncodeChar, split, List.length_cons, Nat.add_sub_cancel]
      have decoded : decodeRune (b :: (rest ++ encode s)) = some c := by
        rw [← List.cons_append, ← split, decodeRune_encodeChar]
      rw [encode_cons, split, List.cons_append]
      simp only [runes, decoded]
      rw [size, runes_skip, ih]

end Utf8

/-! ## Quoting -/

namespace Strconv

open Utf8

/-- The body of `strconv.Quote`, on bytes: the loop decodes a character at a
time, `skip` counts the bytes of the last one that are still to be passed over,
and a byte that begins no encoding is written in hexadecimal. -/
def quoteBytesBody (T : PrintTable) : ℕ → Bytes → Bytes
  | _, [] => []
  | skip + 1, _ :: rest => quoteBytesBody T skip rest
  | 0, b :: rest =>
      match decodeRune (b :: rest) with
      | some c => encode (escapedRune T c) ++ quoteBytesBody T (c.utf8Size - 1) rest
      | none => encode ('\\' :: 'x' :: hexDigits 2 b.toNat) ++ quoteBytesBody T 0 rest

/-- `strconv.Quote`. -/
def quoteBytes (T : PrintTable) (s : Bytes) : Bytes :=
  encode ['"'] ++ quoteBytesBody T 0 s ++ encode ['"']

/-- No digit is a newline. -/
theorem newline_not_mem_hexDigits (k n : ℕ) : '\n' ∉ hexDigits k n := by
  induction k generalizing n with
  | zero => simp [hexDigits]
  | succ k ih =>
      have digit : ∀ d < 16, Nat.digitChar d ≠ '\n' := by decide
      rw [hexDigits, List.mem_append, List.mem_singleton]
      rintro (front | last)
      · exact ih _ front
      · exact digit _ (Nat.mod_lt _ (by decide)) last.symm

/-- A character is written without a newline, also the newline itself. -/
theorem newline_not_mem_escapedRune (T : PrintTable) (c : Char) :
    '\n' ∉ escapedRune T c := by
  by_cases special : c = '"' ∨ c = '\\'
  · rw [escapedRune, if_pos special]
    rcases special with rfl | rfl <;> decide
  by_cases printable : T.isPrint c = true
  · rw [escapedRune, if_neg special, if_pos printable, List.mem_singleton]
    rintro rfl
    exact absurd (PrintTable.not_control_of_isPrint printable) (by decide)
  rw [escapedRune, if_neg special, if_neg printable]
  have short : ∀ d, d ≠ '\n' → '\n' ∉ ['\\', d] := fun d apart => by simp [apart.symm]
  have hex : ∀ d k, d ≠ '\n' → '\n' ∉ '\\' :: d :: hexDigits k c.toNat := fun d k apart => by
    simp [apart.symm, newline_not_mem_hexDigits]
  -- the seven escapes that have a letter of their own, and the three by number
  iterate 7
    split
    · exact short _ (by decide)
  split
  · exact hex _ _ (by decide)
  split <;> exact hex _ _ (by decide)

/-- **No string is quoted with a newline**, whatever its bytes. -/
theorem newline_not_mem_quoteBytes (T : PrintTable) (s : Bytes) :
    newline ∉ quoteBytes T s := by
  have body : ∀ skip, newline ∉ quoteBytesBody T skip s := by
    intro skip
    fun_induction quoteBytesBody T skip s with
    | case1 => simp
    | case2 skip b rest ih => exact ih
    | case3 b rest c decoded ih =>
        rw [List.mem_append, newline_mem_encode]
        exact not_or.mpr ⟨newline_not_mem_escapedRune T c, ih⟩
    | case4 b rest decoded ih =>
        rw [List.mem_append, newline_mem_encode]
        refine not_or.mpr ⟨?_, ih⟩
        simp [newline_not_mem_hexDigits]
  have quote : newline ∉ encode ['"'] := by decide
  rw [quoteBytes, List.mem_append, List.mem_append]
  rintro ((front | inside) | back)
  · exact quote front
  · exact body 0 inside
  · exact quote back

/-- The rest of a character's bytes is passed over. -/
theorem quoteBytesBody_skip (T : PrintTable) (front s : Bytes) :
    quoteBytesBody T front.length (front ++ s) = quoteBytesBody T 0 s := by
  induction front with
  | nil => rfl
  | cons b rest ih => exact ih

/-- **On a text, quoting its bytes is quoting its characters.** -/
theorem quoteBytes_encode (T : PrintTable) (s : GoString) :
    quoteBytes T (encode s) = encode (quote T s) := by
  have body : quoteBytesBody T 0 (encode s) = encode (quoteBody T s) := by
    induction s with
    | nil => rfl
    | cons c s ih =>
        obtain ⟨b, rest, split⟩ := encodeChar_eq_cons c
        have size : c.utf8Size - 1 = rest.length := by
          rw [← String.length_utf8EncodeChar, split, List.length_cons, Nat.add_sub_cancel]
        have decoded : decodeRune (b :: (rest ++ encode s)) = some c := by
          rw [← List.cons_append, ← split, decodeRune_encodeChar]
        rw [encode_cons, split, List.cons_append, quoteBytesBody, decoded]
        simp only [size, quoteBytesBody_skip, ih, quoteBody, List.flatMap_cons, encode_append]
  rw [quoteBytes, body, quote]
  simp

end Strconv

/-! ## Trimming -/

namespace Bytes

open Utf8

/-- `bytes.Replace` of one byte by another, everywhere. -/
def replaceByte (s : Bytes) (old new : UInt8) : Bytes :=
  s.map fun b => if b = old then new else b

/-- `bytes.TrimLeftFunc` with `unicode.IsSpace`; `skip` as above. -/
def trimLeft : ℕ → Bytes → Bytes
  | _, [] => []
  | skip + 1, _ :: rest => trimLeft skip rest
  | 0, b :: rest =>
      match decodeRune (b :: rest) with
      | some c => if Strings.isSpace c then trimLeft (c.utf8Size - 1) rest else b :: rest
      | none => b :: rest

/-- `bytes.TrimRightFunc` with `unicode.IsSpace`: each turn takes a character
off the end, so there are at most as many turns as bytes. -/
def trimRight : ℕ → Bytes → Bytes
  | 0, s => s
  | turns + 1, s =>
      match decodeLastRune s with
      | some c =>
          if Strings.isSpace c then trimRight turns (s.take (s.length - c.utf8Size)) else s
      | none => s

/-- `bytes.TrimSpace`. -/
def trimSpace (s : Bytes) : Bytes :=
  let front := trimLeft 0 s
  trimRight front.length front

theorem trimLeft_suffix (skip : ℕ) (s : Bytes) : trimLeft skip s <:+ s := by
  fun_induction trimLeft skip s with
  | case1 => exact List.suffix_rfl
  | case2 skip b rest ih => exact ih.trans (List.suffix_cons b rest)
  | case3 b rest c decoded space ih => exact ih.trans (List.suffix_cons b rest)
  | case4 | case5 => exact List.suffix_rfl

theorem trimRight_isPrefix (turns : ℕ) (s : Bytes) : trimRight turns s <+: s := by
  fun_induction trimRight turns s with
  | case2 turns s c decoded space ih => exact ih.trans (List.take_prefix _ s)
  | case1 | case3 | case4 => exact List.prefix_rfl

/-- **Trimming returns a part of its argument.** -/
theorem infix_trimSpace (s : Bytes) : trimSpace s <:+: s :=
  (trimRight_isPrefix _ _).isInfix.trans (trimLeft_suffix 0 s).isInfix

theorem newline_not_mem_replaceByte {new : UInt8} (differ : new ≠ newline) (s : Bytes) :
    newline ∉ replaceByte s newline new := by
  rw [replaceByte, List.mem_map]
  rintro ⟨b, -, eq⟩
  split at eq
  · exact differ eq
  · next other => exact other eq

/-! ### Texts -/

/-- The rest of a character's bytes is passed over. -/
theorem trimLeft_skip (front s : Bytes) :
    trimLeft front.length (front ++ s) = trimLeft 0 s := by
  induction front with
  | nil => cases s <;> rfl
  | cons b rest ih => exact ih

theorem trimLeft_encode (s : GoString) :
    trimLeft 0 (encode s) = encode (s.dropWhile Strings.isSpace) := by
  induction s with
  | nil => rfl
  | cons c s ih =>
      obtain ⟨b, rest, split⟩ := encodeChar_eq_cons c
      have size : c.utf8Size - 1 = rest.length := by
        rw [← String.length_utf8EncodeChar, split, List.length_cons, Nat.add_sub_cancel]
      have decoded : decodeRune (b :: (rest ++ encode s)) = some c := by
        rw [← List.cons_append, ← split, decodeRune_encodeChar]
      rw [encode_cons, split, List.cons_append, List.dropWhile_cons]
      simp only [trimLeft, decoded]
      by_cases space : Strings.isSpace c = true
      · rw [if_pos space, if_pos space, size, trimLeft_skip, ih]
      · rw [if_neg space, if_neg space, encode_cons, split, List.cons_append]

theorem trimRight_encode {turns : ℕ} {s : GoString} (enough : (encode s).length ≤ turns) :
    trimRight turns (encode s) = encode (s.rdropWhile Strings.isSpace) := by
  induction s using List.reverseRecOn generalizing turns with
  | nil => cases turns <;> rfl
  | append_singleton s c ih =>
      have last : encode (s ++ [c]) = encode s ++ String.utf8EncodeChar c := by simp
      have pos := c.utf8Size_pos
      have lengths := congrArg List.length last
      rw [List.length_append, String.length_utf8EncodeChar] at lengths
      obtain ⟨turns, rfl⟩ : ∃ more, turns = more + 1 := ⟨turns - 1, by omega⟩
      rw [last, List.rdropWhile_concat]
      simp only [trimRight, decodeLastRune_append]
      by_cases space : Strings.isSpace c = true
      · have front : (encode s ++ String.utf8EncodeChar c).take
            ((encode s ++ String.utf8EncodeChar c).length - c.utf8Size) = encode s := by
          simp
        rw [if_pos space, if_pos space, front]
        exact ih (by omega)
      · rw [if_neg space, if_neg space, last]

/-- **On a text, trimming its bytes is trimming its characters.** -/
theorem trimSpace_encode (s : GoString) :
    trimSpace (encode s) = encode (Strings.trimSpace s) := by
  rw [trimSpace, trimLeft_encode]
  exact trimRight_encode le_rfl

theorem replaceByte_encode (s : GoString) :
    replaceByte (encode s) newline 0x20 = encode (Strings.replaceByte s '\n' ' ') := by
  have char : ∀ c, replaceByte (String.utf8EncodeChar c) newline 0x20 =
      String.utf8EncodeChar (if c = '\n' then ' ' else c) := by
    intro c
    split
    · next eq => rw [eq]; decide
    · next other =>
        have same : ∀ b ∈ String.utf8EncodeChar c, (if b = newline then 0x20 else b) = b := by
          intro b mem
          have apart : b ≠ newline := fun eq =>
            other ((mem_encodeChar_iff (by decide)).mp (eq ▸ mem))
          rw [if_neg apart]
        exact (List.map_congr_left same).trans (List.map_id' _)
  induction s with
  | nil => rfl
  | cons c s ih =>
      have split : replaceByte (encode (c :: s)) newline 0x20 =
          replaceByte (String.utf8EncodeChar c) newline 0x20 ++
            replaceByte (encode s) newline 0x20 := List.map_append
      rw [split, char, ih]
      rfl

end Bytes

end PumaDev
