import Mathlib.Data.List.Induction
import PumaDev.Lib.JsonIndent

/-!
# White space at the ends of a JSON text, and its line feeds

A program that forwards a JSON text may tidy it: cut off what is blank at both ends, and put
it on one line.  The text then says the same.

What counts as blank may be more than the white space of JSON, as it is in Unicode.  Nothing
that is not visible in ASCII is of any use to the reader outside of a string literal
(`Invisible`), so such a character at an end means that the text is refused anyway.  And a line
feed can only stand where any white space can, since a string literal has none.
-/

namespace PumaDev

namespace Json

/-- The character is none of those that a text is made of outside of its string literals,
white space apart. -/
def Invisible (c : Char) : Prop := c.toNat ≤ 0x20 ∨ 0x7f ≤ c.toNat

instance (c : Char) : Decidable (Invisible c) := inferInstanceAs (Decidable (_ ∨ _))

namespace Invisible

variable {c : Char}

theorem ne (blank : Invisible c) (d : Char) (visible : ¬ Invisible d) : c ≠ d := by
  rintro rfl
  exact visible blank

/-- It is in no range of visible characters. -/
theorem notBetween (blank : Invisible c) (low high : Char) (visible : 0x20 < low.toNat)
    (visible' : high.toNat < 0x7f) : ¬ (low ≤ c ∧ c ≤ high) := by
  rintro ⟨above, below⟩
  have above : low.toNat ≤ c.toNat := above
  have below : c.toNat ≤ high.toNat := below
  rcases blank with small | large <;> omega

theorem isDigit (blank : Invisible c) : isDigit c = false := by
  have outside := blank.notBetween '0' '9' (by decide) (by decide)
  simpa [Json.isDigit] using outside

/-- It stands for nothing behind a backslash. -/
theorem escaped (blank : Invisible c) : escaped c = none := by
  unfold Json.escaped
  split
  all_goals first | rfl | exact absurd blank (by decide)

/-- It is no hexadecimal digit. -/
theorem hexValue (blank : Invisible c) : hexValue c = none := by
  rw [Json.hexValue, if_neg (blank.notBetween '0' '9' (by decide) (by decide)),
    if_neg (blank.notBetween 'a' 'f' (by decide) (by decide)),
    if_neg (blank.notBetween 'A' 'F' (by decide) (by decide))]

/-- It begins no value. -/
theorem beginValue (blank : Invisible c) (stack : List Frame) :
    beginValue stack c = if isSpace c then some ⟨stack, .value⟩ else none := by
  have start : Number.start c = none := by
    rw [Number.start, if_neg (blank.ne '-' (by decide)), if_neg (blank.ne '0' (by decide)),
      blank.isDigit]
    rfl
  rw [Json.beginValue, if_neg (blank.ne '{' (by decide)), if_neg (blank.ne '[' (by decide)),
    if_neg (blank.ne '"' (by decide)), if_neg (blank.ne 't' (by decide)),
    if_neg (blank.ne 'f' (by decide)), if_neg (blank.ne 'n' (by decide)), start]
  rfl

/-- It closes nothing. -/
theorem close (blank : Invisible c) (stack : List Frame) : close c stack = none := by
  unfold Json.close
  split
  · exact if_neg (blank.ne ']' (by decide))
  · exact if_neg (blank.ne '}' (by decide))
  · rfl

/-- Behind a value it is white space or refused. -/
theorem afterValue (blank : Invisible c) (s : Scan) :
    afterValue s c = if isSpace c then some s else none := by
  unfold Json.afterValue
  split
  · rfl
  · split
    · rw [if_neg (blank.ne ',' (by decide)), blank.close]
    · rw [if_neg (blank.ne ',' (by decide)), blank.close]
    · rfl

/-- It is no part of a number. -/
theorem number (blank : Invisible c) (a : Number) : a.read c = none := by
  have extend : ∀ a : Number, a.extend c = none := fun a => by
    rw [Number.extend, if_neg fun h => blank.ne '.' (by decide) h.1,
      if_neg fun h => h.elim (blank.ne 'e' (by decide)) (blank.ne 'E' (by decide))]
  unfold Number.read
  split <;> simp [blank.isDigit, blank.ne '0' (by decide), blank.ne '+' (by decide),
    blank.ne '-' (by decide), extend]

end Invisible

/-! ## At the ends -/

/-- **In front**, what is blank is skipped or refused. -/
theorem parse_dropWhile {blank : Char → Bool} (invisible : ∀ c, blank c = true → Invisible c)
    {cs : List Char} {v : Json} (parsed : parse cs = some v) :
    parse (cs.dropWhile blank) = some v := by
  induction cs with
  | nil => exact parsed
  | cons c cs ih =>
      cases front : blank c with
      | false => rwa [List.dropWhile_cons_of_neg (by simp [front])]
      | true =>
          rw [List.dropWhile_cons_of_pos front]
          refine ih ?_
          obtain ⟨s, reads, finish⟩ := Option.bind_eq_some_iff.mp parsed
          obtain ⟨t, first, rest⟩ := Option.bind_eq_some_iff.mp reads
          have skipped : t = ⟨[], .value⟩ := by
            have here : beginValue [] c = some t := first
            rw [(invisible c front).beginValue] at here
            split at here
            · exact (Option.some.inj here).symm
            · cases here
          subst skipped
          exact Option.bind_eq_some_iff.mpr ⟨s, rest, finish⟩

/-- A text that is finished behind an invisible character is finished in front of it. -/
theorem finish_of_read {s t : Scan} {c : Char} {v : Json} (blank : Invisible c)
    (literals : s.mode.Literals) (reads : read s c = some t) (finish : t.finish = some v) :
    s.finish = some v := by
  rcases s with ⟨stack, mode⟩
  cases mode with
  | value =>
      have here : beginValue stack c = some t := reads
      rw [blank.beginValue] at here
      split at here <;> cases here
      cases finish
  | valueOrEnd =>
      simp only [read, blank.close, blank.beginValue] at reads
      split_ifs at reads
      cases reads
      cases finish
  | keyOrEnd | key | colon =>
      simp only [read, blank.close, blank.ne '"' (by decide), blank.ne ':' (by decide),
        if_false] at reads
      split_ifs at reads
      cases reads
      cases finish
  | afterValue | done =>
      simp only [read, blank.afterValue] at reads
      split_ifs at reads
      cases reads
      exact finish
  | str isKey acc =>
      simp only [read, readString, blank.ne '"' (by decide), blank.ne '\\' (by decide),
        if_false] at reads
      split_ifs at reads
      cases reads
      cases finish
  | esc isKey acc =>
      simp only [read, blank.ne 'u' (by decide), if_false, blank.escaped, Option.map_none] at reads
      cases reads
  | hex isKey acc missing n =>
      simp only [read, blank.hexValue, Option.map_none] at reads
      cases reads
  | lit rest w =>
      cases rest with
      | nil => cases reads
      | cons d more =>
          have letters : ∀ e ∈ ['r', 'u', 'e', 'a', 'l', 's'], ¬ Invisible e := by decide
          have apart : c ≠ d := by
            rintro rfl
            exact letters c (literals c List.mem_cons_self) blank
          simp [read, apart] at reads
  | num a =>
      simp only [read, blank.number, blank.afterValue] at reads
      obtain ⟨w, ended, behind⟩ := Option.bind_eq_some_iff.mp reads
      split_ifs at behind
      cases behind
      cases stack with
      | nil => exact ended.trans finish
      | cons frame stack => cases frame <;> cases finish

/-- What the reader comes to keeps to letters in literal names. -/
theorem literals_scan {s t : Scan} {cs : List Char} (literals : s.mode.Literals)
    (reads : scan s cs = some t) : t.mode.Literals := by
  induction cs generalizing s with
  | nil =>
      cases reads
      exact literals
  | cons c cs ih =>
      obtain ⟨u, first, rest⟩ := Option.bind_eq_some_iff.mp reads
      exact ih (literals_read literals first) rest

/-- One invisible character behind a text. -/
theorem parse_of_concat {cs : List Char} {c : Char} {v : Json} (blank : Invisible c)
    (parsed : parse (cs ++ [c]) = some v) : parse cs = some v := by
  obtain ⟨t, reads, finish⟩ := Option.bind_eq_some_iff.mp parsed
  rw [scan_append] at reads
  obtain ⟨s, before, last⟩ := Option.bind_eq_some_iff.mp reads
  obtain ⟨u, last, end_⟩ := Option.bind_eq_some_iff.mp last
  cases end_
  exact Option.bind_eq_some_iff.mpr
    ⟨s, before, finish_of_read blank (literals_scan (s := ⟨[], .value⟩) trivial before) last finish⟩

/-- **Behind the text**, too, what is blank is skipped or refused. -/
theorem parse_dropWhile_reverse {blank : Char → Bool}
    (invisible : ∀ c, blank c = true → Invisible c) {cs : List Char} {v : Json}
    (parsed : parse cs = some v) : parse (cs.reverse.dropWhile blank).reverse = some v := by
  induction cs using List.reverseRecOn with
  | nil => exact parsed
  | append_singleton cs c ih =>
      rw [List.reverse_append, List.reverse_singleton, List.singleton_append]
      cases behind : blank c with
      | false =>
          rw [List.dropWhile_cons_of_neg (by simp [behind]), List.reverse_cons,
            List.reverse_reverse]
          exact parsed
      | true =>
          rw [List.dropWhile_cons_of_pos behind]
          exact ih (parse_of_concat (invisible c behind) parsed)

/-! ## Line feeds -/

/-- **Where a line feed can be read**, a space can, with the same result. -/
theorem read_space {s t : Scan} (literals : s.mode.Literals) (reads : read s '\n' = some t) :
    read s ' ' = some t := by
  have feed : Invisible '\n' := by decide
  have space : Invisible ' ' := by decide
  have blank : isSpace '\n' = true ∧ isSpace ' ' = true := by decide
  rcases s with ⟨stack, mode⟩
  cases mode with
  | value | valueOrEnd | keyOrEnd | key | colon =>
      simpa [read, feed.beginValue, space.beginValue, blank] using reads
  | afterValue | done => simpa [read, feed.afterValue, space.afterValue, blank] using reads
  | str isKey acc => simp [read, readString] at reads
  | esc isKey acc => simp [read, feed.escaped] at reads
  | hex isKey acc missing n => simp [read, feed.hexValue] at reads
  | lit rest w =>
      cases rest with
      | nil => cases reads
      | cons d more =>
          have letters : ∀ e ∈ ['r', 'u', 'e', 'a', 'l', 's'], '\n' ≠ e := by decide
          simp [read, letters d (literals d List.mem_cons_self)] at reads
  | num a => simpa [read, feed.number, space.number, feed.afterValue, space.afterValue, blank]
      using reads

/-- **A text on one line** is read as before. -/
theorem parse_oneLine {cs : List Char} {v : Json} (parsed : parse cs = some v) :
    parse (cs.map fun c => if c = '\n' then ' ' else c) = some v := by
  have same : ∀ {s t : Scan} {cs : List Char}, s.mode.Literals → scan s cs = some t →
      scan s (cs.map fun c => if c = '\n' then ' ' else c) = some t := by
    intro s t cs literals reads
    induction cs generalizing s with
    | nil => exact reads
    | cons c cs ih =>
        obtain ⟨u, first, rest⟩ := Option.bind_eq_some_iff.mp reads
        have next : read s (if c = '\n' then ' ' else c) = some u := by
          split
          · next feed => exact read_space literals (feed ▸ first)
          · exact first
        exact Option.bind_eq_some_iff.mpr ⟨u, next, ih (literals_read literals first) rest⟩
  obtain ⟨t, reads, finish⟩ := Option.bind_eq_some_iff.mp parsed
  exact Option.bind_eq_some_iff.mpr ⟨t, same trivial reads, finish⟩

end Json

end PumaDev
