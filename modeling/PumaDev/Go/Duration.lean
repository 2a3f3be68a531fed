import PumaDev.Go.Quote
import PumaDev.Lib.Binary64
import PumaDev.Lib.Json

/-!
# `time.ParseDuration`

A duration is a sign and a sequence of decimal numbers, each with an optional fraction
and a unit, such as `1h15m30.918s`.  It is an `int64` number of nanoseconds; the digits
before the point are read exactly and refused where they do not fit, those behind it are
converted by way of float64.
-/

namespace PumaDev

namespace Time

/-- Why a text is no duration. -/
inductive DurationError where
  | invalid
  | missingUnit
  | unknownUnit (unit : GoString)
  deriving DecidableEq

/-- `time.quote`. -/
def quote (s : GoString) : GoString :=
  '"' :: s.flatMap (fun c =>
    if c.toNat < 0x20 ∨ 0x80 ≤ c.toNat then
      (String.utf8EncodeChar c).flatMap fun b => '\\' :: 'x' :: Strconv.hexDigits 2 b.toNat
    else if c = '"' ∨ c = '\\' then ['\\', c]
    else [c]) ++ ['"']

/-- The message of an error about the text. -/
def DurationError.text (text : GoString) : DurationError → GoString
  | invalid => "time: invalid duration ".toList ++ quote text
  | missingUnit => "time: missing unit in duration ".toList ++ quote text
  | unknownUnit unit =>
      "time: unknown unit ".toList ++ quote unit ++ " in duration ".toList ++ quote text

/-- `time.Minute`. -/
def minute : ℤ := 60000000000

/-- `unitMap`, in nanoseconds. -/
def unitMap (u : GoString) : Option ℕ :=
  if u = "ns".toList then some 1
  else if u = "us".toList ∨ u = "\u00b5s".toList ∨ u = "\u03bcs".toList then some 1000
  else if u = "ms".toList then some 1000000
  else if u = "s".toList then some 1000000000
  else if u = "m".toList then some 60000000000
  else if u = "h".toList then some 3600000000000
  else none

/-- The digits of `leadingInt` after the value `x`; `none` where they do not fit. -/
def leadingInt (x : ℕ) : GoString → Option ℕ
  | [] => some x
  | c :: rest =>
      if 2 ^ 63 / 10 < x then none
      else
        let x := x * 10 + Json.digitValue c
        if 2 ^ 63 < x then none else leadingInt x rest

/-- The digits of `leadingFraction` after the value `x`, which has `k` digits: those that
do not fit are passed over. -/
def leadingFraction (x k : ℕ) : GoString → ℕ × ℕ
  | [] => (x, k)
  | c :: rest =>
      if (2 ^ 63 - 1) / 10 < x then (x, k)
      else
        let y := x * 10 + Json.digitValue c
        if 2 ^ 63 < y then (x, k) else leadingFraction y (k + 1) rest

/-- A conversion to float64, of a value that is far from overflow. -/
def float64 (x : ℚ) : ℚ := (binary64 x).getD 0

/-- `uint64(float64(f) * (float64(unit) / scale))`, where `scale` is `10 ^ k`. -/
def fraction (f k unit : ℕ) : ℕ := ⌊float64 (float64 f * float64 (float64 unit / 10 ^ k))⌋.toNat

/-- Where a number stops and its unit begins, or the other way round. -/
def isNumeral (c : Char) : Bool := c = '.' || Json.isDigit c

/-- The digits after a point, if there is one, and what follows them. -/
def afterPoint : GoString → GoString × GoString
  | '.' :: rest => (rest.takeWhile Json.isDigit, rest.dropWhile Json.isDigit)
  | s => ([], s)

/-- The value of a number with its unit. -/
def withUnit (v f k unit : ℕ) : Except DurationError ℕ :=
  if 2 ^ 63 / unit < v then .error .invalid
  else
    let v := v * unit + if 0 < f then fraction f k unit else 0
    if 2 ^ 63 < v then .error .invalid else .ok v

/-- One number with its unit: its value, and what follows it. -/
def component (s : GoString) : Except DurationError (ℕ × GoString) :=
  if ¬ (s.head?.any isNumeral) then .error .invalid
  else
    match leadingInt 0 (s.takeWhile Json.isDigit) with
    | none => .error .invalid
    | some v =>
        let (fractional, rest) := afterPoint (s.dropWhile Json.isDigit)
        let (f, k) := leadingFraction 0 0 fractional
        if s.takeWhile Json.isDigit = [] ∧ fractional = [] then .error .invalid
        else
          let u := rest.takeWhile fun c => !isNumeral c
          if u = [] then .error .missingUnit
          else
            match unitMap u with
            | none => .error (.unknownUnit u)
            | some unit =>
                match withUnit v f k unit with
                | .error err => .error err
                | .ok v => .ok (v, rest.dropWhile fun c => !isNumeral c)

/-- The loop, with what has been read so far. -/
def components (fuel d : ℕ) (s : GoString) : Except DurationError ℕ :=
  match fuel, s with
  | _, [] => .ok d
  | 0, _ :: _ => .error .invalid
  | fuel + 1, c :: s =>
      match component (c :: s) with
      | .error err => .error err
      | .ok (v, rest) =>
          if 2 ^ 63 < d + v then .error .invalid else components fuel (d + v) rest

/-- The sign: is the duration negative, and the text behind it. -/
def sign : GoString → Bool × GoString
  | '-' :: rest => (true, rest)
  | '+' :: rest => (false, rest)
  | s => (false, s)

/-- `time.ParseDuration`, in nanoseconds. -/
def parseDuration (s : GoString) : Except DurationError ℤ :=
  if (sign s).2 = ['0'] then .ok 0
  else if (sign s).2 = [] then .error .invalid
  else
    match components (sign s).2.length 0 (sign s).2 with
    | .error err => .error err
    | .ok d =>
        if (sign s).1 then .ok (-(d : ℤ))
        else if 2 ^ 63 - 1 < d then .error .invalid
        else .ok d

/-! ## The loop ends, and what it gives fits -/

theorem length_afterPoint_le (s : GoString) : (afterPoint s).2.length ≤ s.length := by
  unfold afterPoint
  split
  · exact (List.dropWhile_suffix _).length_le.trans (Nat.le_succ _)
  · exact le_refl _

/-- **What follows a component is shorter.** -/
theorem length_lt_of_component {s rest : GoString} {v : ℕ} (h : component s = .ok (v, rest)) :
    rest.length < s.length := by
  unfold component at h
  dsimp only at h
  split at h
  · cases h
  · split at h
    · cases h
    · split at h
      · cases h
      · split at h
        · cases h
        · next hasUnit =>
            split at h
            · cases h
            · split at h
              · cases h
              · cases h
                have digits := (List.dropWhile_suffix (l := s) Json.isDigit).length_le
                have point := length_afterPoint_le (s.dropWhile Json.isDigit)
                -- the unit is not empty
                have unit := List.length_pos_of_ne_nil hasUnit
                have parts := congrArg List.length (List.takeWhile_append_dropWhile
                  (p := fun c => !isNumeral c) (l := (afterPoint (s.dropWhile Json.isDigit)).2))
                rw [List.length_append] at parts
                omega

/-- As many turns as there are characters are enough. -/
theorem components_of_le {fuel d : ℕ} {s : GoString} (enough : s.length ≤ fuel) :
    components fuel d s = components s.length d s := by
  induction fuel using Nat.strong_induction_on generalizing d s with
  | h fuel ih =>
      cases s with
      | nil => cases fuel <;> rfl
      | cons c s =>
          obtain ⟨fuel, rfl⟩ : ∃ n, fuel = n + 1 := ⟨fuel - 1, by simp at enough; omega⟩
          rw [List.length_cons] at enough
          rw [List.length_cons, components, components]
          cases read : component (c :: s) with
          | error err => rfl
          | ok found =>
              obtain ⟨v, rest⟩ := found
              have shorter := length_lt_of_component read
              rw [List.length_cons] at shorter
              dsimp only
              rw [ih fuel (by omega) (by omega), ih s.length (by omega) (by omega)]

/-- Five minutes. -/
example : parseDuration "5m".toList = .ok (5 * minute) := by decide +kernel

end Time

end PumaDev
