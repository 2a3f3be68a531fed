import PumaDev.Go.Duration
import PumaDev.Go.Os

/-!
# `Duration.String`

A duration is written from its last digit to its first: the fraction without its trailing
zeros, then the seconds, and minutes and hours where there are any.  Below a second there is
one number, in the largest unit that leaves something before the point.

`time.ParseDuration` converts a fraction by way of float64.  Here no digit is lost by it: the
fraction of a unit of `10 ^ p` nanoseconds has at most `p` digits, so every factor of the
product is an integer that is a double (`fraction_exact`).  The text is read back part by part
(`Adds`), and `parseDuration_string` holds for every duration there is.
-/

namespace PumaDev

namespace Time

/-! ## Writing -/

/-- The loop of `fmtFrac`: has a digit been written, the text so far, and what is left of the
value. -/
def fracDigits : ℕ → Bool → GoString → ℕ → Bool × GoString × ℕ
  | 0, print, w, v => (print, w, v)
  | prec + 1, print, w, v =>
      let digit := v % 10
      let print := print || digit != 0
      fracDigits prec print (if print then Nat.digitChar digit :: w else w) (v / 10)

/-- `fmtFrac`: the text, and the value before the point. -/
def fmtFrac (w : GoString) (v prec : ℕ) : GoString × ℕ :=
  match fracDigits prec false w v with
  | (print, w, v) => (if print then '.' :: w else w, v)

/-- `fmtInt`. -/
def fmtInt (w : GoString) (v : ℕ) : GoString := Nat.toDigits 10 v ++ w

/-- A number with a fraction. -/
def fmtDecimal (unit : GoString) (u prec : ℕ) : GoString :=
  match fmtFrac unit u prec with
  | (w, v) => fmtInt w v

/-- The minutes and hours before a text. -/
def fmtMinutes (w : GoString) (u : ℕ) : GoString :=
  if 0 < u then
    let w := fmtInt ('m' :: w) (u % 60)
    if 0 < u / 60 then fmtInt ('h' :: w) (u / 60) else w
  else w

/-- A duration without its sign. -/
def magnitude (u : ℕ) : GoString :=
  if u < 1000000000 then
    if u = 0 then "0s".toList
    else if u < 1000 then fmtDecimal "ns".toList u 0
    else if u < 1000000 then fmtDecimal "\u00b5s".toList u 3
    else fmtDecimal "ms".toList u 6
  else
    match fmtFrac "s".toList u 9 with
    | (w, u) => fmtMinutes (fmtInt w (u % 60)) (u / 60)

/-- `Duration.String`. -/
def Duration.string (d : Int64) : GoString :=
  if d.toInt < 0 then '-' :: magnitude d.toInt.natAbs else magnitude d.toInt.natAbs

/-! ## The digits of a fraction -/

/-- The last `k` decimal digits of `n`. -/
def decimals : ℕ → ℕ → GoString
  | 0, _ => []
  | k + 1, n => Nat.digitChar (n / 10 ^ k % 10) :: decimals k n

theorem decimals_succ (k n : ℕ) :
    decimals (k + 1) n = decimals k (n / 10) ++ [Nat.digitChar (n % 10)] := by
  induction k with
  | zero => simp [decimals]
  | succ k ih =>
      have shift : n / 10 ^ (k + 1) = n / 10 / 10 ^ k := by
        rw [Nat.div_div_eq_div_mul, pow_succ']
      rw [decimals, ih, decimals, shift, List.cons_append]

theorem isDigit_of_mem_decimals {k n : ℕ} {c : Char} (mem : c ∈ decimals k n) :
    Json.isDigit c = true := by
  induction k with
  | zero => cases mem
  | succ k ih =>
      rcases List.mem_cons.mp mem with rfl | later
      · exact Json.isDigit_digitChar (Nat.mod_lt _ (by decide))
      · exact ih later

/-- Once a digit has been written, all are. -/
theorem fracDigits_true (prec : ℕ) (w : GoString) (v : ℕ) :
    fracDigits prec true w v = (true, decimals prec v ++ w, v / 10 ^ prec) := by
  induction prec generalizing w v with
  | zero => simp [fracDigits, decimals]
  | succ prec ih =>
      rw [fracDigits, Bool.true_or, if_pos rfl, ih, decimals_succ, List.append_assoc,
        Nat.div_div_eq_div_mul, pow_succ', List.singleton_append]

/-- **The digits of a fraction**: none where it is zero, and else all but its trailing zeros. -/
theorem fracDigits_false (prec : ℕ) (w : GoString) (v : ℕ) :
    (v % 10 ^ prec = 0 ∧ fracDigits prec false w v = (false, w, v / 10 ^ prec)) ∨
      ∃ k z, k + 1 + z = prec ∧ v % 10 ^ z = 0 ∧ fracDigits prec false w v =
        (true, decimals (k + 1) (v / 10 ^ z) ++ w, v / 10 ^ prec) := by
  induction prec generalizing v with
  | zero => exact Or.inl ⟨by simp [Nat.mod_one], by simp [fracDigits]⟩
  | succ prec ih =>
      have next : v / 10 / 10 ^ prec = v / 10 ^ (prec + 1) := by
        rw [Nat.div_div_eq_div_mul, pow_succ']
      by_cases zero : v % 10 = 0
      · have step : fracDigits (prec + 1) false w v = fracDigits prec false w (v / 10) := by
          rw [fracDigits, zero]
          rfl
        have tens : ∀ z, v / 10 % 10 ^ z = 0 → v % 10 ^ (z + 1) = 0 := by
          intro z rest
          rw [pow_succ', Nat.mod_mul, rest, zero]
        rw [step]
        rcases ih (v / 10) with ⟨rest, written⟩ | ⟨k, z, split, rest, written⟩
        · exact Or.inl ⟨tens prec rest, by rw [written, next]⟩
        · refine Or.inr ⟨k, z + 1, by omega, tens z rest, ?_⟩
          rw [written, next, Nat.div_div_eq_div_mul, ← pow_succ']
      · refine Or.inr ⟨prec, 0, rfl, by simp [Nat.mod_one], ?_⟩
        have first : (false || v % 10 != 0) = true := by simp [zero]
        rw [fracDigits, first, if_pos rfl, fracDigits_true, next, pow_zero, Nat.div_one,
          decimals_succ, List.append_assoc, List.singleton_append]

/-- Digits that fit are read. -/
theorem leadingFraction_decimals {x j k n : ℕ} (fits : x * 10 ^ k + 10 ^ k ≤ 2 ^ 62) :
    leadingFraction x j (decimals k n) = (x * 10 ^ k + n % 10 ^ k, j + k) := by
  induction k generalizing x j with
  | zero => simp [decimals, leadingFraction, Nat.mod_one]
  | succ k ih =>
      have digit : n / 10 ^ k % 10 < 10 := Nat.mod_lt _ (by decide)
      have power : 10 ^ (k + 1) = 10 * 10 ^ k := pow_succ' 10 k
      have positive : 0 < 10 ^ k := Nat.pow_pos (by decide)
      rw [power] at fits
      have small : x * 10 + 10 ≤ 2 ^ 62 := by nlinarith
      have next : (x * 10 + n / 10 ^ k % 10) * 10 ^ k + 10 ^ k ≤ 2 ^ 62 := by nlinarith
      rw [decimals, leadingFraction, if_neg (by omega), Json.digitValue_digitChar digit,
        if_neg (by omega), ih next, power, mul_comm 10 (10 ^ k), Nat.mod_mul]
      simp only [Prod.mk.injEq]
      constructor
      · ring
      · omega

/-! ## Fractions are exact -/

theorem float64_natCast {n : ℕ} (small : n < 2 ^ 53) : float64 (n : ℚ) = n := by
  have exact := binary64_intCast (n := (n : ℤ)) (by rw [Nat.abs_cast]; exact_mod_cast small)
  rw [Int.cast_natCast] at exact
  rw [float64, exact, Option.getD_some]

/-- **A fraction of a power of ten loses no digit.** -/
theorem fraction_exact {f k z : ℕ} (digits : f < 10 ^ k) (small : k + z ≤ 9) :
    fraction f k (10 ^ (k + z)) = f * 10 ^ z := by
  have whole : 10 ^ (k + z) ≤ 10 ^ 9 := Nat.pow_le_pow_right (by decide) small
  have scale : (10 : ℕ) ^ z ≤ 10 ^ (k + z) := Nat.pow_le_pow_right (by decide) (by omega)
  have product : f * 10 ^ z < 10 ^ (k + z) := by
    rw [pow_add]
    exact Nat.mul_lt_mul_of_pos_right digits (Nat.pow_pos (by decide))
  have lower : f ≤ f * 10 ^ z := Nat.le_mul_of_pos_right f (Nat.pow_pos (by decide))
  have bound : (10 : ℕ) ^ 9 < 2 ^ 53 := by decide
  have quotient : float64 ((10 ^ (k + z) : ℕ) : ℚ) / 10 ^ k = ((10 ^ z : ℕ) : ℚ) := by
    rw [float64_natCast (by omega), pow_add]
    push_cast
    field_simp
  have factors : (f : ℚ) * ((10 ^ z : ℕ) : ℚ) = ((f * 10 ^ z : ℕ) : ℚ) := by push_cast; rfl
  rw [fraction, quotient, float64_natCast (by omega), float64_natCast (by omega), factors,
    float64_natCast (by omega), Int.floor_natCast, Int.toNat_natCast]

/-! ## Reading one number -/

theorem leadingInt_toDigits {n : ℕ} (fits : n ≤ 2 ^ 63) :
    leadingInt 0 (Nat.toDigits 10 n) = some n := by
  have step : ∀ (s t : GoString) (x : ℕ),
      leadingInt x (s ++ t) = (leadingInt x s).bind fun y => leadingInt y t := by
    intro s t
    induction s with
    | nil => exact fun x => rfl
    | cons c s ih =>
        intro x
        rw [List.cons_append, leadingInt, leadingInt]
        split
        · rfl
        · dsimp only
          split
          · rfl
          · exact ih _
  induction n using Nat.strongRecOn with
  | ind n ih =>
      by_cases one : n < 10
      · rw [Nat.toDigits_of_lt_base one, leadingInt, Json.digitValue_digitChar one,
          if_neg (by decide), if_neg (by omega), leadingInt, Nat.zero_mul, Nat.zero_add]
      · have digit : n % 10 < 10 := Nat.mod_lt _ (by decide)
        rw [Nat.toDigits_of_base_le (by decide) (by omega), step, ih (n / 10) (by omega) (by omega),
          Option.bind_some, leadingInt, Json.digitValue_digitChar digit, if_neg (by omega)]
        have value : n / 10 * 10 + n % 10 = n := by omega
        rw [value, if_neg (by omega), leadingInt]

theorem isDigit_of_mem_toDigits {n : ℕ} {c : Char} (mem : c ∈ Nat.toDigits 10 n) :
    Json.isDigit c = true := Strconv.isDigit_of_mem_itoa (n := n) mem

/-- The fraction of a number, as it stands behind the digits. -/
def pointText (ds : GoString) : GoString := if ds = [] then [] else '.' :: ds

theorem afterPoint_pointText {ds t : GoString} (digits : ∀ c ∈ ds, Json.isDigit c = true)
    (stops : t.head?.any isNumeral = false) : afterPoint (pointText ds ++ t) = (ds, t) := by
  have front : ∀ c, t.head? = some c → isNumeral c = false := by
    intro c head
    rw [head] at stops
    exact stops
  unfold pointText
  split
  · next empty =>
      subst empty
      cases t with
      | nil => rfl
      | cons c t =>
          have other : c ≠ '.' := by
            rintro rfl
            exact absurd (front _ rfl) (by decide)
          rw [List.nil_append, afterPoint]
          rintro rest split
          exact other (List.cons.inj split).1
  · have whole : ∀ c, t.head? = some c → Json.isDigit c = false := fun c head =>
      (Bool.or_eq_false_iff.mp (front c head)).2
    rw [List.cons_append, afterPoint, List.takeWhile_append_of_pos digits,
      List.dropWhile_append_of_pos digits]
    cases t with
    | nil => simp
    | cons c t => simp [whole c rfl]

/-- **A number with a fraction and a unit** is read as these. -/
theorem component_spelled {n : ℕ} (fits : n ≤ 2 ^ 63) {ds u rest : GoString} {unit f k : ℕ}
    (digits : ∀ c ∈ ds, Json.isDigit c = true) (fractional : leadingFraction 0 0 ds = (f, k))
    (known : unitMap u = some unit) (plain : ∀ c ∈ u, isNumeral c = false)
    (stops : rest = [] ∨ rest.head?.any isNumeral = true) :
    component (Nat.toDigits 10 n ++ (pointText ds ++ (u ++ rest))) =
      (withUnit n f k unit).map fun v => (v, rest) := by
  obtain ⟨d, more, first⟩ := List.exists_cons_of_ne_nil (Nat.toDigits_ne_nil (b := 10) (n := n))
  have nonempty : u ≠ [] := by
    rintro rfl
    cases known
  obtain ⟨c, u', start⟩ := List.exists_cons_of_ne_nil nonempty
  have numbers : ∀ c ∈ Nat.toDigits 10 n, Json.isDigit c = true :=
    fun c mem => isDigit_of_mem_toDigits mem
  have unitStops : (u ++ rest).head?.any isNumeral = false := by
    rw [start]
    exact plain c (by rw [start]; exact List.mem_cons_self)
  -- the digits end where the point or the unit begins
  have ends : ∀ c, (pointText ds ++ (u ++ rest)).head? = some c → Json.isDigit c = false := by
    intro b head
    unfold pointText at head
    split at head
    · rw [List.nil_append] at head
      rw [head] at unitStops
      exact (Bool.or_eq_false_iff.mp unitStops).2
    · cases head
      decide
  have leading : (Nat.toDigits 10 n ++ (pointText ds ++ (u ++ rest))).takeWhile Json.isDigit =
      Nat.toDigits 10 n ∧
      (Nat.toDigits 10 n ++ (pointText ds ++ (u ++ rest))).dropWhile Json.isDigit =
        pointText ds ++ (u ++ rest) := by
    rw [List.takeWhile_append_of_pos numbers, List.dropWhile_append_of_pos numbers]
    cases tail : pointText ds ++ (u ++ rest) with
    | nil => simp
    | cons b t =>
        have other := ends b (by rw [tail]; rfl)
        simp [other]
  have unitText : (u ++ rest).takeWhile (fun c => !isNumeral c) = u ∧
      (u ++ rest).dropWhile (fun c => !isNumeral c) = rest := by
    have none_ : ∀ c ∈ u, (!isNumeral c) = true := fun c mem => by rw [plain c mem]; rfl
    rw [List.takeWhile_append_of_pos none_, List.dropWhile_append_of_pos none_]
    rcases stops with rfl | stops
    · simp
    · cases rest with
      | nil => simp
      | cons b t =>
          have numeral : isNumeral b = true := stops
          simp [numeral]
  have head : (Nat.toDigits 10 n ++ (pointText ds ++ (u ++ rest))).head?.any isNumeral = true := by
    rw [first]
    exact Bool.or_eq_true_iff.mpr (Or.inr (numbers d (by rw [first]; exact List.mem_cons_self)))
  unfold component
  rw [if_neg (by rw [head]; decide), leading.1, leading.2, leadingInt_toDigits fits]
  dsimp only
  rw [afterPoint_pointText digits unitStops]
  dsimp only
  rw [fractional]
  dsimp only
  rw [if_neg (fun both => Nat.toDigits_ne_nil both.1), unitText.1, unitText.2, if_neg nonempty,
    known]
  dsimp only
  cases withUnit n f k unit <;> rfl

/-! ## Reading the whole -/

/-- The text adds `v` to what has been read, wherever this fits. -/
def Adds (w : GoString) (v : ℕ) : Prop :=
  (w = [] ∨ w.head?.any isNumeral = true) ∧
    ∀ d, d + v ≤ 2 ^ 63 → components w.length d w = .ok (d + v)

theorem adds_nil : Adds [] 0 := ⟨Or.inl rfl, fun _ _ => rfl⟩

/-- One more number in front. -/
theorem Adds.number {rest : GoString} {v m n : ℕ} (behind : Adds rest v) (fits : n ≤ 2 ^ 63)
    {ds u : GoString} {unit f k : ℕ} (digits : ∀ c ∈ ds, Json.isDigit c = true)
    (fractional : leadingFraction 0 0 ds = (f, k)) (known : unitMap u = some unit)
    (plain : ∀ c ∈ u, isNumeral c = false) (value : withUnit n f k unit = .ok m) :
    Adds (Nat.toDigits 10 n ++ (pointText ds ++ (u ++ rest))) (m + v) := by
  have read := component_spelled fits digits fractional known plain behind.1
  rw [value] at read
  obtain ⟨c, more, first⟩ := List.exists_cons_of_ne_nil (Nat.toDigits_ne_nil (b := 10) (n := n))
  have digit : Json.isDigit c = true :=
    isDigit_of_mem_toDigits (n := n) (by rw [first]; exact List.mem_cons_self)
  rw [first, List.cons_append] at read ⊢
  refine ⟨Or.inr (Bool.or_eq_true_iff.mpr (Or.inr digit)), fun d bound => ?_⟩
  have shorter := length_lt_of_component read
  rw [List.length_cons] at shorter ⊢
  rw [components, read]
  show (if 2 ^ 63 < d + m then _ else components _ (d + m) rest) = _
  rw [if_neg (by omega), components_of_le (by omega), behind.2 (d + m) (by omega), add_assoc]

/-- A whole number of a unit. -/
theorem Adds.whole {rest : GoString} {v n : ℕ} (behind : Adds rest v) {u : GoString} {unit : ℕ}
    (known : unitMap u = some unit) (positive : 0 < unit)
    (plain : ∀ c ∈ u, isNumeral c = false) (fits : n * unit ≤ 2 ^ 63) :
    Adds (fmtInt (u ++ rest) n) (n * unit + v) := by
  have below : n ≤ 2 ^ 63 := (Nat.le_mul_of_pos_right n positive).trans fits
  have value : withUnit n 0 0 unit = .ok (n * unit) := by
    rw [withUnit, if_neg (not_lt.mpr ((Nat.le_div_iff_mul_le positive).mpr fits))]
    dsimp only
    rw [if_neg (lt_irrefl 0), Nat.add_zero, if_neg (by omega)]
  have nothing : ∀ c ∈ ([] : GoString), Json.isDigit c = true := by simp
  have adds := behind.number below nothing rfl known plain value
  rwa [pointText, if_pos rfl, List.nil_append] at adds

theorem fmtFrac_snd (w : GoString) (v prec : ℕ) : (fmtFrac w v prec).2 = v / 10 ^ prec := by
  rcases fracDigits_false prec w v with ⟨-, written⟩ | ⟨k, z, -, -, written⟩ <;>
    rw [fmtFrac, written]

/-- **A number with a fraction**, of a unit of `10 ^ prec` nanoseconds. -/
theorem adds_fmtFrac {u : GoString} {prec n v : ℕ} (known : unitMap u = some (10 ^ prec))
    (small : prec ≤ 9) (plain : ∀ c ∈ u, isNumeral c = false)
    (fits : n * 10 ^ prec + v % 10 ^ prec ≤ 2 ^ 63) :
    Adds (fmtInt (fmtFrac u v prec).1 n) (n * 10 ^ prec + v % 10 ^ prec) := by
  have positive : 0 < 10 ^ prec := Nat.pow_pos (by decide)
  rw [fmtFrac]
  rcases fracDigits_false prec u v with ⟨rest, written⟩ | ⟨k, z, split, rest, written⟩
  · rw [written, rest]
    have adds := adds_nil.whole (n := n) known positive plain (by omega)
    rwa [List.append_nil] at adds
  · rw [written]
    show Adds (fmtInt ('.' :: (decimals (k + 1) (v / 10 ^ z) ++ u)) n) _
    have digits := leadingFraction_decimals (x := 0) (j := 0) (k := k + 1) (n := v / 10 ^ z)
      (by
        have bound : 10 ^ (k + 1) ≤ 10 ^ 9 := Nat.pow_le_pow_right (by decide) (by omega)
        omega)
    rw [Nat.zero_mul, Nat.zero_add, Nat.zero_add] at digits
    have power : 10 ^ prec = 10 ^ z * 10 ^ (k + 1) := by
      rw [← pow_add, ← split, Nat.add_comm]
    -- the digits that are left stand for the whole fraction
    have scaled : v / 10 ^ z % 10 ^ (k + 1) * 10 ^ z = v % 10 ^ prec := by
      rw [power, Nat.mod_mul, rest, Nat.zero_add, mul_comm]
    have exact : (if 0 < v / 10 ^ z % 10 ^ (k + 1) then
        fraction (v / 10 ^ z % 10 ^ (k + 1)) (k + 1) (10 ^ prec) else 0) = v % 10 ^ prec := by
      rw [← scaled]
      split
      · rw [← split]
        exact fraction_exact (Nat.mod_lt _ (Nat.pow_pos (by decide))) (by omega)
      · next zero => rw [Nat.eq_zero_of_not_pos zero, Nat.zero_mul]
    have value : withUnit n (v / 10 ^ z % 10 ^ (k + 1)) (k + 1) (10 ^ prec) =
        .ok (n * 10 ^ prec + v % 10 ^ prec) := by
      rw [withUnit, if_neg (not_lt.mpr ((Nat.le_div_iff_mul_le positive).mpr (by omega)))]
      dsimp only
      rw [exact, if_neg (by omega)]
    have below : n ≤ 2 ^ 63 := (Nat.le_mul_of_pos_right n positive).trans (by omega)
    have adds := adds_nil.number below (fun c mem => isDigit_of_mem_decimals mem) digits known
      plain value
    have some_ : decimals (k + 1) (v / 10 ^ z) ≠ [] := List.cons_ne_nil _ _
    rwa [pointText, if_neg some_, List.append_nil, Nat.add_zero] at adds

theorem adds_fmtDecimal {u : GoString} {prec v : ℕ} (known : unitMap u = some (10 ^ prec))
    (small : prec ≤ 9) (plain : ∀ c ∈ u, isNumeral c = false) (fits : v ≤ 2 ^ 63) :
    Adds (fmtDecimal u v prec) v := by
  have parts : v / 10 ^ prec * 10 ^ prec + v % 10 ^ prec = v := Nat.div_add_mod' v _
  have adds := adds_fmtFrac (n := v / 10 ^ prec) (v := v) known small plain (by omega)
  rw [parts] at adds
  show Adds (fmtInt (fmtFrac u v prec).1 (fmtFrac u v prec).2) v
  rwa [fmtFrac_snd]

/-- Minutes and hours in front. -/
theorem Adds.minutes {w : GoString} {v u : ℕ} (behind : Adds w v)
    (fits : u * 60000000000 ≤ 2 ^ 63) : Adds (fmtMinutes w u) (u * 60000000000 + v) := by
  have minutes : u % 60 * 60000000000 ≤ 2 ^ 63 :=
    (Nat.mul_le_mul_right _ (Nat.mod_le u 60)).trans fits
  have hours : u / 60 * 3600000000000 ≤ 2 ^ 63 := by
    calc u / 60 * 3600000000000 = u / 60 * 60 * 60000000000 := (Nat.mul_assoc _ 60 60000000000).symm
      _ ≤ u * 60000000000 := Nat.mul_le_mul_right _ (Nat.div_mul_le_self u 60)
      _ ≤ 2 ^ 63 := fits
  clear fits
  unfold fmtMinutes
  split
  · have m := behind.whole (u := ['m']) (n := u % 60) rfl (by decide) (by decide) minutes
    dsimp only
    split
    · have h := m.whole (u := ['h']) (n := u / 60) rfl (by decide) (by decide) hours
      rwa [show u / 60 * 3600000000000 + (u % 60 * 60000000000 + v) = u * 60000000000 + v by
        clear minutes hours; omega] at h
    · rwa [show u % 60 * 60000000000 + v = u * 60000000000 + v by
        clear minutes hours; omega] at m
  · rwa [show u * 60000000000 + v = v by clear minutes hours; omega]

/-- **The text of a duration adds the duration.** -/
theorem adds_magnitude {u : ℕ} (fits : u ≤ 2 ^ 63) : Adds (magnitude u) u := by
  unfold magnitude
  split_ifs with sub zero nano micro
  · subst zero
    exact adds_nil.whole (u := ['s']) (n := 0) rfl (by decide) (by decide) (by decide)
  · exact adds_fmtDecimal rfl (by decide) (by decide) fits
  · exact adds_fmtDecimal rfl (by decide) (by decide) fits
  · exact adds_fmtDecimal rfl (by decide) (by decide) fits
  · show Adds (fmtMinutes (fmtInt (fmtFrac "s".toList u 9).1 ((fmtFrac "s".toList u 9).2 % 60))
      ((fmtFrac "s".toList u 9).2 / 60)) u
    rw [fmtFrac_snd]
    have seconds : Adds (fmtInt (fmtFrac "s".toList u 9).1 (u / 10 ^ 9 % 60))
        (u / 10 ^ 9 % 60 * 10 ^ 9 + u % 10 ^ 9) :=
      adds_fmtFrac rfl le_rfl (by decide) (by omega)
    have adds := seconds.minutes (u := u / 10 ^ 9 / 60) (by omega)
    rwa [show u / 10 ^ 9 / 60 * 60000000000 + (u / 10 ^ 9 % 60 * 10 ^ 9 + u % 10 ^ 9) = u by
      omega] at adds

/-! ## The round trip -/

/-- A duration has two characters at least, the first of them a digit. -/
theorem magnitude_eq_cons (u : ℕ) :
    ∃ c d w, magnitude u = c :: d :: w ∧ Json.isDigit c = true := by
  have number : ∀ (n : ℕ) (t : GoString), t ≠ [] →
      ∃ c d w, fmtInt t n = c :: d :: w ∧ Json.isDigit c = true := by
    intro n t nonempty
    obtain ⟨c, more, first⟩ := List.exists_cons_of_ne_nil (Nat.toDigits_ne_nil (b := 10) (n := n))
    have digit : Json.isDigit c = true :=
      isDigit_of_mem_toDigits (n := n) (by rw [first]; exact List.mem_cons_self)
    obtain ⟨d, w, rest⟩ :=
      List.exists_cons_of_ne_nil (List.append_ne_nil_of_right_ne_nil more nonempty)
    exact ⟨c, d, w, by rw [fmtInt, first, List.cons_append, rest], digit⟩
  have unit : ∀ (w : GoString) (v prec : ℕ), w ≠ [] → (fmtFrac w v prec).1 ≠ [] := by
    intro w v prec nonempty
    rcases fracDigits_false prec w v with ⟨-, written⟩ | ⟨k, z, -, -, written⟩
    · rw [fmtFrac, written]
      exact nonempty
    · rw [fmtFrac, written]
      exact List.cons_ne_nil _ _
  have decimal : ∀ (w : GoString) (v prec : ℕ), w ≠ [] →
      ∃ c d t, fmtDecimal w v prec = c :: d :: t ∧ Json.isDigit c = true :=
    fun w v prec nonempty => number _ _ (unit w v prec nonempty)
  unfold magnitude
  split_ifs
  · exact ⟨'0', 's', [], rfl, rfl⟩
  · exact decimal _ u 0 (by decide)
  · exact decimal _ u 3 (by decide)
  · exact decimal _ u 6 (by decide)
  · have seconds := unit "s".toList u 9 (by decide)
    generalize fmtFrac "s".toList u 9 = written at seconds
    show ∃ c d w, fmtMinutes (fmtInt written.1 (written.2 % 60)) (written.2 / 60) = c :: d :: w ∧ _
    unfold fmtMinutes
    split_ifs
    · exact number _ _ (List.cons_ne_nil _ _)
    · exact number _ _ (List.cons_ne_nil _ _)
    · exact number _ _ seconds

/-- **`time.ParseDuration` reads what `Duration.String` writes**, for every duration. -/
theorem parseDuration_string (d : Int64) : parseDuration (Duration.string d) = .ok d.toInt := by
  have lower : -2 ^ 63 ≤ d.toInt := Int64.le_toInt d
  have upper : d.toInt < 2 ^ 63 := Int64.toInt_lt d
  have fits : d.toInt.natAbs ≤ 2 ^ 63 := by omega
  obtain ⟨c, b, w, text, digit⟩ := magnitude_eq_cons d.toInt.natAbs
  have read := (adds_magnitude fits).2 0 (by omega)
  rw [Nat.zero_add] at read
  have plus : c ≠ '+' := by rintro rfl; exact absurd digit (by decide)
  have minus : c ≠ '-' := by rintro rfl; exact absurd digit (by decide)
  have two : ∀ x : Char, c :: b :: w ≠ [x] := fun x eq => by cases eq
  unfold Duration.string
  split
  · next negative =>
      have signed : sign ('-' :: magnitude d.toInt.natAbs) = (true, magnitude d.toInt.natAbs) := rfl
      rw [parseDuration, signed]
      dsimp only
      rw [if_neg (by rw [text]; exact two '0'), if_neg (by rw [text]; exact List.cons_ne_nil _ _),
        read]
      dsimp only
      rw [if_pos rfl]
      congr 1
      omega
  · next nonnegative =>
      have signed : sign (magnitude d.toInt.natAbs) = (false, magnitude d.toInt.natAbs) := by
        rw [text]
        unfold sign
        split
        · next eq => exact absurd (List.cons.inj eq).1 minus
        · next eq => exact absurd (List.cons.inj eq).1 plus
        · rfl
      rw [parseDuration, signed]
      dsimp only
      rw [if_neg (by rw [text]; exact two '0'), if_neg (by rw [text]; exact List.cons_ne_nil _ _),
        read]
      dsimp only
      rw [if_neg Bool.false_ne_true, if_neg (by omega)]
      congr 1
      omega

/-- A quarter of an hour. -/
example : Duration.string 900000000000 = "15m0s".toList := by decide +kernel

end Time

end PumaDev
