import PumaDev.Go.Filepath
import PumaDev.Go.Quote

/-!
# The world outside the process

Everything the program learns from the operating system, the environment and
third-party packages while it answers **one** call is collected in a record of
answers, `Os`.  The functions of the program take such a record, so that a
statement about all records is a statement about every file system and every
way it may change between two calls: queries that one call makes at different
places are told apart by a `Site`.

`os.Stat` of the empty path always fails, and the name it reports is taken from
the path that was asked for; `statAt` builds both in.
-/

namespace PumaDev

/-- The places of `lookupApp` and `LaunchApp` that query the file system. -/
inductive Site where
  /-- The entry under the name itself. -/
  | entry
  /-- The entry under the name with its hyphens expanded. -/
  | expanded
  /-- The text of the link found there. -/
  | dest
  /-- The `public` directory of an app. -/
  | publicDir
  deriving DecidableEq

/-- The error of a file system query. -/
inductive StatError where
  /-- The one that `os.IsNotExist` recognises. -/
  | notExist (text : GoString)
  | other (text : GoString)
  deriving DecidableEq

namespace StatError

/-- `os.IsNotExist`. -/
def isNotExist : StatError → Bool
  | notExist _ => true
  | other _ => false

/-- The message of the error. -/
def text : StatError → GoString
  | notExist text => text
  | other text => text

end StatError

/-- What the program asks of an `os.FileInfo`. -/
structure FileInfo where
  name : GoString
  isDir : Bool
  deriving DecidableEq

/-- The answers of the world during one call. -/
structure Os where
  /-- Does the path exist, all links followed, and is it a directory? -/
  stat : Site → GoString → Except StatError Bool
  /-- The text of a symbolic link; `none` when there is no link to read. -/
  readlink : Site → GoString → Option GoString
  /-- Is there an entry, no link followed at its end? -/
  lstat : Site → GoString → Bool
  /-- `os.MkdirAll`, with the message of its error. -/
  mkdirAll : GoString → Option GoString
  /-- `os.Getpid`. -/
  getpid : ℕ
  /-- `os.Getenv("SHELL")`. -/
  shell : GoString
  /-- The message of the error of `cmd.StdoutPipe`. -/
  stdoutPipe : Option GoString
  /-- `cmd.Start`: the process id, or the message of the error. -/
  start : Except GoString ℕ
  /-- `errors.Context`: the message of an error put into a context. -/
  errorsContext : GoString → GoString → GoString
  /-- `ioutil.ReadFile`. -/
  readFile : GoString → Except GoString GoString
  /-- `url.Parse`: the scheme and the host, or the message of the error. -/
  urlParse : GoString → Except GoString (GoString × GoString)

namespace Os

/-- `os.Stat`. -/
def statAt (os : Os) (site : Site) (path : GoString) : Except StatError FileInfo :=
  if path = [] then .error (.notExist "stat : no such file or directory".toList)
  else (os.stat site path).map fun isDir => ⟨Filepath.base path, isDir⟩

/-- `destPath, _ := os.Readlink(path)`. -/
def readlinkAt (os : Os) (site : Site) (path : GoString) : GoString :=
  (os.readlink site path).getD []

/-- A world in which every path is a directory and every process starts. -/
def everyDirectory : Os where
  stat _ _ := .ok true
  readlink _ _ := none
  lstat _ _ := true
  mkdirAll _ := none
  getpid := 4242
  shell := "/bin/bash".toList
  stdoutPipe := none
  start := .ok 4243
  errorsContext err context := context ++ ": ".toList ++ err
  readFile _ := .error "is a directory".toList
  urlParse _ := .error "empty url".toList

instance : Inhabited Os := ⟨everyDirectory⟩

end Os

namespace Strconv

/-- Why a text is not a number. -/
inductive NumError where
  | invalidSyntax
  | outOfRange
  deriving DecidableEq

/-- The digits of `strconv.ParseUint` for 64 bits, after the value `n`. -/
def parseUint (n : ℕ) : GoString → Except NumError ℕ
  | [] => .ok n
  | c :: rest =>
      if Json.isDigit c then
        if n * 10 + Json.digitValue c < 2 ^ 64 then
          parseUint (n * 10 + Json.digitValue c) rest
        else .error .outOfRange
      else .error .invalidSyntax

/-- `strconv.Atoi`. -/
def atoi (s : GoString) : Except NumError ℤ :=
  let (neg, digits) := match s with
    | '-' :: rest => (true, rest)
    | '+' :: rest => (false, rest)
    | _ => (false, s)
  if digits = [] then .error .invalidSyntax
  else
    match parseUint 0 digits with
    | .error e => .error e
    | .ok n =>
        if neg then
          if n ≤ 2 ^ 63 then .ok (-(n : ℤ)) else .error .outOfRange
        else if n < 2 ^ 63 then .ok n
        else .error .outOfRange

/-- One part of the digits is read after the other. -/
theorem parseUint_append (n : ℕ) (s t : GoString) :
    parseUint n (s ++ t) = (parseUint n s).bind fun m => parseUint m t := by
  induction s generalizing n with
  | nil => rfl
  | cons c s ih =>
      rw [List.cons_append, parseUint, parseUint]
      split
      · split
        · exact ih _
        · rfl
      · rfl

/-- **The digits of a number are read back.** -/
theorem parseUint_toDigits {n : ℕ} (small : n < 2 ^ 64) :
    parseUint 0 (Nat.toDigits 10 n) = .ok n := by
  induction n using Nat.strongRecOn with
  | ind n ih =>
      by_cases one : n < 10
      · rw [Nat.toDigits_of_lt_base one]
        simpa [parseUint, Json.isDigit_digitChar one, Json.digitValue_digitChar one] using small
      · have digit : n % 10 < 10 := Nat.mod_lt _ (by decide)
        have value : n / 10 * 10 + n % 10 = n := by omega
        rw [Nat.toDigits_of_base_le (by decide) (by omega), parseUint_append,
          ih (n / 10) (by omega) (by omega)]
        simpa [Except.bind, parseUint, Json.isDigit_digitChar digit,
          Json.digitValue_digitChar digit, value] using small

/-- Only digits are read. -/
theorem isDigit_of_parseUint {n m : ℕ} {s : GoString} (h : parseUint n s = .ok m) :
    ∀ c ∈ s, Json.isDigit c = true := by
  induction s generalizing n with
  | nil => simp
  | cons c s ih =>
      rw [parseUint] at h
      split at h
      · next digit =>
          split at h
          · exact List.forall_mem_cons.mpr ⟨digit, ih h⟩
          · cases h
      · cases h

/-- The digits of a number are digits, and there are some. -/
theorem isDigit_of_mem_itoa {n : ℕ} {c : Char} (mem : c ∈ itoa n) : Json.isDigit c = true := by
  have digit : c.isDigit = true := Nat.isDigit_of_mem_toDigits (by decide) (by decide) mem
  simpa [Json.isDigit, Char.isDigit, Char.le_def] using digit

theorem itoa_ne_nil (n : ℕ) : itoa n ≠ [] := Nat.toDigits_ne_nil

/-- **`strconv.Atoi` reads what `strconv.Itoa` writes.** -/
theorem atoi_itoa {n : ℕ} (small : n < 2 ^ 63) : atoi (itoa n) = .ok n := by
  have read : parseUint 0 (itoa n) = .ok n := parseUint_toDigits (by omega)
  obtain ⟨c, rest, split⟩ := List.exists_cons_of_ne_nil (itoa_ne_nil n)
  have digit : Json.isDigit c = true := isDigit_of_mem_itoa (n := n) (by rw [split]; simp)
  have plus : c ≠ '+' := by rintro rfl; exact absurd digit (by decide)
  have minus : c ≠ '-' := by rintro rfl; exact absurd digit (by decide)
  rw [split] at read ⊢
  unfold atoi
  split
  next neg digits sign =>
  split at sign
  · next h => exact absurd (List.cons.inj h).1 minus
  · next h => exact absurd (List.cons.inj h).1 plus
  · cases sign
    simpa [read] using small

/-- A number is a sign and digits. -/
theorem isDigit_of_atoi {s : GoString} {n : ℤ} (h : atoi s = .ok n) :
    ∀ c ∈ s, Json.isDigit c = true ∨ c = '-' ∨ c = '+' := by
  unfold atoi at h
  split at h
  next neg digits sign =>
  have read : ∀ c ∈ digits, Json.isDigit c = true := by
    cases parsed : parseUint 0 digits with
    | error e =>
        rw [parsed] at h
        split at h <;> cases h
    | ok m => exact isDigit_of_parseUint parsed
  split at sign
  · cases sign
    exact List.forall_mem_cons.mpr ⟨by simp, fun c mem => Or.inl (read c mem)⟩
  · cases sign
    exact List.forall_mem_cons.mpr ⟨by simp, fun c mem => Or.inl (read c mem)⟩
  · cases sign
    exact fun c mem => Or.inl (read c mem)

/-- A text with any other character is none. -/
theorem atoi_of_mem {s : GoString} {c : Char} (mem : c ∈ s)
    (other : ¬ (Json.isDigit c = true ∨ c = '-' ∨ c = '+')) : ∃ e, atoi s = .error e := by
  cases read : atoi s with
  | error e => exact ⟨e, rfl⟩
  | ok n => exact absurd (isDigit_of_atoi read c mem) other

/-- The message of the error of `strconv.Atoi`. -/
def NumError.text (T : PrintTable) (s : GoString) : NumError → GoString
  | invalidSyntax => "strconv.Atoi: parsing ".toList ++ quote T s ++
      ": invalid syntax".toList
  | outOfRange => "strconv.Atoi: parsing ".toList ++ quote T s ++
      ": value out of range".toList

end Strconv

/-- A port has none of the bytes that `net.SplitHostPort` looks for. -/
theorem Unported.of_isDigit {p : GoString} (decimal : ∀ c ∈ p, Json.isDigit c = true) :
    Unported p where
  colon mem := absurd (decimal _ mem) (by decide)
  opening mem := absurd (decimal _ mem) (by decide)
  closing mem := absurd (decimal _ mem) (by decide)

end PumaDev
