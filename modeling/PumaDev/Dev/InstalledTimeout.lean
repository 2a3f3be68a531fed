import PumaDev.Dev.InstalledSettings
import PumaDev.Go.DurationText

/-!
# The installed timeout

`main` hands `InstallIntoSystem` the text of the timeout that `Duration.String` writes, and
the puma-dev that launchd starts reads it with `time.ParseDuration`.  The text is made of
characters that mean nothing in XML, and it is read as the timeout it was, to the nanosecond.
So the timeout never stands in the way of the other settings (`runsAsInstalled_iff`).
-/

namespace PumaDev

namespace Time

/-- A character that occurs in the text of a duration. -/
def InDuration (c : Char) : Prop := c.isDigit = true ∨ c ∈ "-.nu\u00b5msh".toList

theorem inDuration_fracDigits {prec v : ℕ} {print : Bool} {w : GoString}
    (before : ∀ c ∈ w, InDuration c) :
    ∀ c ∈ (fracDigits prec print w v).2.1, InDuration c := by
  induction prec generalizing print w v with
  | zero => exact before
  | succ prec ih =>
      refine ih fun c mem => ?_
      split_ifs at mem
      · rcases List.mem_cons.mp mem with rfl | later
        · have digit : v % 10 < 10 := Nat.mod_lt _ (by decide)
          exact Or.inl (by rw [Nat.isDigit_digitChar, decide_eq_true digit])
        · exact before c later
      · exact before c mem

theorem inDuration_fmtFrac {v prec : ℕ} {w : GoString} (before : ∀ c ∈ w, InDuration c) :
    ∀ c ∈ (fmtFrac w v prec).1, InDuration c := by
  intro c mem
  rw [fmtFrac] at mem
  have digits : ∀ c ∈ (fracDigits prec false w v).2.1, InDuration c :=
    inDuration_fracDigits before
  generalize fracDigits prec false w v = written at mem digits
  obtain ⟨print, w', v'⟩ := written
  dsimp only at mem digits
  split_ifs at mem
  · rcases List.mem_cons.mp mem with rfl | later
    · exact Or.inr (by decide)
    · exact digits c later
  · exact digits c mem

theorem inDuration_fmtInt {v : ℕ} {w : GoString} (before : ∀ c ∈ w, InDuration c) :
    ∀ c ∈ fmtInt w v, InDuration c := by
  intro c mem
  rcases List.mem_append.mp mem with digit | later
  · exact Or.inl (Nat.isDigit_of_mem_toDigits (by decide) (by decide) digit)
  · exact before c later

theorem inDuration_fmtMinutes {u : ℕ} {w : GoString} (before : ∀ c ∈ w, InDuration c) :
    ∀ c ∈ fmtMinutes w u, InDuration c := by
  have unit : ∀ {c : Char} {w : GoString}, InDuration c → (∀ c ∈ w, InDuration c) →
      ∀ d ∈ c :: w, InDuration d := by
    intro c w here there d mem
    rcases List.mem_cons.mp mem with rfl | later
    · exact here
    · exact there d later
  unfold fmtMinutes
  dsimp only
  split_ifs with minutes hours
  · exact inDuration_fmtInt (unit (Or.inr (by decide))
      (inDuration_fmtInt (unit (Or.inr (by decide)) before)))
  · exact inDuration_fmtInt (unit (Or.inr (by decide)) before)
  · exact before

theorem inDuration_fmtDecimal {u prec : ℕ} {unit : GoString} (before : ∀ c ∈ unit, InDuration c) :
    ∀ c ∈ fmtDecimal unit u prec, InDuration c := inDuration_fmtInt (inDuration_fmtFrac before)

theorem inDuration_magnitude (u : ℕ) : ∀ c ∈ magnitude u, InDuration c := by
  have letters : ∀ w : GoString, (w.all fun c => "-.nu\u00b5msh".toList.contains c) = true →
      ∀ c ∈ w, InDuration c := by
    intro w all c mem
    exact Or.inr (List.contains_iff_mem.mp (List.all_eq_true.mp all c mem))
  unfold magnitude
  split_ifs
  · rintro c (_ | ⟨_, _ | ⟨_, mem⟩⟩)
    · exact Or.inl rfl
    · exact Or.inr (by decide)
    · cases mem
  · exact inDuration_fmtDecimal (letters _ (by decide))
  · exact inDuration_fmtDecimal (letters _ (by decide))
  · exact inDuration_fmtDecimal (letters _ (by decide))
  · have seconds : ∀ c ∈ (fmtFrac "s".toList u 9).1, InDuration c :=
      inDuration_fmtFrac (letters "s".toList (by decide))
    generalize fmtFrac "s".toList u 9 = written at seconds
    exact inDuration_fmtMinutes (inDuration_fmtInt seconds)

/-- The text of a duration is made of these characters. -/
theorem inDuration_string (d : Int64) : ∀ c ∈ Duration.string d, InDuration c := by
  intro c mem
  unfold Duration.string at mem
  split_ifs at mem
  · rcases List.mem_cons.mp mem with rfl | later
    · exact Or.inr (by decide)
    · exact inDuration_magnitude _ c later
  · exact inDuration_magnitude _ c mem

end Time

namespace LaunchAgent

open Xml Plist Time

/-- The text of a duration comes out of a document as it went in. -/
theorem verbatim_duration (d : Int64) : Verbatim (Duration.string d) := by
  have absent : ∀ c, ¬ InDuration c → c ∉ Duration.string d :=
    fun c other mem => other (inDuration_string d c mem)
  refine ⟨absent '<' ?_, absent '&' ?_, absent '\r' ?_, fun found => absent ']' ?_
    (found.subset (by simp [sectionEnd]))⟩
  all_goals
    rintro (digit | unit)
    · cases digit
    · revert unit
      decide

theorem all_isChar_duration (d : Int64) : (Duration.string d).all isChar = true := by
  rw [List.all_eq_true]
  intro c mem
  rcases inDuration_string d c mem with digit | unit
  · obtain ⟨least, most⟩ := Char.isDigit_iff_toNat.mp digit
    have inside : 0x20 ≤ c.toNat ∧ c.toNat ≤ 0xD7FF :=
      ⟨Nat.le_trans (by decide) least, Nat.le_trans most (by decide)⟩
    simp [isChar, within, inside]
  · have letters : ∀ c ∈ "-.nu\u00b5msh".toList, isChar c = true := by decide
    exact letters c unit

/-- The values beside the timeout are texts that XML leaves as they are. -/
structure PlainOthers (s : MainFlags) (binPath logPath : GoString) : Prop where
  binPath : Verbatim binPath
  dir : Verbatim s.dir
  domains : Verbatim s.domains
  noServePublicPaths : Verbatim s.noServePublicPaths
  logPath : Verbatim logPath

/-- They are made of characters that a document can have. -/
structure RepresentableOthers (s : MainFlags) (binPath logPath : GoString) : Prop where
  binPath : binPath.all isChar = true
  dir : s.dir.all isChar = true
  domains : s.domains.all isChar = true
  noServePublicPaths : s.noServePublicPaths.all isChar = true
  logPath : logPath.all isChar = true

/-- **`puma-dev -install`**, with any timeout there is, the other values being representable: the
arguments in the text stand for the settings of the user, and they are what launchd starts
puma-dev with if and only if the other values are plain. -/
theorem runsAsInstalled_iff {os : InstallOs} {s : MainFlags} {d : Int64}
    {installPort installTLS : ℤ} {binPath logPath plist text : GoString} {err : Option GoError}
    (timeout : s.timeout = d.toInt) (executable : os.executable = .ok binPath)
    (expanded : Homedir.expand os.homeDir "~/Library/Logs/puma-dev.log".toList = .ok logPath)
    (wrote : installIntoSystem os (installArgs s (Duration.string d) installPort installTLS) =
      .ok (err, some (plist, text)))
    (representable : RepresentableOthers s binPath logPath) :
    let a := ofConfig (installArgs s (Duration.string d) installPort installTLS) binPath logPath
    MainFlags.parse a.programArguments.tail = some { s with launchd := true } ∧
      (a.Survives text ↔ PlainOthers s binPath logPath) := by
  intro a
  constructor
  · rw [parse_programArguments]
    exact settings_installArgs (timeout ▸ parseDuration_string d) _ _ _ _
  · rw [text_of_installed executable expanded wrote]
    constructor
    · intro survives
      have plain := plain_of_survives survives
      exact ⟨plain.binPath, plain.dir, plain.domains, plain.noServePublicPaths, plain.logPath⟩
    · intro plain
      refine survives_of_plain
        ⟨representable.binPath, representable.dir, representable.domains, all_isChar_duration d,
          representable.noServePublicPaths, representable.logPath⟩
        ⟨plain.binPath, plain.dir, plain.domains, verbatim_duration d, plain.noServePublicPaths,
          plain.logPath⟩

/-- A timeout of a quarter of an hour is installed. -/
theorem runsAsInstalled_default :
    MainFlags.parse (someAgent "~/.puma-dev".toList).programArguments.tail =
      some { MainFlags.defaults with launchd := true } := by
  have written : Duration.string 900000000000 = "15m0s".toList := by decide +kernel
  have expanded := expand_someOs "~/.puma-dev".toList
  have wrote := installed_someOs "~/.puma-dev".toList
  rw [installWith, ← written] at wrote
  have runs := (runsAsInstalled_iff (s := MainFlags.defaults) (d := 900000000000) rfl rfl expanded
    wrote ⟨rfl, rfl, rfl, rfl, rfl⟩).1
  rw [written] at runs
  exact runs

end LaunchAgent

end PumaDev
