import Mathlib.Tactic.Common
import PumaDev.Go.Strings

/-!
# Watching `restart.txt`

`Watch` calls `change` when the watched file has been touched.  It is told of events, of
which one touch gives several, and at each it asks for the time of the last modification.
There are two versions, for Linux and for macOS, which differ in how they start; the loop
is the same.

The time they compare with is the one from before the first event, and it stays so.
`touches` is what they are for: one call for each touch.  The two agree exactly as long as
no event sees the time of an earlier one again, or an older one, after a touch
(`watch_eq_touches_iff`).
-/

namespace PumaDev

namespace Watch

/-- What `Watch` does that others see: it asks for the time of the last modification, or
calls `change`. -/
inductive Effect where
  | stat (modTime : ℤ)
  | change
  deriving DecidableEq

/-- What comes out of the `select`: an event, with what `os.Stat` then gives, or the end. -/
inductive Happening where
  | event (cur : Except GoString ℤ)
  | done

/-- The world that a watch begins in. -/
structure World where
  /-- `os.Stat`, by the time of the last modification. -/
  stat : GoString → Except GoString ℤ
  /-- `filepath.EvalSymlinks`. -/
  evalSymlinks : GoString → Except GoString GoString
  /-- `fsnotify.NewWatcher`, if it fails. -/
  newWatcher : Option GoString
  /-- `watcher.Add`, if it fails. -/
  add : GoString → Option GoString
  /-- `fsevents.DeviceForPath`, if it fails. -/
  deviceForPath : GoString → Option GoString

/-- What a watch comes to: its effects, and its error once it has returned. -/
abbrev Outcome := List Effect × Option (Option GoString)

/-- A watch that fails before it has begun. -/
def failed (err : GoString) : Outcome := ([], some (some err))

/-- The loop of either version, with the time of `lastStat`. -/
def loop (lastStat : ℤ) : List Happening → Outcome
  | [] => ([], none)
  | .done :: _ => ([], some none)
  | .event (.error err) :: _ => failed err
  | .event (.ok cur) :: rest =>
      (.stat cur :: ((if lastStat < cur then [.change] else []) ++ (loop lastStat rest).1),
        (loop lastStat rest).2)

/-- `Watch`, on Linux. -/
def watchLinux (w : World) (restart : GoString) (happenings : List Happening) : Outcome :=
  match w.stat restart with
  | .error err => failed err
  | .ok lastStat =>
      match w.newWatcher with
      | some err => failed err
      | none =>
          match w.add restart with
          | some err => failed err
          | none => loop lastStat happenings

/-- `Watch`, on macOS. -/
def watchDarwin (w : World) (watchedPath : GoString) (happenings : List Happening) : Outcome :=
  match w.evalSymlinks watchedPath with
  | .error err => failed err
  | .ok watchedAbsPath =>
      match w.stat watchedAbsPath with
      | .error err => failed err
      | .ok lastStat =>
          match w.deviceForPath watchedAbsPath with
          | some err => failed err
          | none => loop lastStat happenings

/-- The system that `Watch` is built for. -/
inductive System where
  | linux
  | darwin
  deriving DecidableEq

/-- `watch.Watch`. -/
def watch : System → World → GoString → List Happening → Outcome
  | .linux => watchLinux
  | .darwin => watchDarwin

/-- The watch begins, and the file was last modified at `start`. -/
def World.Starts (w : World) (path : GoString) (start : ℤ) : System → Prop
  | .linux => w.stat path = .ok start ∧ w.newWatcher = none ∧ w.add path = none
  | .darwin =>
      ∃ real, w.evalSymlinks path = .ok real ∧ w.stat real = .ok start ∧
        w.deviceForPath real = none

/-- Events at which these times are seen. -/
def delivered (times : List ℤ) : List Happening := times.map fun t => .event (.ok t)

/-! ## One call for each touch -/

/-- **One restart per touch**: `change` is called once at each event whose time is later
than the start and than all the times that have been seen before, and at no other. -/
def touches (start : ℤ) (seen : List ℤ) : List ℤ → List Effect
  | [] => []
  | t :: rest =>
      .stat t :: ((if start < t ∧ ∀ u ∈ seen, u < t then [.change] else []) ++
        touches start (seen ++ [t]) rest)

/-- Whenever a time is later than the start, it is later than all the times before it. -/
def Advances (start : ℤ) (times : List ℤ) : Prop :=
  ∀ before t after, times = before ++ t :: after → start < t → ∀ u ∈ before, u < t

/-- The version and how it starts do not matter, and nothing is returned. -/
theorem watch_of_starts {system : System} {w : World} {path : GoString} {start : ℤ}
    (starts : w.Starts path start system) (happenings : List Happening) :
    watch system w path happenings = loop start happenings := by
  cases system with
  | linux =>
      obtain ⟨stat, watcher, add⟩ := starts
      simp only [watch, watchLinux, stat, watcher, add]
  | darwin =>
      obtain ⟨real, symlinks, stat, device⟩ := starts
      simp only [watch, watchDarwin, symlinks, stat, device]

/-- What begins with a call is no list of touches: a time is asked for first. -/
theorem change_ne_touches (start : ℤ) (seen times : List ℤ) (effects : List Effect) :
    .change :: effects ≠ touches start seen times := by
  cases times <;> nofun

/-- **The loop, from any event on**, with the times that have been seen before. -/
theorem loop_eq_touches_iff (start : ℤ) (seen times : List ℤ) :
    (loop start (delivered times)).1 = touches start seen times ↔
      ∀ before t after, times = before ++ t :: after → start < t →
        ∀ u ∈ seen ++ before, u < t := by
  induction times generalizing seen with
  | nil => simp [delivered, loop, touches]
  | cons t rest ih =>
      have rest_ : (∀ before u after, t :: rest = before ++ u :: after → start < u →
            ∀ v ∈ seen ++ before, v < u) ↔
          (start < t → ∀ v ∈ seen, v < t) ∧
            ∀ before u after, rest = before ++ u :: after → start < u →
              ∀ v ∈ (seen ++ [t]) ++ before, v < u := by
        constructor
        · intro all
          refine ⟨fun later v mem => all [] t rest rfl later v (by simpa using mem), ?_⟩
          intro before u after split later v mem
          exact all (t :: before) u after (by rw [split]; rfl) later v (by simpa using mem)
        · rintro ⟨first, later⟩ before u after split isLater v mem
          cases before with
          | nil =>
              cases split
              exact first isLater v (by simpa using mem)
          | cons t' before =>
              cases split
              exact later before u after rfl isLater v (by simpa using mem)
      rw [rest_, ← ih (seen ++ [t])]
      show Effect.stat t :: _ = Effect.stat t :: _ ↔ _
      rw [List.cons.injEq, and_iff_right rfl]
      by_cases later : start < t
      · by_cases newest : ∀ u ∈ seen, u < t
        · rw [if_pos later, if_pos ⟨later, newest⟩, List.append_cancel_left_eq]
          exact (and_iff_right fun _ => newest).symm
        · -- called for a time that is not new
          rw [if_pos later, if_neg (mt And.right newest), List.nil_append]
          exact iff_of_false (change_ne_touches _ _ _ _) fun h => newest (h.1 later)
      · rw [if_neg later, if_neg (mt And.left later), List.nil_append, List.nil_append]
        exact (and_iff_right fun isLater => absurd isLater later).symm

/-- **When `change` is called once for each touch**, in either version: exactly if every
time that is later than the start is later than all the times before it. -/
theorem watch_eq_touches_iff {system : System} {w : World} {path : GoString} {start : ℤ}
    (starts : w.Starts path start system) (times : List ℤ) :
    (watch system w path (delivered times)).1 = touches start [] times ↔
      Advances start times := by
  rw [watch_of_starts starts, loop_eq_touches_iff]
  rfl

/-- Times that increase from event to event advance. -/
theorem advances_of_pairwise (start : ℤ) {times : List ℤ} (increasing : times.Pairwise (· < ·)) :
    Advances start times := by
  rintro before t after rfl - u mem
  exact (List.pairwise_append.mp increasing).2.2 u mem t List.mem_cons_self

/-- A world in which every watch begins, at the time 0. -/
def quiet : World where
  stat _ := .ok 0
  evalSymlinks path := .ok path
  newWatcher := none
  add _ := none
  deviceForPath _ := none

/-- Two touches, with one event for each. -/
theorem watch_eq_touches_quiet :
    (watch .darwin quiet [] (delivered [1, 2])).1 = touches 0 [] [1, 2] := by
  have starts : quiet.Starts [] 0 .darwin := ⟨[], rfl, rfl, rfl⟩
  have increasing : ([1, 2] : List ℤ).Pairwise (· < ·) := by decide
  exact (watch_eq_touches_iff starts [1, 2]).mpr (advances_of_pairwise 0 increasing)

/-- One touch that gives two events: `change` is called twice. -/
theorem watch_ne_touches_burst :
    quiet.Starts [] 0 .linux ∧
      (watch .linux quiet [] (delivered [1, 1])).1 ≠ touches 0 [] [1, 1] :=
  ⟨⟨rfl, rfl, rfl⟩, by decide⟩

end Watch

end PumaDev
