import PumaDev.Dev.Http
import PumaDev.Dev.Lookup

/-!
# Which paths a lookup touches

A name reaches the pool from the outside: it is what is left of a request's
`Host`.  `lookupApp` joins it to the pool directory, looks there, may start
whatever it finds, and does the same once more with the name's hyphens expanded
into slashes.  `filepath.Join` cleans the result, so a name with dot components
can lead out of the directory it was joined to.

`contained_lookupApp_iff` is the exact extent of it: the paths a lookup hands to
`os.Stat`, `LaunchApp` and `readProxy` are strictly below the pool directory if
and only if the name is answered from the map, or the name stays below, and so
does its expansion in case that is tried.  A `Host` of three dots and a
configured domain is enough to leave (`escapes_threeDots`).
-/

namespace PumaDev

open Filepath

/-- The path that `lookupApp` itself hands on: to `os.Stat` for an entry, or to
one of the two ways to start an app. -/
def Effect.handed : Effect → Option GoString
  | .stat .entry path => some path
  | .stat .expanded path => some path
  | .launchApp _ path => some path
  | .readProxy _ path => some path
  | _ => none

/-- Every path handed on is strictly below the directory. -/
def Contained (dir : GoString) (effects : List Effect) : Prop :=
  ∀ e ∈ effects, ∀ path, e.handed = some path → StrictDescendant dir path

theorem contained_append {dir : GoString} {es es' : List Effect} :
    Contained dir (es ++ es') ↔ Contained dir es ∧ Contained dir es' := by
  simp only [Contained, List.mem_append]
  constructor
  · intro all
    exact ⟨fun e mem => all e (Or.inl mem), fun e mem => all e (Or.inr mem)⟩
  · rintro ⟨left, right⟩ e (mem | mem)
    · exact left e mem
    · exact right e mem

theorem contained_badSymlink (dir : GoString) (os : Os) (site : Site) (path : GoString) :
    Contained dir (badSymlink os site path) := by
  intro e mem p handed
  unfold badSymlink at mem
  split at mem
  · simp only [List.mem_cons, List.not_mem_nil, or_false] at mem
    rcases mem with rfl | rfl <;> cases handed
  · simp only [List.mem_cons, List.not_mem_nil, or_false] at mem
    cases mem
    cases handed

theorem contained_queries_entry {dir path : GoString} :
    Contained dir (queries .entry path) ↔ StrictDescendant dir path := by
  simp [Contained, queries, Effect.handed]

theorem contained_queries_expanded {dir path : GoString} :
    Contained dir (queries .expanded path) ↔ StrictDescendant dir path := by
  simp [Contained, queries, Effect.handed]

/-- Nothing exists under the name itself. -/
def MissingEntry (os : Os) (dir name : GoString) : Prop :=
  ∃ err, os.statAt .entry (join [dir, name]) = .error err ∧ err.isNotExist = true

/-- A name without hyphens has nothing to expand. -/
theorem expandHyphens_eq_self_iff {name : GoString} :
    expandHyphens name = name ↔ '-' ∉ name :=
  Strings.replaceByte_eq_self_iff (by decide)

/-- The paths `locate` asks about. -/
theorem contained_locate_iff (os : Os) (dir : CleanDir) (name : GoString) :
    Contained dir.text (locate os dir.text name).1 ↔
      StaysBelow dir name ∧
        (MissingEntry os dir.text name → '-' ∈ name → StaysBelow dir (expandHyphens name)) := by
  rw [← strictDescendant_join_iff, ← strictDescendant_join_iff]
  unfold locate MissingEntry
  dsimp only
  cases entry : os.statAt .entry (join [dir.text, name]) with
  | ok info => simp [contained_queries_entry]
  | error err =>
      cases missing : err.isNotExist with
      | false => simp [contained_queries_entry, missing]
      | true =>
          by_cases plain : expandHyphens name = name
          · have noHyphen : '-' ∉ name := expandHyphens_eq_self_iff.mp plain
            simp [contained_append, contained_queries_entry, contained_badSymlink,
              missing, plain, noHyphen]
          · have hyphen : '-' ∈ name := by
              by_contra absent
              exact plain (expandHyphens_eq_self_iff.mpr absent)
            cases os.statAt .expanded (join [dir.text, expandHyphens name]) with
            | ok info =>
                simp [contained_append, contained_queries_entry, contained_queries_expanded,
                  contained_badSymlink, missing, plain, hyphen]
            | error err' =>
                cases missing' : err'.isNotExist <;>
                  simp [contained_append, contained_queries_entry,
                    contained_queries_expanded, contained_badSymlink, missing, missing',
                    plain, hyphen]

/-- The entry that `locate` finds is under a path it has asked about. -/
theorem stat_mem_of_locate {os : Os} {dir name : GoString} {found : Found}
    {asked : List Effect} (h : locate os dir name = (asked, .ok found)) :
    Effect.stat .entry found.path ∈ asked ∨ Effect.stat .expanded found.path ∈ asked := by
  unfold locate at h
  dsimp only at h
  split at h
  · cases h
    exact Or.inl (by simp [queries])
  · split at h
    · cases h
    · split at h
      · cases h
      · split at h
        · cases h
          exact Or.inr (by simp [queries])
        · split at h <;> cases h

/-- What is started is under a path that has been asked about. -/
theorem strictDescendant_of_locate {os : Os} {dir : CleanDir} {name : GoString} {found : Found}
    {asked : List Effect} (h : locate os dir.text name = (asked, .ok found))
    (contained : Contained dir.text asked) : StrictDescendant dir.text found.path := by
  rcases stat_mem_of_locate h with mem | mem <;>
    exact contained _ mem found.path rfl

/-- Starting an app hands on the path it was found under. -/
theorem contained_boot (T : PrintTable) (os : Os) {dir : GoString} {request : Request}
    (inside : StrictDescendant dir request.path) :
    Contained dir [(boot T os request).1] := by
  intro e mem path handed
  rw [List.mem_singleton] at mem
  subst mem
  unfold boot at handed
  split at handed <;>
  · cases handed
    exact inside

/-- The look at the text of a link is not one of the lookup's own paths. -/
theorem contained_stat_dest (dir path : GoString) : Contained dir [.stat .dest path] := by
  simp [Contained, Effect.handed]

/-- Once a name is not answered from the map, the lookup stays inside exactly
when its search for the entry does. -/
theorem contained_lookupApp_of_miss (T : PrintTable) (hash : GoString → GoString) (os : Os)
    {pool : AppPool} {name : GoString} (miss : pool.apps.lookup name = none) :
    Contained pool.dir.text (lookupApp T hash os pool name).1 ↔
      Contained pool.dir.text (locate os pool.dir.text name).1 := by
  unfold lookupApp decideLookup
  rw [miss]
  dsimp only
  rcases located : locate os pool.dir.text name with ⟨asked, err | found⟩
  · rfl
  · dsimp only
    have asking : Contained pool.dir.text (asked ++ [.stat .dest found.destPath]) ↔
        Contained pool.dir.text asked := by
      rw [contained_append]
      exact and_iff_left (contained_stat_dest _ _)
    cases shared : pool.apps.lookup (identify hash os name found).canonicalName with
    | some id => exact asking
    | none =>
        dsimp only
        have starting : Contained pool.dir.text asked → Contained pool.dir.text
            [(boot T os ⟨found.path, found.info.isDir, identify hash os name found⟩).1] :=
          fun contained =>
            contained_boot T os (strictDescendant_of_locate located contained)
        rcases booted : boot T os
            ⟨found.path, found.info.isDir, identify hash os name found⟩ with ⟨effect, err | app⟩
        · rw [booted] at starting
          have report : ∀ e : EventCall, Contained pool.dir.text [.event e] := by
            simp [Contained, Effect.handed]
          have tail : ∀ e : EventCall, Contained pool.dir.text [effect, .event e] ↔
              Contained pool.dir.text [effect] := by
            intro e
            have split : [effect, Effect.event e] = [effect] ++ [.event e] := rfl
            rw [split, contained_append]
            exact and_iff_left (report e)
          dsimp only
          rw [contained_append, asking, tail]
          exact and_iff_left_of_imp starting
        · rw [booted] at starting
          dsimp only
          rw [contained_append, asking]
          exact and_iff_left_of_imp starting

/-- **The extent of a lookup.**  Every path that `lookupApp` hands to `os.Stat`,
`LaunchApp` or `readProxy` is strictly below the pool directory if and only if
the name is a key of the map, or the name stays below the directory and, when
nothing exists under it and it has a hyphen, so does its expansion. -/
theorem contained_lookupApp_iff (T : PrintTable) (hash : GoString → GoString) (os : Os)
    (pool : AppPool) (name : GoString) :
    Contained pool.dir.text (lookupApp T hash os pool name).1 ↔
      (pool.apps.lookup name).isSome ∨
        StaysBelow pool.dir name ∧
          (MissingEntry os pool.dir.text name → '-' ∈ name →
            StaysBelow pool.dir (expandHyphens name)) := by
  cases cached : pool.apps.lookup name with
  | some id => simp [lookupApp, decideLookup, cached, Contained]
  | none =>
      rw [contained_lookupApp_of_miss T hash os cached, contained_locate_iff]
      simp

/-! ## A way out -/

/-- A pool directory with nothing started yet. -/
def emptyPool : AppPool where
  dir := .home
  apps := ∅
  heap := []

/-- The host `...test`, under the domain `test`, names the parent of the pool
directory, and the lookup launches it. -/
theorem escapes_threeDots :
    removeTLD ["test".toList] "...test".toList = "..".toList ∧
      Effect.launchApp "..".toList "/home/u".toList ∈
        (lookupApp .asciiOnly id .everyDirectory emptyPool
          (removeTLD ["test".toList] "...test".toList)).1 ∧
      ¬ Contained emptyPool.dir.text
        (lookupApp .asciiOnly id .everyDirectory emptyPool
          (removeTLD ["test".toList] "...test".toList)).1 := by
  have name : removeTLD ["test".toList] "...test".toList = "..".toList := by decide
  have launched : Effect.launchApp "..".toList "/home/u".toList ∈
      (lookupApp .asciiOnly id .everyDirectory emptyPool "..".toList).1 := by decide
  rw [name]
  refine ⟨rfl, launched, fun contained => ?_⟩
  have outside : ¬ StrictDescendant emptyPool.dir.text "/home/u".toList := by decide
  exact outside (contained _ launched "/home/u".toList rfl)

end PumaDev
