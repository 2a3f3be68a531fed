import PumaDev.Dev.Containment
import PumaDev.Go.World
import PumaDev.Lib.Machine

/-!
# Lookups, one after the other

A run of lookups in a world that stands still: nothing is killed, idles or is purged,
and the files and the working directory stay what they are.  What the processes and
the environment answer may differ from call to call, so every call brings a record of
its own for that.

Next to the pool the state keeps a history that the program does not have: which
names were answered with which app, which of these answers were written into the map,
and the path each app was started for.  `Recorded` is what connects the map with that
history: a key leads to an app exactly when a recorded name goes under that key.
-/

namespace PumaDev

open Filepath

namespace World

variable (w : World) (hash : GoString → GoString) (dir : CleanDir) (name : GoString)

/-- The entry that the name has in the pool directory. -/
def find : Except GoError Found := (locate (w.os default) dir.text name).2

/-- The names that this entry is registered under. -/
def identity : Option Identity :=
  (w.find dir name).toOption.map (identify hash (w.os default) name)

/-- The file system is all that a search for an entry asks. -/
theorem locate_os (base : Os) : (locate (w.os base) dir.text name).2 = w.find dir name := rfl

/-- The same of the identity of an entry. -/
theorem identify_os (base : Os) (found : Found) :
    identify hash (w.os base) name found = identify hash (w.os default) name found := rfl

/-- An identity is that of an entry. -/
theorem identity_eq_some {i : Identity} (h : w.identity hash dir name = some i) :
    ∃ found, w.find dir name = .ok found ∧ identify hash (w.os default) name found = i := by
  unfold identity at h
  cases search : w.find dir name with
  | error err =>
      rw [search] at h
      cases h
  | ok found =>
      rw [search] at h
      exact ⟨found, rfl, Option.some.inj h⟩

end World

/-- The path that an app is started for. -/
def Effect.starts : Effect → Option GoString
  | .launchApp _ path => some path
  | .readProxy _ path => some path
  | _ => none

/-- The path a decided start hands on. -/
theorem starts_boot (T : PrintTable) (os : Os) (request : Request) :
    (boot T os request).1.starts = some request.path := by
  unfold boot
  split <;> rfl

/-- Nothing that is asked before that starts an app. -/
theorem starts_asked (os : Os) (dir name : GoString) :
    (locate os dir name).1.filterMap Effect.starts = [] := by
  have quiet : ∀ site path, (queries site path).filterMap Effect.starts = [] :=
    fun _ _ => rfl
  have checked : ∀ site path, (badSymlink os site path).filterMap Effect.starts = [] := by
    intro site path
    unfold badSymlink
    split <;> rfl
  unfold locate
  dsimp only
  split
  · exact quiet _ _
  · split
    · exact quiet _ _
    · split
      · simp [quiet, checked]
      · split
        · simp [quiet, checked]
        · split <;> simp [quiet, checked]

/-- A pool, and what was answered so far. -/
structure Lookups where
  pool : AppPool
  /-- The path each app was started for, by the address of the app. -/
  origins : List GoString
  /-- The names that were answered, with the app. -/
  answered : List (GoString × AppId)
  /-- Those among them whose answer was written into the map. -/
  registered : List (GoString × AppId)

namespace Lookups

/-- One call of `lookupApp`; `base` answers for everything but the file system. -/
def call (T : PrintTable) (hash : GoString → GoString) (w : World) (s : Lookups)
    (base : Os) (name : GoString) : Lookups :=
  match lookupApp T hash (w.os base) s.pool name with
  | (_, pool, .error _) => { s with pool := pool }
  | (effects, pool, .ok id) =>
      { pool := pool
        origins := s.origins ++ effects.filterMap Effect.starts
        answered := (name, id) :: s.answered
        registered :=
          if (s.pool.apps.lookup name).isSome then s.registered
          else (name, id) :: s.registered }

end Lookups

/-- The calls of `lookupApp` on a pool that is empty at first. -/
def lookupRuns (T : PrintTable) (hash : GoString → GoString) (w : World) (dir : CleanDir) :
    Machine Lookups (Os × GoString) where
  init := ⟨⟨dir, ∅, []⟩, [], [], []⟩
  step s l := some (s.call T hash w l.1 l.2)

namespace Lookups

variable {T : PrintTable} {hash : GoString → GoString} {w : World} {dir : CleanDir}
  {s t : Lookups} {name : GoString}

/-! ## What a call does -/

/-- The four ways a call can end. -/
inductive Answer (hash : GoString → GoString) (w : World) (dir : CleanDir) (s : Lookups)
    (name : GoString) : Lookups → Prop
  /-- It fails: neither the name nor its canonical name is a key. -/
  | failed (miss : s.pool.apps.lookup name = none)
      (unshared : ∀ identity, w.identity hash dir name = some identity →
        s.pool.apps.lookup identity.canonicalName = none) :
      Answer hash w dir s name s
  /-- The name is a key. -/
  | hit (id : AppId) (found : s.pool.apps.lookup name = some id) :
      Answer hash w dir s name { s with answered := (name, id) :: s.answered }
  /-- The canonical name is a key. -/
  | shared (id : AppId) (identity : Identity) (miss : s.pool.apps.lookup name = none)
      (known : w.identity hash dir name = some identity)
      (found : s.pool.apps.lookup identity.canonicalName = some id) :
      Answer hash w dir s name
        { s with
          pool := { s.pool with apps := register s.pool.apps identity id }
          answered := (name, id) :: s.answered
          registered := (name, id) :: s.registered }
  /-- A new app is started for the entry. -/
  | started (app : App) (entry : Found) (identity : Identity)
      (miss : s.pool.apps.lookup name = none) (located : w.find dir name = .ok entry)
      (known : w.identity hash dir name = some identity)
      (unshared : s.pool.apps.lookup identity.canonicalName = none) :
      Answer hash w dir s name
        { pool :=
            { s.pool with
              apps := register s.pool.apps identity s.pool.heap.length
              heap := s.pool.heap ++ [app] }
          origins := s.origins ++ [entry.path]
          answered := (name, s.pool.heap.length) :: s.answered
          registered := (name, s.pool.heap.length) :: s.registered }

/-- **Every call ends in one of the four ways.** -/
theorem answer_call (at_ : s.pool.dir = dir) (base : Os) :
    Answer hash w dir s name (s.call T hash w base name) := by
  unfold call lookupApp decideLookup
  subst at_
  cases cached : s.pool.apps.lookup name with
  | some id => simpa using Answer.hit id cached
  | none =>
      have search := w.locate_os s.pool.dir name base
      have quiet := starts_asked (w.os base) s.pool.dir.text name
      rcases located : locate (w.os base) s.pool.dir.text name with ⟨asked, err | found⟩
      · rw [located] at search
        refine Answer.failed cached fun identity known => ?_
        simp [World.identity, ← search, Except.toOption] at known
      · rw [located] at search quiet
        have known : w.identity hash s.pool.dir name =
            some (identify hash (w.os base) name found) := by
          rw [World.identity, ← search, w.identify_os hash name base found]
          rfl
        have asking :
            (asked ++ [Effect.stat .dest found.destPath]).filterMap Effect.starts = [] := by
          rw [List.filterMap_append, quiet]
          rfl
        dsimp only
        cases shared : s.pool.apps.lookup
            (identify hash (w.os base) name found).canonicalName with
        | some id =>
            dsimp only
            rw [asking, List.append_nil, if_neg (by simp)]
            exact Answer.shared id _ cached known shared
        | none =>
            have starts := starts_boot T (w.os base)
              ⟨found.path, found.info.isDir, identify hash (w.os base) name found⟩
            dsimp only
            rcases booted : boot T (w.os base)
                ⟨found.path, found.info.isDir, identify hash (w.os base) name found⟩
              with ⟨effect, err | app⟩
            · refine Answer.failed cached fun identity same => ?_
              rw [known] at same
              cases same
              exact shared
            · rw [booted] at starts
              dsimp only
              rw [List.filterMap_append, asking, List.filterMap_cons_some starts, if_neg (by simp)]
              exact Answer.started app found _ cached search.symm known shared

/-! ## The map and the history -/

/-- **What the history records.** -/
structure Recorded (hash : GoString → GoString) (w : World) (dir : CleanDir)
    (s : Lookups) : Prop where
  dir_eq : s.pool.dir = dir
  sizes : s.origins.length = s.pool.heap.length
  /-- A key leads to an app exactly when a registered name goes under it. -/
  written : ∀ k id, s.pool.apps.lookup k = some id ↔
    ∃ m i, (m, id) ∈ s.registered ∧ w.identity hash dir m = some i ∧ i.Names k
  /-- What was written was an answer. -/
  answers : ∀ e ∈ s.registered, e ∈ s.answered
  /-- An answer is an app that was started. -/
  present : ∀ m id, (m, id) ∈ s.answered → id < s.origins.length
  /-- An app was started for the entry of a registered name. -/
  origin : ∀ id path, s.origins[id]? = some path →
    ∃ m found, (m, id) ∈ s.registered ∧ w.find dir m = .ok found ∧ found.path = path

theorem recorded_init : (lookupRuns T hash w dir).init.Recorded hash w dir where
  dir_eq := rfl
  sizes := rfl
  written := by
    intro k id
    simp [lookupRuns]
  answers := by
    intro e mem
    cases mem
  present := by
    intro m id mem
    cases mem
  origin := by
    intro id path h
    simp [lookupRuns] at h

/-- A new name in the map, and in the history. -/
theorem Recorded.written_register (h : s.Recorded hash w dir) {i : Identity} {id : AppId}
    (known : w.identity hash dir name = some i)
    (free : ∀ k v, i.Names k → s.pool.apps.lookup k = some v → v = id) (k : GoString)
    (v : AppId) :
    (register s.pool.apps i id).lookup k = some v ↔
      ∃ m j, (m, v) ∈ (name, id) :: s.registered ∧ w.identity hash dir m = some j ∧
        j.Names k := by
  rw [lookup_register_eq_some]
  constructor
  · rintro (⟨named, rfl⟩ | ⟨-, old⟩)
    · exact ⟨name, i, List.mem_cons_self, known, named⟩
    · obtain ⟨m, j, mem, hj, named⟩ := (h.written k v).mp old
      exact ⟨m, j, List.mem_cons_of_mem _ mem, hj, named⟩
  · rintro ⟨m, j, mem, hj, named⟩
    rcases List.mem_cons.mp mem with new | old
    · cases new
      rw [known] at hj
      cases hj
      exact .inl ⟨named, rfl⟩
    · have before := (h.written k v).mpr ⟨m, j, old, hj, named⟩
      by_cases also : i.Names k
      · exact .inl ⟨also, (free k v also before).symm⟩
      · exact .inr ⟨also, before⟩

/-- The names of the entry that is looked up are free, or lead to the app found under
its canonical name. -/
theorem free_of_miss {i : Identity} {id : AppId} (miss : s.pool.apps.lookup name = none)
    (known : w.identity hash dir name = some i)
    (canonical : ∀ v, s.pool.apps.lookup i.canonicalName = some v → v = id) :
    ∀ k v, i.Names k → s.pool.apps.lookup k = some v → v = id := by
  rintro k v (rfl | ⟨nonempty, rfl⟩) there
  · exact canonical v there
  · obtain ⟨found, -, rfl⟩ := w.identity_eq_some hash dir name known
    rcases aliasName_identify hash (w.os default) name found with none | self
    · exact absurd none nonempty
    · rw [self, miss] at there
      cases there

/-- A key that leads somewhere goes on leading there. -/
theorem Answer.extends (answer : Answer hash w dir s name t) :
    Registry.Extends s.pool.apps t.pool.apps := by
  cases answer with
  | failed | hit => exact Registry.Extends.refl _
  | shared id identity miss known found =>
      exact extends_register (free_of_miss miss known fun v other =>
        Option.some.inj (other.symm.trans found))
  | started app entry identity miss located known unshared =>
      exact extends_register (free_of_miss miss known fun v other => by
        rw [unshared] at other
        cases other)

/-- **Every call keeps the record.** -/
theorem Answer.recorded (answer : Answer hash w dir s name t) (h : s.Recorded hash w dir) :
    t.Recorded hash w dir := by
  cases answer with
  | failed => exact h
  | hit id found =>
      obtain ⟨m, i, mem, -, -⟩ := (h.written name id).mp found
      have there := h.present m id (h.answers _ mem)
      exact
        { h with
          answers := fun e mem => List.mem_cons_of_mem _ (h.answers e mem)
          present := by
            intro m' id' mem'
            rcases List.mem_cons.mp mem' with new | old
            · cases new
              exact there
            · exact h.present m' id' old }
  | shared id identity miss known found =>
      obtain ⟨m, i, mem, -, -⟩ := (h.written _ id).mp found
      have there := h.present m id (h.answers _ mem)
      have free := free_of_miss miss known fun v other =>
        Option.some.inj (other.symm.trans found)
      exact
        { dir_eq := h.dir_eq
          sizes := h.sizes
          written := h.written_register known free
          answers := fun e mem => List.mem_cons.mpr
            ((List.mem_cons.mp mem).imp_right (h.answers e))
          present := by
            intro m' id' mem'
            rcases List.mem_cons.mp mem' with new | old
            · cases new
              exact there
            · exact h.present m' id' old
          origin := by
            intro id' path there
            obtain ⟨m', found', mem', rest⟩ := h.origin id' path there
            exact ⟨m', found', List.mem_cons_of_mem _ mem', rest⟩ }
  | started app entry identity miss located known unshared =>
      have free : ∀ k v, identity.Names k → s.pool.apps.lookup k = some v →
          v = s.pool.heap.length :=
        free_of_miss miss known fun v other => by
          rw [unshared] at other
          cases other
      exact
        { dir_eq := h.dir_eq
          sizes := by simp [h.sizes]
          written := h.written_register known free
          answers := fun e mem => List.mem_cons.mpr
            ((List.mem_cons.mp mem).imp_right (h.answers e))
          present := by
            intro m' id' mem'
            rw [List.length_append]
            rcases List.mem_cons.mp mem' with new | old
            · cases new
              exact Nat.lt_succ_of_le h.sizes.ge
            · exact Nat.lt_add_right _ (h.present m' id' old)
          origin := by
            intro id' path there
            rw [List.getElem?_append] at there
            split at there
            · obtain ⟨m', found', mem', rest⟩ := h.origin id' path there
              exact ⟨m', found', List.mem_cons_of_mem _ mem', rest⟩
            · next beyond =>
                rw [List.getElem?_singleton] at there
                split at there
                · next last =>
                    cases there
                    have fresh : id' = s.pool.heap.length := by
                      rw [← h.sizes]
                      exact Nat.le_antisymm (Nat.le_of_sub_eq_zero last)
                        (Nat.le_of_not_lt beyond)
                    exact ⟨name, entry, by simp [fresh], located, rfl⟩
                · cases there }

/-- A call of `lookupApp`, as a step of the run. -/
theorem recorded_step {l : Os × GoString} (h : s.Recorded hash w dir)
    (step : (lookupRuns T hash w dir).step s l = some t) : t.Recorded hash w dir := by
  cases step
  exact (answer_call h.dir_eq l.1).recorded h

end Lookups

end PumaDev
