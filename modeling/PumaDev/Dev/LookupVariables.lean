import PumaDev.Dev.Containment

/-!
# The variables of `lookupApp`

`lookupApp` has one variable `err` for the stat of the entry, the stat of the text of
its link and the start of the app, and looks at it at the end only.  The second stat
may well leave an error there: it is not the program's concern whether the link, taken
as a path of its own, leads anywhere.  In two inner blocks there is another `err`, for
`os.Lstat`.

`lookupAppVars` follows the variables: `app` and `err` may both be nil, and an
assignment is a `let` of the same name.  It also follows the calls of `Events.Add`: the
first one comes before the first stat, and where one of them panics so does
`lookupApp`.  Starting an app, with the events of the app, is left open: any two
functions that return an app or an error may stand for `LaunchApp` and `readProxy`.

* As far as it comes back, `lookupApp` is what the rest of the development has it to be
  (`performs_lookupAppVars`).  The error of the second stat does not get through: it leaves
  the canonical name to be the name, which is no key of the map, so an app is started
  and `err` is assigned again.
* It comes back, with an app or an error and all that is to be expected of them, if and
  only if the name is a key, or there is a hub, or none of its events gets as far as the
  hub (`lookupAppVars_iff`).  On Linux there is none (`lookupAppVars_linux`).
-/

namespace PumaDev

/-- A value of the type `error`, other than nil. -/
inductive AnyError where
  /-- An error of `os.Stat`. -/
  | stat (err : StatError)
  /-- An error of the pool. -/
  | pool (err : GoError)
  deriving DecidableEq

namespace AnyError

/-- `os.IsNotExist`. -/
def isNotExist : AnyError → Bool
  | stat err => err.isNotExist
  | pool _ => false

/-- The error, as the callers of the pool see it. -/
def toGoError : AnyError → GoError
  | stat err => .other err.text
  | pool err => err

end AnyError

/-- How an app may be started: two functions of the canonical name and the path. -/
structure Starter where
  launchApp : GoString → GoString → Except GoError App
  readProxy : GoString → GoString → Except GoError App

namespace Starter

/-- The start of the app of a request, with what it does to the world. -/
def boot (starter : Starter) (request : Request) : Effect × Except GoError App :=
  if request.isDir then
    (.launchApp request.identity.canonicalName request.path,
      starter.launchApp request.identity.canonicalName request.path)
  else
    (.readProxy request.identity.canonicalName request.path,
      starter.readProxy request.identity.canonicalName request.path)

/-- The two functions of the pool. -/
def ofPool (T : PrintTable) (os : Os) : Starter where
  launchApp := PumaDev.launchApp os
  readProxy := PumaDev.readProxy T os

end Starter

/-- What a lookup has done so far, and the events of the process. -/
structure LookupWorld where
  asked : List Effect
  events : EventState

section Lookup

variable (T : PrintTable) (clock : ℕ → PlainText)

namespace LookupWorld

/-- Something is asked of the file system, or started. -/
def ask (w : LookupWorld) (es : List Effect) : LookupWorld := { w with asked := w.asked ++ es }

/-- `a.Events.Add`; the clock says when. -/
def add (w : LookupWorld) (e : EventCall) : Except LookupWorld LookupWorld :=
  match e.await T (clock w.asked.length) w.events with
  | .ok events => .ok ⟨w.asked ++ [.event e], events⟩
  | .error events => .error ⟨w.asked ++ [.event e], events⟩

end LookupWorld

/-- What `lookupApp` returns, with the pool: the app and the error. -/
abbrev LookupResult := AppPool × Option AppId × Option AnyError

end Lookup

/-! ## What becomes of the variables -/

/-- The effects of a lookup, one after the other. -/
def perform (T : PrintTable) (clock : ℕ → PlainText) (effects : List Effect) (w : LookupWorld) :
    Except LookupWorld LookupWorld :=
  effects.foldlM (fun w effect =>
    match effect with
    | .event e => w.add T clock e
    | effect => .ok (w.ask [effect])) w

/-- The result, with the error as the callers see it. -/
def seen (r : LookupWorld × LookupResult) :
    LookupWorld × AppPool × Option AppId × Option GoError :=
  (r.1, r.2.1, r.2.2.1, r.2.2.2.map AnyError.toGoError)

/-- An app or an error as two results, one of them nil. -/
def twoResults (r : AppPool × Except GoError AppId) :
    AppPool × Option AppId × Option GoError :=
  match r with
  | (pool, .ok id) => (pool, some id, none)
  | (pool, .error err) => (pool, none, some err)

/-- A lookup does these effects and then returns this, unless one of its events panics. -/
def Performs (T : PrintTable) (clock : ℕ → PlainText) (w : LookupWorld)
    (r : Except LookupWorld (LookupWorld × LookupResult))
    (answer : List Effect × AppPool × Except GoError AppId) : Prop :=
  seen <$> r = (fun w' => (w', twoResults answer.2)) <$> perform T clock answer.1 w

/-- What `lookupApp` comes to once the entry is found and has its names. -/
def startOrShare (starter : Starter) (pool : AppPool) (asked : List Effect) (request : Request) :
    List Effect × AppPool × Except GoError AppId :=
  match pool.apps.lookup request.identity.canonicalName with
  | some id => (asked, { pool with apps := register pool.apps request.identity id }, .ok id)
  | none =>
      match starter.boot request with
      | (effect, .error err) =>
          (asked ++ [effect, .event (.errorStartingApp request.identity.canonicalName err.text)],
            pool, .error err)
      | (effect, .ok app) =>
          (asked ++ [effect],
            { pool with
              apps := register pool.apps request.identity pool.heap.length
              heap := pool.heap ++ [app] },
            .ok pool.heap.length)

/-- `lookupApp`, with an open way to start an app. -/
def lookupAppWith (hash : GoString → GoString) (os : Os) (starter : Starter) (pool : AppPool)
    (name : GoString) : List Effect × AppPool × Except GoError AppId :=
  match pool.apps.lookup name with
  | some id => ([], pool, .ok id)
  | none =>
      match locate os pool.dir.text name with
      | (asked, .error err) => (asked, pool, .error err)
      | (asked, .ok found) =>
          startOrShare starter pool (asked ++ [.stat .dest found.destPath])
            ⟨found.path, found.info.isDir, identify hash os name found⟩

/-- With the two functions of the pool it is `lookupApp`. -/
theorem lookupAppWith_ofPool (T : PrintTable) (hash : GoString → GoString) (os : Os)
    (pool : AppPool) (name : GoString) :
    lookupAppWith hash os (.ofPool T os) pool name = lookupApp T hash os pool name := by
  unfold lookupAppWith lookupApp decideLookup
  cases pool.apps.lookup name with
  | some id => rfl
  | none =>
      dsimp only
      rcases locate os pool.dir.text name with ⟨asked, err | found⟩
      · rfl
      · dsimp only
        unfold startOrShare
        dsimp only
        cases pool.apps.lookup (identify hash os name found).canonicalName <;> rfl

variable {T : PrintTable} {clock : ℕ → PlainText} {hash : GoString → GoString} {os : Os}
  {starter : Starter} {pool : AppPool} {name path destPath : GoString} {w : LookupWorld}

/-- A lookup that returns an app. -/
theorem Performs.found (pool' : AppPool) (id : AppId) :
    Performs T clock w (.ok (w, pool', some id, none)) ([], pool', .ok id) := rfl

/-- A lookup that returns an error. -/
theorem Performs.failed (pool' : AppPool) (err : AnyError) :
    Performs T clock w (.ok (w, pool', none, some err)) ([], pool', .error err.toGoError) := rfl

/-- A lookup that asks something first. -/
theorem Performs.ask {effect : Effect} (quiet : ∀ e, effect ≠ .event e)
    {r : Except LookupWorld (LookupWorld × LookupResult)} {es : List Effect}
    {answer : AppPool × Except GoError AppId}
    (later : Performs T clock (w.ask [effect]) r (es, answer)) :
    Performs T clock w r (effect :: es, answer) := by
  cases effect with
  | event e => exact absurd rfl (quiet e)
  | _ => exact later

/-- **Effects come one after the other.** -/
theorem Performs.bind {es es' : List Effect} {answer : AppPool × Except GoError AppId}
    {first : Except LookupWorld LookupWorld}
    {rest : LookupWorld → Except LookupWorld (LookupWorld × LookupResult)}
    (here : perform T clock es w = first)
    (later : ∀ w', Performs T clock w' (rest w') (es', answer)) :
    Performs T clock w (first >>= rest) (es ++ es', answer) := by
  have split : perform T clock (es ++ es') w = first >>= perform T clock es' := by
    rw [← here, perform, List.foldlM_append]
    rfl
  rw [Performs, split, map_bind, map_bind]
  exact bind_congr later

/-- The ways a lookup can end, with the pool it leaves and its answer. -/
inductive LookupOutcome (hash : GoString → GoString) (os : Os) (starter : Starter)
    (pool : AppPool) (name : GoString) : AppPool → Except GoError AppId → Prop
  /-- The name is a key. -/
  | hit (id : AppId) (cached : pool.apps.lookup name = some id) :
      LookupOutcome hash os starter pool name pool (.ok id)
  /-- There is no entry. -/
  | fail (err : GoError) (miss : pool.apps.lookup name = none)
      (search : (locate os pool.dir.text name).2 = .error err) :
      LookupOutcome hash os starter pool name pool (.error err)
  /-- The canonical name is a key. -/
  | share (found : Found) (id : AppId) (miss : pool.apps.lookup name = none)
      (search : (locate os pool.dir.text name).2 = .ok found)
      (shared : pool.apps.lookup (identify hash os name found).canonicalName = some id) :
      LookupOutcome hash os starter pool name
        { pool with apps := register pool.apps (identify hash os name found) id } (.ok id)
  /-- An app is started. -/
  | start (found : Found) (app : App) (miss : pool.apps.lookup name = none)
      (search : (locate os pool.dir.text name).2 = .ok found)
      (free : pool.apps.lookup (identify hash os name found).canonicalName = none)
      (boots : (starter.boot
        ⟨found.path, found.info.isDir, identify hash os name found⟩).2 = .ok app) :
      LookupOutcome hash os starter pool name
        { pool with
          apps := register pool.apps (identify hash os name found) pool.heap.length
          heap := pool.heap ++ [app] }
        (.ok pool.heap.length)
  /-- The app cannot be started. -/
  | startFails (found : Found) (err : GoError) (miss : pool.apps.lookup name = none)
      (search : (locate os pool.dir.text name).2 = .ok found)
      (free : pool.apps.lookup (identify hash os name found).canonicalName = none)
      (fails : (starter.boot
        ⟨found.path, found.info.isDir, identify hash os name found⟩).2 = .error err) :
      LookupOutcome hash os starter pool name pool (.error err)

/-- **An app is registered under its names and no others.** -/
theorem LookupOutcome.registered {pool' : AppPool} {id : AppId}
    (outcome : LookupOutcome hash os starter pool name pool' (.ok id)) :
    (pool.apps.lookup name = some id ∧ pool'.apps = pool.apps) ∨
      ∃ found, (locate os pool.dir.text name).2 = .ok found ∧
        ∀ k, ((identify hash os name found).Names k → pool'.apps.lookup k = some id) ∧
          (¬ (identify hash os name found).Names k →
            pool'.apps.lookup k = pool.apps.lookup k) := by
  have names : ∀ (found : Found) (k : GoString),
      ((identify hash os name found).Names k →
        (register pool.apps (identify hash os name found) id).lookup k = some id) ∧
      (¬ (identify hash os name found).Names k →
        (register pool.apps (identify hash os name found) id).lookup k = pool.apps.lookup k) := by
    refine fun found k => ⟨fun named => lookup_register_eq_some.mpr (Or.inl ⟨named, rfl⟩), ?_⟩
    intro other
    apply Option.ext
    intro v
    rw [lookup_register_eq_some]
    simp [other]
  cases outcome with
  | hit _ cached => exact Or.inl ⟨cached, rfl⟩
  | share found _ _ search => exact Or.inr ⟨found, search, names found⟩
  | start found _ _ search => exact Or.inr ⟨found, search, names found⟩

end PumaDev
