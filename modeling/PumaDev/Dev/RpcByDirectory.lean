import PumaDev.Dev.Containment
import PumaDev.Dev.RpcFind

/-!
# One app by its directory

With `noCreate`, `findAppByKey` is to find the app that runs in a directory under
whatever names it is registered: it resolves the links of the pool's directory and of the
app's, and compares.  Its last try goes by the name, without the digits that
`lookupApp` puts behind it.

The comparison never succeeds, for it asks for an error (`RpcOs.sameDir_eq_false`).  So
what is found is what the last try finds: `findsByDirectory_iff` says when that is the app
in the directory, and `findAppByKey_qualified` what is found by design.
-/

namespace PumaDev

namespace RpcOs

/-- The directory of the app resolves to the path. -/
def Resolves (os : RpcOs) (pool : AppPool) (real : GoString) (app : AppId) : Prop :=
  ∃ a, pool.heap[app]? = some a ∧ os.evalSymlinks a.dir = .ok real

/-- The app is registered under a key that is the id, up to a suffix of digits on
either. -/
def Named (pool : AppPool) (id : GoString) (app : AppId) : Prop :=
  ∃ k, pool.apps.lookup k = some app ∧ removeSuffix k = removeSuffix id

/-- `Dir/id` exists and resolves to the path, and so does the directory of some app in the
pool; the directories of the others resolve as well. -/
structure RunsAt (os : RpcOs) (pool : AppPool) (id real : GoString) : Prop where
  exists_ : os.evalSymlinks (Filepath.join [pool.dir.text, id]) = .ok real
  running : ∃ k app, pool.apps.lookup k = some app ∧ os.Resolves pool real app
  resolve : ∀ k app, pool.apps.lookup k = some app → ∃ r, os.Resolves pool r app

/-- **The lookup finds a running app by its directory**, in whatever order it goes through
the map. -/
def FindsByDirectory (T : PrintTable) (hash : GoString → GoString) (os : RpcOs)
    (pool : AppPool) (id : GoString) : Prop :=
  ∀ real, os.RunsAt pool id real → ∀ first second : Registry.Iteration pool.apps,
    ∃ app, (findAppByKey T hash os pool first second id false).2 = some app ∧
      os.Resolves pool real app

/-- The names lead to the directory: the id is a key of an app in it; or the id is no key,
there is something at `Dir/simpleId`, and the keys that are `simpleId` up to a suffix of
digits, of which there are some, are all keys of apps in it. -/
def ReachedByName (os : RpcOs) (pool : AppPool) (id real : GoString) : Prop :=
  (∃ app, pool.apps.lookup id = some app ∧ os.Resolves pool real app) ∨
    pool.apps.lookup id = none ∧
      (∃ r, os.expectedPathReal pool.dir (removeSuffix id) = some r) ∧
      (∃ app, Named pool id app) ∧ ∀ app, Named pool id app → os.Resolves pool real app

end RpcOs

open RpcOs

variable {pool : AppPool} {id : GoString}

/-! ## The app in the directory -/

/-- What the last try finds has a property in every order. -/
theorem forall_lastTry_iff (pool : AppPool) (id : GoString) (P : AppId → Prop) :
    (∀ second : Registry.Iteration pool.apps, ∃ app,
        (second.visits.find? fun e => decide (removeSuffix e.1 = removeSuffix id)).map Prod.snd =
          some app ∧ P app) ↔
      (∃ app, Named pool id app) ∧ ∀ app, Named pool id app → P app := by
  rw [Registry.Iteration.forall_first_iff (fun k => decide (removeSuffix k = removeSuffix id)) P]
  simp only [decide_eq_true_eq, Named]
  constructor
  · rintro ⟨⟨k, app, same, key⟩, all⟩
    exact ⟨⟨app, k, key, same⟩, fun app' ⟨k', key', same'⟩ => all k' app' key' same'⟩
  · rintro ⟨⟨app, k, key, same⟩, all⟩
    exact ⟨⟨k, app, same, key⟩, fun k' app' key' same' => all app' ⟨k', key', same'⟩⟩

/-- **When the lookup finds the app that runs in a directory**: exactly when the names lead
to the directory.  That the directories are the same does not help. -/
theorem findsByDirectory_iff (T : PrintTable) (hash : GoString → GoString) (os : RpcOs)
    (pool : AppPool) (id : GoString) :
    FindsByDirectory T hash os pool id ↔
      ∀ real, os.RunsAt pool id real → os.ReachedByName pool id real := by
  refine forall_congr' fun real => forall_congr' fun _ => ?_
  unfold ReachedByName
  cases key : pool.apps.lookup id with
  | some app => simp [findAppByKey_of_key key]
  | none =>
      cases expected : os.expectedPathReal pool.dir (removeSuffix id) with
      | none => simp [findAppByKey_of_unexpected key expected]
      | some r =>
          have last := forall_lastTry_iff pool id (os.Resolves pool real)
          simp only [findAppByKey_of_expected key expected]
          simpa using last

/-- Digests of the texts of two links. -/
def siteDigest (text : GoString) : GoString :=
  if text = "/home/u/work/site".toList then "a9009328".toList
  else if text = "/home/u/play/site".toList then "3f4d66dc".toList
  else []

/-- The links of a pool directory: two to one place, and two more to places of the same
name. -/
def siteLink (path : GoString) : Option GoString :=
  if path = "/home/u/.puma-dev/blog".toList ∨ path = "/home/u/.puma-dev/weblog".toList then
    some "/home/u/work/site".toList
  else if path = "/home/u/.puma-dev/shop".toList then some "/home/u/play/site".toList
  else if path = "/home/u/.puma-dev/site".toList then some "/home/u/new/site".toList
  else none

/-- The world with these links. -/
def siteWorld : RpcOs :=
  { Os.everyDirectory with
    readlink := fun _ path => siteLink path
    evalSymlinks := fun path => .ok ((siteLink path).getD path) }

/-- The pool after `blog` has been started. -/
def blogPool : AppPool := (lookupApp .asciiOnly siteDigest siteWorld.toOs emptyPool
  "blog".toList).2.1

/-- The app `blog` runs in `/home/u/work/site`, and so would `weblog`; but it is not found
by that name. -/
theorem not_findsByDirectory_weblog :
    ¬ FindsByDirectory .asciiOnly siteDigest siteWorld blogPool "weblog".toList := by
  intro finds
  have key : blogPool.apps.lookup "blog".toList = some 0 := by decide +kernel
  have only : ∀ e ∈ (Registry.Iteration.entries blogPool.apps).visits, e.2 = 0 := by
    decide +kernel
  have dir : (blogPool.heap[0]?).map App.dir = some "/home/u/.puma-dev/blog".toList := by
    decide +kernel
  have runs : siteWorld.Resolves blogPool "/home/u/work/site".toList 0 := by
    obtain ⟨app, here, isDir⟩ := Option.map_eq_some_iff.mp dir
    exact ⟨app, here, by rw [isDir]; rfl⟩
  have runsAt : siteWorld.RunsAt blogPool "weblog".toList "/home/u/work/site".toList := by
    refine ⟨rfl, ⟨_, 0, key, runs⟩, fun k app found => ⟨"/home/u/work/site".toList, ?_⟩⟩
    have first : app = 0 := only _ ((Registry.Iteration.entries blogPool.apps).mem_visits.mpr found)
    rwa [first]
  obtain ⟨app, found, -⟩ := finds _ runsAt (.entries _) (.entries _)
  have nothing : (findAppByKey .asciiOnly siteDigest siteWorld blogPool (.entries _) (.entries _)
      "weblog".toList false).2 = none := by decide +kernel
  rw [nothing] at found
  cases found

/-! ## Somebody else's app -/

/-- **The lookup never returns somebody else's app**: it comes to the same in whatever
orders it goes through the map, and an app that it returns has the id as a key, or a
directory that resolves to the same path as `Dir/id`. -/
def Unconfused (T : PrintTable) (hash : GoString → GoString) (os : RpcOs) (pool : AppPool)
    (id : GoString) : Prop :=
  (∀ first second first' second' : Registry.Iteration pool.apps,
      (findAppByKey T hash os pool first second id false).2 =
        (findAppByKey T hash os pool first' second' id false).2) ∧
    ∀ (first second : Registry.Iteration pool.apps) (app : AppId),
      (findAppByKey T hash os pool first second id false).2 = some app →
        pool.apps.lookup id = some app ∨
          ∃ real, os.evalSymlinks (Filepath.join [pool.dir.text, id]) = .ok real ∧
            os.Resolves pool real app

/-- An app that may be returned for an id that is no key: its directory is the one that is
expected, or it has the name. -/
def Qualifies (os : RpcOs) (pool : AppPool) (id real : GoString) (app : AppId) : Prop :=
  (∃ k, pool.apps.lookup k = some app) ∧ (os.Resolves pool real app ∨ Named pool id app)

/-- The last try finds an app of that name. -/
theorem named_of_lastTry {second : Registry.Iteration pool.apps} {app : AppId}
    (found : (second.visits.find? fun e => decide (removeSuffix e.1 = removeSuffix id)).map
      Prod.snd = some app) : Named pool id app := by
  obtain ⟨e, first, rfl⟩ := Option.map_eq_some_iff.mp found
  have same := List.find?_some
    (p := fun e : GoString × AppId => decide (removeSuffix e.1 = removeSuffix id)) first
  exact ⟨e.1, second.mem_visits.mp (List.mem_of_find?_eq_some first), of_decide_eq_true same⟩

/-- If it finds nothing, there is no app of that name. -/
theorem not_named_of_lastTry {second : Registry.Iteration pool.apps}
    (nothing : (second.visits.find? fun e => decide (removeSuffix e.1 = removeSuffix id)).map
      Prod.snd = none) (app : AppId) : ¬ Named pool id app := by
  rintro ⟨k, key, same⟩
  have unlike := List.find?_eq_none.mp (Option.map_eq_none_iff.mp nothing) _
    (second.mem_visits.mpr key)
  exact unlike (decide_eq_true same)

/-- Where one app at most has the name, the order does not matter. -/
theorem lastTry_eq (only : ∀ app app', Named pool id app → Named pool id app' → app = app')
    (second second' : Registry.Iteration pool.apps) :
    (second.visits.find? fun e => decide (removeSuffix e.1 = removeSuffix id)).map Prod.snd =
      (second'.visits.find? fun e => decide (removeSuffix e.1 = removeSuffix id)).map
        Prod.snd := by
  cases first : (second.visits.find? fun e => decide (removeSuffix e.1 = removeSuffix id)).map
      Prod.snd with
  | none =>
      symm
      refine Option.eq_none_iff_forall_ne_some.mpr fun app found => ?_
      exact not_named_of_lastTry first app (named_of_lastTry found)
  | some app =>
      have named := named_of_lastTry first
      cases first' : (second'.visits.find? fun e =>
          decide (removeSuffix e.1 = removeSuffix id)).map Prod.snd with
      | none => exact absurd named (not_named_of_lastTry first' app)
      | some app' => exact congrArg some (only app app' named (named_of_lastTry first'))

/-- **What the lookup returns by design.**  The app that has the id as a key, and no other;
or, where the id is no key and there is something at `Dir/simpleId`, an app that runs in
that directory or has that name.  Any of them may be returned, but where there is no
more than one, the order does not matter. -/
theorem findAppByKey_qualified (T : PrintTable) (hash : GoString → GoString) (os : RpcOs)
    (pool : AppPool) (id : GoString) :
    (∀ (first second : Registry.Iteration pool.apps) (app : AppId),
        (findAppByKey T hash os pool first second id false).2 = some app →
          pool.apps.lookup id = some app ∨
            pool.apps.lookup id = none ∧
              ∃ real, os.expectedPathReal pool.dir (removeSuffix id) = some real ∧
                Qualifies os pool id real app) ∧
      ((pool.apps.lookup id = none → ∀ real app app',
          os.expectedPathReal pool.dir (removeSuffix id) = some real →
          Qualifies os pool id real app → Qualifies os pool id real app' → app = app') →
        ∀ first second first' second' : Registry.Iteration pool.apps,
          (findAppByKey T hash os pool first second id false).2 =
            (findAppByKey T hash os pool first' second' id false).2) := by
  cases key : pool.apps.lookup id with
  | some app =>
      simp only [findAppByKey_of_key key]
      exact ⟨fun _ _ _ => Or.inl, fun _ _ _ _ _ => trivial⟩
  | none =>
      cases expected : os.expectedPathReal pool.dir (removeSuffix id) with
      | none =>
          simp only [findAppByKey_of_unexpected key expected]
          exact ⟨nofun, fun _ _ _ _ _ => trivial⟩
      | some real =>
          simp only [findAppByKey_of_expected key expected]
          have qualified : ∀ app, Named pool id app → Qualifies os pool id real app := by
            rintro app ⟨k, found, same⟩
            exact ⟨⟨k, found⟩, Or.inr ⟨k, found, same⟩⟩
          constructor
          · intro first second app found
            exact Or.inr ⟨trivial, real, rfl, qualified app (named_of_lastTry found)⟩
          · intro only first second first' second'
            refine lastTry_eq (fun app app' named named' => ?_) second second'
            exact only trivial real app app' rfl (qualified app named) (qualified app' named')

/-- The first entry that is gone through, if it has the name. -/
theorem lastTry_of_first {second : Registry.Iteration pool.apps} {k : GoString} {app : AppId}
    {rest : List (GoString × AppId)} (visits : second.visits = (k, app) :: rest)
    (same : removeSuffix k = removeSuffix id) :
    (second.visits.find? fun e => decide (removeSuffix e.1 = removeSuffix id)).map Prod.snd =
      some app := by
  have here : decide (removeSuffix (k, app).1 = removeSuffix id) = true := decide_eq_true same
  rw [visits, List.find?_cons, here]
  rfl

/-- The pool after `shop` has been started as well. -/
def shopPool : AppPool := (lookupApp .asciiOnly siteDigest siteWorld.toOs blogPool
  "shop".toList).2.1

/-- Two apps run in directories of one name, and `site` is a link to a third: the lookup of
`site` returns the first or the second, whichever comes first. -/
theorem not_unconfused_site :
    ¬ Unconfused .asciiOnly siteDigest siteWorld shopPool "site".toList := by
  rintro ⟨same, -⟩
  have key : shopPool.apps.lookup "site".toList = none := by decide +kernel
  have expected : siteWorld.expectedPathReal shopPool.dir (removeSuffix "site".toList) =
      some "/home/u/new/site".toList := by decide +kernel
  have work : shopPool.apps.lookup "site-a9009328".toList = some 0 := by decide +kernel
  have play : shopPool.apps.lookup "site-3f4d66dc".toList = some 1 := by decide +kernel
  obtain ⟨order, rest, visits⟩ := Registry.Iteration.exists_first work
  obtain ⟨order', rest', visits'⟩ := Registry.Iteration.exists_first play
  have like : removeSuffix "site-a9009328".toList = removeSuffix "site".toList := by decide
  have like' : removeSuffix "site-3f4d66dc".toList = removeSuffix "site".toList := by decide
  have confused := same order order order' order'
  rw [findAppByKey_of_expected key expected, findAppByKey_of_expected key expected,
    lastTry_of_first visits like, lastTry_of_first visits' like'] at confused
  cases confused

end PumaDev
