import PumaDev.Dev.Domains
import PumaDev.Dev.PoolPurge
import PumaDev.Dev.RpcApps

/-!
# One app by its name

`GET /apps/{id}` looks for the app with `findAppByRequest`.  The id is the name that
`GET /apps` reports, yet it goes through `removeTLD` first, which is written for
hosts: of a name with a dot it leaves what is in front of the last one, and of a
name that reads as a host with a port it leaves the host.

`found_iff_findable` says exactly which apps are found under their names: those with
a plain name, and those to whom the shortened name leads as well.
-/

namespace PumaDev

/-! ## Finding an app -/

/-- Does the character belong to `[a-f0-9]`? -/
def isLowerHex (c : Char) : Bool := ('a' ≤ c && c ≤ 'f') || ('0' ≤ c && c ≤ '9')

/-- `removeSuffixRe.ReplaceAllString(id, "")`: at most the text from the last hyphen on
matches. -/
def removeSuffix (id : GoString) : GoString :=
  match Strings.lastIndexByte id '-' with
  | none => id
  | some i =>
      if 4 ≤ (id.drop (i + 1)).length ∧ (id.drop (i + 1)).all isLowerHex then id.take i else id

/-- The world as the RPC service sees it. -/
structure RpcOs extends Os where
  /-- `filepath.EvalSymlinks`; with an error the path it returns is empty. -/
  evalSymlinks : GoString → Except GoString GoString

namespace RpcOs

/-- `expectedPathReal`, where there is one. -/
def expectedPathReal (os : RpcOs) (dir : Filepath.CleanDir) (simpleId : GoString) :
    Option GoString :=
  match os.evalSymlinks (Filepath.join [dir.text, simpleId]) with
  | .error _ => none
  | .ok real => if real = [] then none else some real

/-- The condition in the first loop of `findAppByKey`: there is an error, and the path
is the one that is expected. -/
def sameDir (os : RpcOs) (real : GoString) (app : App) : Bool :=
  match os.evalSymlinks app.dir with
  | .error _ => real = []
  | .ok _ => false

end RpcOs

/-- `RpcService.findAppByKey`, with the orders in which its loops go through the map. -/
def findAppByKey (T : PrintTable) (hash : GoString → GoString) (os : RpcOs) (pool : AppPool)
    (first second : Registry.Iteration pool.apps) (id : GoString) (tryCreateIfMissing : Bool) :
    AppPool × Option AppId :=
  match pool.apps.lookup id with
  | some app => (pool, some app)
  | none =>
      if tryCreateIfMissing then
        match lookupApp T hash os.toOs pool id with
        | (_, pool, .ok app) => (pool, some app)
        | (_, pool, .error _) => (pool, none)
      else
        match os.expectedPathReal pool.dir (removeSuffix id) with
        | none => (pool, none)
        | some real =>
            match first.visits.find? fun e => (pool.heap[e.2]?).any (os.sameDir real) with
            | some (_, app) => (pool, some app)
            | none =>
                (pool, (second.visits.find? fun e => removeSuffix e.1 = removeSuffix id).map
                  Prod.snd)

/-- What a request to `/apps/{id}` says: the id, and the parameter `noCreate`. -/
structure ItemRequest where
  id : GoString
  noCreate : GoString

/-- `RpcService.findAppByRequest`, with `h.Domains` as its first argument. -/
def findAppByRequest (domains : List GoString) (T : PrintTable) (hash : GoString → GoString)
    (os : RpcOs) (pool : AppPool) (first second : Registry.Iteration pool.apps)
    (request : ItemRequest) : AppPool × Option AppId :=
  findAppByKey T hash os pool first second (removeTLD domains request.id)
    (request.noCreate = [])

/-! ## Plain names -/

/-- The name has no dot, and is no host with a port. -/
def PlainName (name : GoString) : Prop := '.' ∉ name ∧ Net.splitHostPort name = none

instance (name : GoString) : Decidable (PlainName name) := inferInstanceAs (Decidable (_ ∧ _))

/-- A plain name is the name of itself, whatever the domains are. -/
theorem removeTLD_of_plain {name : GoString} (plain : PlainName name)
    (domains : List GoString) : removeTLD domains name = name := by
  obtain ⟨noDot, noPort⟩ := plain
  have same : hostName name = name := by
    rw [hostName, noPort]
    split <;> rfl
  have undotted : ∀ {suffix : GoString}, '.' ∈ suffix → ¬ suffix <:+ name :=
    fun dotted ends => noDot (ends.subset dotted)
  have named : ¬ IsIpHost name := by
    rw [IsIpHost, same]
    rintro (ends | ends)
    · exact undotted (by decide) (List.isSuffixOf_iff_suffix.mp ends)
    · exact undotted (by decide) (List.isSuffixOf_iff_suffix.mp ends)
  have none_ : trimDomain name domains = none :=
    trimDomain_eq_none_iff.mpr fun d _ => undotted List.mem_cons_self
  rw [removeTLD_of_not_isIpHost named, same, none_, Strings.lastIndexByte_eq_none_iff.mpr noDot]

/-! ## What is found -/

/-- A lookup of a name that is no key returns an app that is there already exactly when
the entry it finds has a key of the app as its canonical name. -/
theorem lookupApp_shares_iff (T : PrintTable) (hash : GoString → GoString) (os : Os)
    {pool : AppPool} {name : GoString} {id : AppId} (missing : pool.apps.lookup name = none)
    (present : id < pool.heap.length) :
    (lookupApp T hash os pool name).2.2 = .ok id ↔
      ∃ found, (locate os pool.dir.text name).2 = .ok found ∧
        pool.apps.lookup (identify hash os name found).canonicalName = some id := by
  rw [lookupApp, decideLookup, missing]
  dsimp only
  rcases locate os pool.dir.text name with ⟨asked, err | found⟩
  · simp
  · dsimp only
    cases shared : pool.apps.lookup (identify hash os name found).canonicalName with
    | some id' => simp [shared]
    | none =>
        dsimp only
        split
        · simp [shared]
        · -- an app that is started now has an address of its own
          simp [shared, present.ne']

/-- In the first loop nothing is ever the same directory: where there is an error there
is no path to compare. -/
theorem RpcOs.sameDir_eq_false {os : RpcOs} {dir : Filepath.CleanDir} {simpleId real : GoString}
    (expected : os.expectedPathReal dir simpleId = some real) (app : App) :
    os.sameDir real app = false := by
  have nonempty : real ≠ [] := by
    unfold expectedPathReal at expected
    split at expected
    · cases expected
    · split at expected
      · cases expected
      · next nonempty =>
          cases expected
          exact nonempty
  unfold sameDir
  split
  · exact decide_eq_false nonempty
  · rfl

section WithoutCreating

variable {T : PrintTable} {hash : GoString → GoString} {os : RpcOs} {pool : AppPool}
  {id : GoString}

/-- A key is found at once. -/
theorem findAppByKey_of_key {app : AppId} (key : pool.apps.lookup id = some app)
    (first second : Registry.Iteration pool.apps) :
    (findAppByKey T hash os pool first second id false).2 = some app := by
  rw [findAppByKey, key]

/-- Nothing is found where there is nothing at the path that is expected. -/
theorem findAppByKey_of_unexpected (missing : pool.apps.lookup id = none)
    (unexpected : os.expectedPathReal pool.dir (removeSuffix id) = none)
    (first second : Registry.Iteration pool.apps) :
    (findAppByKey T hash os pool first second id false).2 = none := by
  rw [findAppByKey, missing]
  simp [unexpected]

/-- **Otherwise the first loop finds nothing**, and the second finds the first key that is
the id up to a suffix of digits. -/
theorem findAppByKey_of_expected {real : GoString} (missing : pool.apps.lookup id = none)
    (expected : os.expectedPathReal pool.dir (removeSuffix id) = some real)
    (first second : Registry.Iteration pool.apps) :
    (findAppByKey T hash os pool first second id false).2 =
      (second.visits.find? fun e => decide (removeSuffix e.1 = removeSuffix id)).map Prod.snd := by
  have passed : (first.visits.find? fun e => (pool.heap[e.2]?).any (os.sameDir real)) = none := by
    refine List.find?_eq_none.mpr fun e _ => ?_
    cases pool.heap[e.2]? with
    | none => simp
    | some other => simp [RpcOs.sameDir_eq_false expected other]
  rw [findAppByKey, missing]
  simp [expected, passed]

end WithoutCreating

namespace Pool

variable {T : PrintTable} {hash : GoString → GoString} {s : Pool}

/-- The name leads to the app: it is a key of it; or it is no key, and then the entry of
that name has a key of the app as its canonical name, or — where nothing may be created
— its path resolves and the keys that differ from it by no more than a suffix of digits
are keys of the app. -/
def LeadsTo (hash : GoString → GoString) (os : RpcOs) (s : Pool) (noCreate name : GoString)
    (app : AppId) : Prop :=
  s.apps.lookup name = some app ∨ s.apps.lookup name = none ∧
    if noCreate = [] then
      ∃ found, (locate os.toOs s.dir.text name).2 = .ok found ∧
        s.apps.lookup (identify hash os.toOs name found).canonicalName = some app
    else
      (∃ real, os.expectedPathReal s.dir (removeSuffix name) = some real) ∧
        (∃ k, removeSuffix k = removeSuffix name ∧ s.apps.lookup k = some app) ∧
        ∀ k v, s.apps.lookup k = some v → removeSuffix k = removeSuffix name → v = app

/-- The app is found under its name: the name is plain, or what `removeTLD` leaves of it
leads to the app as well. -/
def Findable (domains : List GoString) (hash : GoString → GoString) (os : RpcOs) (s : Pool)
    (noCreate name : GoString) (app : AppId) : Prop :=
  PlainName name ∨ s.LeadsTo hash os noCreate (removeTLD domains name) app

/-- What `findAppByKey` finds, in whatever order its loops go through the map. -/
theorem findAppByKey_iff {app : AppId} (present : app < s.heap.length) (os : RpcOs)
    (noCreate name : GoString) :
    (∀ first second : Registry.Iteration s.view.apps,
        (findAppByKey T hash os s.view first second name (noCreate = [])).2 = some app) ↔
      s.LeadsTo hash os noCreate name app := by
  have apps : s.view.apps = s.apps := rfl
  cases cached : s.apps.lookup name with
  | some id => simp [findAppByKey, LeadsTo, apps, cached]
  | none =>
      have inside : app < s.view.heap.length := by simpa [view] using present
      have missing : s.view.apps.lookup name = none := cached
      by_cases create : noCreate = []
      · have shares := lookupApp_shares_iff T hash os.toOs missing inside
        simp only [findAppByKey, LeadsTo, apps, cached, create, decide_true, if_true]
        rw [show (∃ found, (locate os.toOs s.dir.text name).2 = .ok found ∧
          s.apps.lookup (identify hash os.toOs name found).canonicalName = some app) ↔ _
          from shares.symm]
        rcases lookupApp T hash os.toOs s.view name with ⟨asked, pool, err | id⟩ <;> simp
      · simp only [LeadsTo, cached, create, decide_false, if_false]
        cases expected : os.expectedPathReal s.dir (removeSuffix name) with
        | none => simp [findAppByKey_of_unexpected missing expected]
        | some real =>
            have found := Registry.Iteration.forall_find?_iff (m := s.view.apps)
              (fun k => decide (removeSuffix k = removeSuffix name)) app
            simp only [decide_eq_true_eq, apps] at found
            simp only [findAppByKey_of_expected missing expected]
            simpa using found

/-- **Which apps are found under their names.**  In every state of the pool, for all
domains, every answer of the world and every parameter: `GET /apps` reports the name
of an app as its id, and where the app is registered under its name, `GET /apps/{id}`
with this id finds exactly that app if and only if the name is plain or the shortened
name leads to the app as well. -/
theorem found_iff_findable {app : AppId} {name : GoString} (named : s.nameOf app = some name)
    (registered : s.apps.lookup name = some app) (domains : List GoString) (os : RpcOs)
    (noCreate : GoString) :
    (s.objectOf app).bind (·.lookup "id".toList) = some (.str name) ∧
      ((∀ first second : Registry.Iteration s.view.apps,
          (findAppByRequest domains T hash os s.view first second ⟨name, noCreate⟩).2 =
            some app) ↔
        s.Findable domains hash os noCreate name app) := by
  obtain ⟨i, here, rfl⟩ := Option.map_eq_some_iff.mp named
  have present : app < s.heap.length := (List.getElem?_eq_some_iff.mp here).1
  refine ⟨?_, ?_⟩
  · rw [objectOf, here]
    rfl
  · simp only [findAppByRequest]
    rw [findAppByKey_iff present, Findable]
    constructor
    · exact Or.inr
    · rintro (plain | leads)
      · rw [removeTLD_of_plain plain]
        exact Or.inl registered
      · exact leads

/-- The RPC service in a world. -/
def rpcOs (os : Os) : RpcOs := { os with evalSymlinks := .ok }

/-- `blog` has a plain name. -/
theorem found_blog : ∃ s ∈ plainPool.visited plainPool.init
    (startApp "blog".toList .everyDirectory),
    ∀ first second : Registry.Iteration s.view.apps,
      (findAppByRequest ["test".toList] .asciiOnly blogDigest (rpcOs .everyDirectory) s.view
        first second ⟨"blog".toList, []⟩).2 = some 0 := by
  have facts : (plainPool.exec plainPool.init (startApp "blog".toList .everyDirectory)).map
      (fun s => (s.nameOf 0, s.apps.lookup "blog".toList)) =
      some (some "blog".toList, some 0) := by decide
  obtain ⟨s, visited, found⟩ := plainPool.exists_visited_of_map facts
  simp only [Prod.mk.injEq] at found
  exact ⟨s, visited,
    (found_iff_findable found.1 found.2 _ _ _).2.mpr (Or.inl (by decide))⟩

/-- A world with one entry: the file of the proxy `webpack.blah`. -/
def webpackWorld : Os :=
  { portWorld with
    stat := fun _ path =>
      if path = "/home/u/.puma-dev/webpack.blah".toList then .ok false
      else .error (.notExist "no such file or directory".toList)
    lstat := fun _ _ => false }

/-- The proxy `webpack.blah` is registered under its name.  What is looked for is
`webpack`, and there is nothing of that name. -/
theorem not_found_webpackBlah : ∃ s ∈ plainPool.visited plainPool.init
    [.lookup "webpack.blah".toList webpackWorld, .boot webpackWorld, .register],
    s.nameOf 0 = some "webpack.blah".toList ∧
      s.apps.lookup "webpack.blah".toList = some 0 ∧
      ¬ ∀ first second : Registry.Iteration s.view.apps,
        (findAppByRequest ["test".toList] .asciiOnly blogDigest (rpcOs webpackWorld) s.view
          first second ⟨"webpack.blah".toList, []⟩).2 = some 0 := by
  have facts : (plainPool.exec plainPool.init
      [.lookup "webpack.blah".toList webpackWorld, .boot webpackWorld, .register]).map
      (fun s => (s.nameOf 0, s.apps.lookup "webpack.blah".toList,
        (findAppByRequest ["test".toList] .asciiOnly blogDigest (rpcOs webpackWorld) s.view
          (.entries _) (.entries _) ⟨"webpack.blah".toList, []⟩).2)) =
      some (some "webpack.blah".toList, some 0, none) := by decide
  obtain ⟨s, visited, found⟩ := plainPool.exists_visited_of_map facts
  simp only [Prod.mk.injEq] at found
  obtain ⟨named, registered, missed⟩ := found
  refine ⟨s, visited, named, registered, fun always => ?_⟩
  have hit := always (.entries _) (.entries _)
  rw [missed] at hit
  cases hit

end Pool

end PumaDev
