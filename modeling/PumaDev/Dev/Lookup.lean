import PumaDev.Dev.App
import PumaDev.Lib.Registry

/-!
# Looking up an app

`AppPool.lookupApp` holds the pool's lock from its first line to its last.  It
is written here in the three parts the rest of the development talks about:

* `locate` asks the file system for the entry of a name — under the name
  itself, then with hyphens expanded into directories — and says what it asked;
* `identify` gives the entry its **canonical name** and an alias.  A link is
  known by the base name of its text and a digest of that text, as soon as the
  text, taken as a path of its own, leads anywhere;
* `decideLookup` puts both together with the map of the pool: answer with an
  app that is there, or start a new one.

What starting involves (`boot`) and how the result is written into the map
(`register`) are separate, since other goroutines move between them.
`lookupApp` composes everything for a call that nobody interrupts.

An app is an address: an index into the list of all apps ever created, so that
two apps of one name are two apps.
-/

namespace PumaDev

/-- What a lookup does to the world outside the pool. -/
inductive Effect where
  | event (e : EventCall)
  | stat (site : Site) (path : GoString)
  | readlink (site : Site) (path : GoString)
  | lstat (site : Site) (path : GoString)
  | launchApp (name path : GoString)
  | readProxy (name path : GoString)
  deriving DecidableEq

/-- The address of an app. -/
abbrev AppId := ℕ

/-- The map of the pool. -/
abbrev Apps := Registry GoString AppId

/-- An entry of the pool directory. -/
structure Found where
  path : GoString
  info : FileInfo
  /-- The text of the link, if the entry is one. -/
  destPath : GoString
  deriving DecidableEq

/-- The queries for one path. -/
def queries (site : Site) (path : GoString) : List Effect :=
  [.event (.appLookup path), .stat site path, .readlink site path]

/-- The check for a link that leads nowhere. -/
def badSymlink (os : Os) (site : Site) (path : GoString) : List Effect :=
  .lstat site path ::
    if os.lstat site path then [.event (.badSymlink path (os.readlinkAt site path))] else []

/-- The name with every hyphen turned into a slash. -/
def expandHyphens (name : GoString) : GoString := Strings.replaceByte name '-' '/'

/-- The first part of `lookupApp`: find the entry. -/
def locate (os : Os) (dir name : GoString) : List Effect × Except GoError Found :=
  let path := Filepath.join [dir, name]
  match os.statAt .entry path with
  | .ok info => (queries .entry path, .ok ⟨path, info, os.readlinkAt .entry path⟩)
  | .error err =>
      if ¬ err.isNotExist then (queries .entry path, .error (.other err.text))
      else
        let asked := queries .entry path ++ badSymlink os .entry path
        let possible := expandHyphens name
        if possible = name then (asked, .error .unknownApp)
        else
          let path := Filepath.join [dir, possible]
          let asked := asked ++ queries .expanded path
          match os.statAt .expanded path with
          | .ok info => (asked, .ok ⟨path, info, os.readlinkAt .expanded path⟩)
          | .error err =>
              if ¬ err.isNotExist then (asked, .error (.other err.text))
              else (asked ++ badSymlink os .expanded path, .error .unknownApp)

/-- The names an entry is registered under; an empty alias is no alias. -/
structure Identity where
  canonicalName : GoString
  aliasName : GoString
  deriving DecidableEq

/-- The canonical name of a link: its base name, and the first four bytes of the
digest of its text. -/
def canonicalOf (hash : GoString → GoString) (destPath : GoString) : GoString :=
  Filepath.base destPath ++ '-' :: hash destPath

/-- The second part of `lookupApp`: handle multiple symlinks to one app.  The
text of the link is looked up as it is, from the working directory. -/
def identify (hash : GoString → GoString) (os : Os) (name : GoString) (found : Found) :
    Identity :=
  match os.statAt .dest found.destPath with
  | .ok info =>
      ⟨canonicalOf hash found.destPath, if info.name ≠ name then name else []⟩
  | .error _ => ⟨name, []⟩

/-- A new app to be started, and the names it will go under. -/
structure Request where
  path : GoString
  isDir : Bool
  identity : Identity
  deriving DecidableEq

/-- What a lookup comes to before anything is started or written. -/
inductive Decision where
  /-- The name is a key of the map. -/
  | hit (id : AppId)
  /-- There is no such entry. -/
  | fail (err : GoError)
  /-- The canonical name is a key of the map. -/
  | share (id : AppId) (identity : Identity)
  /-- The app has to be started. -/
  | start (request : Request)
  deriving DecidableEq

/-- `lookupApp` up to the point where an app is started or found. -/
def decideLookup (hash : GoString → GoString) (os : Os) (dir : GoString) (apps : Apps)
    (name : GoString) : List Effect × Decision :=
  match apps.lookup name with
  | some id => ([], .hit id)
  | none =>
      match locate os dir name with
      | (asked, .error err) => (asked, .fail err)
      | (asked, .ok found) =>
          let identity := identify hash os name found
          let asked := asked ++ [.stat .dest found.destPath]
          match apps.lookup identity.canonicalName with
          | some id => (asked, .share id identity)
          | none => (asked, .start ⟨found.path, found.info.isDir, identity⟩)

/-- Start an app: launch it in a directory, or read the address of a proxy. -/
def boot (T : PrintTable) (os : Os) (request : Request) : Effect × Except GoError App :=
  if request.isDir then
    (.launchApp request.identity.canonicalName request.path,
      launchApp os request.identity.canonicalName request.path)
  else
    (.readProxy request.identity.canonicalName request.path,
      readProxy T os request.identity.canonicalName request.path)

/-- Write an app into the map, under its canonical name and its alias. -/
def register (apps : Apps) (identity : Identity) (id : AppId) : Apps :=
  let apps := apps.insert identity.canonicalName id
  if identity.aliasName ≠ [] then apps.insert identity.aliasName id else apps

/-- A pool without its concurrent parts. -/
structure AppPool where
  /-- The directory of the pool, a cleaned absolute path. -/
  dir : Filepath.CleanDir
  apps : Apps
  /-- Every app ever created, by its address. -/
  heap : List App

/-- `AppPool.lookupApp`, run without interruption. -/
def lookupApp (T : PrintTable) (hash : GoString → GoString) (os : Os) (pool : AppPool)
    (name : GoString) : List Effect × AppPool × Except GoError AppId :=
  match decideLookup hash os pool.dir.text pool.apps name with
  | (asked, .hit id) => (asked, pool, .ok id)
  | (asked, .fail err) => (asked, pool, .error err)
  | (asked, .share id identity) =>
      (asked, { pool with apps := register pool.apps identity id }, .ok id)
  | (asked, .start request) =>
      match boot T os request with
      | (effect, .error err) =>
          (asked ++ [effect, .event (.errorStartingApp request.identity.canonicalName err.text)],
            pool, .error err)
      | (effect, .ok app) =>
          (asked ++ [effect],
            { pool with
              apps := register pool.apps request.identity pool.heap.length
              heap := pool.heap ++ [app] },
            .ok pool.heap.length)

/-! ## What the parts promise -/

/-- An entry that is found is what `os.Stat` and `os.Readlink` say of its path. -/
theorem stat_of_locate {os : Os} {dir name : GoString} {found : Found}
    (h : (locate os dir name).2 = .ok found) :
    ∃ site, os.statAt site found.path = .ok found.info ∧
      found.destPath = os.readlinkAt site found.path := by
  unfold locate at h
  dsimp only at h
  split at h
  · next info here =>
      cases h
      exact ⟨.entry, here, rfl⟩
  · split at h
    · cases h
    · split at h
      · cases h
      · split at h
        · next info here =>
            cases h
            exact ⟨.expanded, here, rfl⟩
        · split at h <;> cases h

/-- The alias an entry gets is the name it was looked up under. -/
theorem aliasName_identify (hash : GoString → GoString) (os : Os) (name : GoString)
    (found : Found) :
    (identify hash os name found).aliasName = [] ∨
      (identify hash os name found).aliasName = name := by
  unfold identify
  split
  · dsimp only
    split
    · exact Or.inr rfl
    · exact Or.inl rfl
  · exact Or.inl rfl

/-- What a decision says about the map it was taken on. -/
def Decision.Fits (apps : Apps) (name : GoString) : Decision → Prop
  | .hit id => apps.lookup name = some id
  | .fail _ => apps.lookup name = none
  | .share id identity =>
      apps.lookup name = none ∧ apps.lookup identity.canonicalName = some id ∧
        (identity.aliasName = [] ∨ identity.aliasName = name)
  | .start request =>
      apps.lookup name = none ∧ apps.lookup request.identity.canonicalName = none ∧
        (request.identity.aliasName = [] ∨ request.identity.aliasName = name)

/-- **Decisions fit the map.** -/
theorem fits_decideLookup (hash : GoString → GoString) (os : Os) (dir : GoString) (apps : Apps)
    (name : GoString) : (decideLookup hash os dir apps name).2.Fits apps name := by
  unfold decideLookup
  cases cached : apps.lookup name with
  | some id => exact cached
  | none =>
      dsimp only
      rcases locate os dir name with ⟨asked, err | found⟩
      · exact cached
      · dsimp only
        have names := aliasName_identify hash os name found
        cases shared : apps.lookup (identify hash os name found).canonicalName with
        | some id => exact ⟨cached, shared, names⟩
        | none => exact ⟨cached, shared, names⟩

/-- A name that is a key is answered with its app. -/
theorem lookupApp_of_key (T : PrintTable) (hash : GoString → GoString) (os : Os)
    {pool : AppPool} {name : GoString} {id : AppId} (cached : pool.apps.lookup name = some id) :
    lookupApp T hash os pool name = ([], pool, .ok id) := by
  simp [lookupApp, decideLookup, cached]

/-- An app that was started has the canonical name it was started under. -/
theorem name_of_boot {T : PrintTable} {os : Os} {request : Request} {app : App}
    (h : (boot T os request).2 = .ok app) : app.name = request.identity.canonicalName := by
  unfold boot at h
  split at h
  · exact (launchApp_eq_ok h).1
  · exact (readProxy_eq_ok h).1

/-- The names an app goes under. -/
def Identity.Names (identity : Identity) (k : GoString) : Prop :=
  k = identity.canonicalName ∨ (identity.aliasName ≠ [] ∧ k = identity.aliasName)

/-- **What the map holds after an app was registered.** -/
theorem lookup_register_eq_some {apps : Apps} {identity : Identity} {id v : AppId}
    {k : GoString} : (register apps identity id).lookup k = some v ↔
      (identity.Names k ∧ id = v) ∨ (¬ identity.Names k ∧ apps.lookup k = some v) := by
  unfold register Identity.Names
  dsimp only
  by_cases unaliased : identity.aliasName = []
  · rw [if_neg (not_not.mpr unaliased), Registry.lookup_insert_eq_some]
    simp [unaliased]
  · rw [if_pos unaliased, Registry.lookup_insert_eq_some, Registry.lookup_insert_eq_some]
    by_cases isAlias : k = identity.aliasName
    · simp [isAlias, unaliased]
    · simp [isAlias]

/-- Registering under names that are free, or lead to the app already, redirects
nothing. -/
theorem extends_register {apps : Apps} {identity : Identity} {id : AppId}
    (free : ∀ k v, identity.Names k → apps.lookup k = some v → v = id) :
    Registry.Extends apps (register apps identity id) := by
  intro k v h
  rw [lookup_register_eq_some]
  by_cases named : identity.Names k
  · exact Or.inl ⟨named, (free k v named h).symm⟩
  · exact Or.inr ⟨named, h⟩

/-! ## Looking up a domain name -/

/-- `pruneSub`: drop the first label. -/
def pruneSub (name : GoString) : GoString :=
  match Strings.indexByte name '.' with
  | none => []
  | some dot => name.drop (dot + 1)

theorem length_pruneSub_lt {name : GoString} (nonempty : name ≠ []) :
    (pruneSub name).length < name.length := by
  have positive : 0 < name.length := List.length_pos_of_ne_nil nonempty
  unfold pruneSub
  split
  · exact positive
  · rw [List.length_drop]
    omega

/-- The loop of `FindAppByDomainName`, over any lookup with a state. -/
def findLoop {σ : Type} (lookup : σ → GoString → σ × Except GoError AppId) (s : σ)
    (name : GoString) : σ × Except GoError (Option AppId) :=
  if name = [] then (s, .ok none)
  else
    match lookup s name with
    | (s, .ok id) => (s, .ok (some id))
    | (s, .error .unknownApp) => findLoop lookup s (pruneSub name)
    | (s, .error err) => (s, .error err)
  termination_by name.length
  decreasing_by exact length_pruneSub_lt ‹_›

/-- `AppPool.FindAppByDomainName`. -/
def findAppByDomainName {σ : Type} (lookup : σ → GoString → σ × Except GoError AppId)
    (s : σ) (name : GoString) : σ × Except GoError AppId :=
  match findLoop lookup s name with
  | (s, .error err) => (s, .error err)
  | (s, .ok (some id)) => (s, .ok id)
  | (s, .ok none) => lookup s "default".toList

end PumaDev
