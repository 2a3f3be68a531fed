import PumaDev.Dev.Forwarding
import PumaDev.Dev.LinkCommand
import PumaDev.Dev.PoolLookup
import PumaDev.Dev.Subdomains

/-!
# A site, from the command to the process

`puma-dev link` puts a link into the directory of apps, and the server that watches this
directory serves the app: commands go on being run while the server runs, and each lookup of
the server sees the file tree as the commands have left it.  `deployment` is the machine of
both; all they share is the file tree.

An app is known to the pool by the text of its link, and a lookup may be answered from the map,
from an app that was started for another link, or by a new process.  `served_of_link` says that
for a linked name all of them are the directory that was linked: what is launched, what is found
in the map, and what answers at the other end of the connection that the request is sent
through.
-/

namespace PumaDev

open Filepath

/-- The files, and the pool of the server. -/
structure Deployment where
  tree : Files
  pool : Pool

/-- A command is run, or the server takes a step. -/
inductive DeploymentLabel where
  | command (i : Invocation)
  | server (l : Label)

/-- The step of the server in a world: what it asks the file system is answered there. -/
def Label.inWorld (w : World) : Label → Label
  | .lookup name os => .lookup name (w.os os)
  | .boot os => .boot (w.os os)
  | l => l

/-- One step; the server has its working directory, and each command has its own. -/
def Deployment.step (T : PrintTable) (hash : GoString → GoString) (maxLinks : ℕ)
    (cwd : List GoString) (s : Deployment) : DeploymentLabel → Option Deployment
  | .command i =>
      if here : (s.tree.node i.cwd).any Node.isDir then
        some { s with tree := (command i (i.world s.tree maxLinks here)).1 }
      else none
  | .server l =>
      if here : (s.tree.node cwd).any Node.isDir then
        (s.pool.step T hash (l.inWorld ⟨s.tree, cwd, here, maxLinks⟩)).map
          fun pool => { s with pool := pool }
      else none

/-- A server that is started on a file tree, and the commands that are run meanwhile. -/
def deployment (T : PrintTable) (hash : GoString → GoString) (maxLinks : ℕ)
    (cwd : List GoString) (dir : CleanDir) (idleTime : ℤ) (tree : Files) :
    Machine Deployment DeploymentLabel where
  init := ⟨tree, .empty dir idleTime⟩
  step := Deployment.step T hash maxLinks cwd

/-! ## Where paths lead -/

/-- The place an absolute path leads to, all links followed. -/
def FileTree.reach (tree : Files) (maxLinks : ℕ) (path : GoString) :
    Except WalkError (List GoString) :=
  tree.walk target true maxLinks [] (moves path)

/-- Two absolute paths lead to one place. -/
def FileTree.SameReal (tree : Files) (maxLinks : ℕ) (path path' : GoString) : Prop :=
  ∃ real, tree.reach maxLinks path = .ok real ∧ tree.reach maxLinks path' = .ok real

section Paths

variable {w : World} {path dir text : GoString} {real : List GoString}

theorem World.resolve_of_isAbs (abs : isAbs path = true) :
    w.resolve true path = w.tree.reach w.maxLinks path := by
  have nonempty : path ≠ [] := by
    rintro rfl
    cases abs
  rw [World.resolve, if_neg nonempty, World.origin, if_pos abs, FileTree.reach]

/-- What leads to one place goes on doing so. -/
theorem FileTree.SameReal.of_extends {tree tree' : Files} {maxLinks : ℕ} {path path' : GoString}
    (same : tree.SameReal maxLinks path path') (grows : tree.Extends tree') :
    tree'.SameReal maxLinks path path' := by
  obtain ⟨real, first, second⟩ := same
  exact ⟨real, FileTree.walk_of_extends grows first, FileTree.walk_of_extends grows second⟩

/-- **A link leads where its text leads**, if both lead anywhere. -/
theorem World.sameReal_of_readlink (abs : isAbs path = true) (absText : isAbs text = true)
    (link : w.readlink path = some text) (leads : w.resolve true path = .ok real)
    (there : (w.resolve true text).isOk) : w.tree.SameReal w.maxLinks path text := by
  obtain ⟨place, stops, hnode⟩ := w.readlink_eq_some link
  obtain ⟨left, behind⟩ := FileTree.walk_of_link (w.noLink_origin path) hnode
    (w.walk_of_resolve stops) (w.walk_of_resolve leads)
  cases direct : w.resolve true text with
  | error e =>
      rw [direct] at there
      cases there
  | ok real' =>
      rw [World.resolve_of_isAbs absText] at direct
      have start : FileTree.start (target text) place.tail = [] := if_pos absText
      rw [start] at behind
      have whole := FileTree.walk_mono (Nat.le_max_left left w.maxLinks) behind
      have whole' := FileTree.walk_mono (Nat.le_max_right left w.maxLinks) direct
      have same : real = real' := Except.ok.inj (whole.symm.trans whole')
      rw [World.resolve_of_isAbs abs] at leads
      exact ⟨real, leads, by rw [direct, same]⟩

/-- What is found has a place, and is a directory there, or is none. -/
theorem World.resolve_of_stat {isDir : Bool} (h : w.stat path = .ok isDir) :
    ∃ real, w.resolve true path = .ok real ∧ (w.tree.node real).any Node.isDir = isDir := by
  unfold World.stat at h
  split at h
  · cases h
  · next real leads => exact ⟨real, leads, Except.ok.inj h⟩

/-- Paths that lead to one place are directories together. -/
theorem World.isDir_of_sameReal {isDir : Bool} (abs : isAbs path = true)
    (absDir : isAbs dir = true) (same : w.tree.SameReal w.maxLinks path dir)
    (stat : w.stat path = .ok isDir) (stat' : w.stat dir = .ok true) : isDir = true := by
  obtain ⟨real, leads, value⟩ := World.resolve_of_stat stat
  obtain ⟨real', leads', value'⟩ := World.resolve_of_stat stat'
  obtain ⟨place, first, second⟩ := same
  rw [World.resolve_of_isAbs abs, first, Except.ok.injEq] at leads
  rw [World.resolve_of_isAbs absDir, second, Except.ok.injEq] at leads'
  rw [← value, ← value', ← leads, ← leads']

end Paths

/-! ## The names of the app -/

/-- A key that the app of a link may be registered under. -/
def KeyOf (hash : GoString → GoString) (name dir k : GoString) : Prop :=
  k = name ∨ k = canonicalOf hash dir

/-- **Alone**: nothing else in the files takes the names of the app.  The canonical name is that
of no other link, the name is no canonical name, and no entry of the directory of apps is called
by the canonical name, with its hyphens or with slashes for them. -/
structure FileTree.Alone (tree : Files) (hash : GoString → GoString) (maxLinks : ℕ)
    (pool name dir : GoString) : Prop where
  text : ∀ place text, tree.node place = some (.link text) →
    canonicalOf hash text = canonicalOf hash dir → text = dir
  name : ∀ place text, tree.node place = some (.link text) → canonicalOf hash text ≠ name
  entry : ∀ real, tree.reach maxLinks (join [pool, canonicalOf hash dir]) ≠ .ok real
  expanded : ∀ real,
    tree.reach maxLinks (join [pool, expandHyphens (canonicalOf hash dir)]) ≠ .ok real

/-- An entry is found under the name, or under the name with slashes. -/
theorem path_of_locate {os : Os} {dir name : GoString} {found : Found}
    (h : (locate os dir name).2 = .ok found) :
    found.path = join [dir, name] ∨ found.path = join [dir, expandHyphens name] := by
  unfold locate at h
  dsimp only at h
  split at h
  · cases h
    exact .inl rfl
  · split at h
    · cases h
    · split at h
      · cases h
      · split at h
        · cases h
          exact .inr rfl
        · split at h <;> cases h

section Names

variable {hash : GoString → GoString} {w : World} {pool : CleanDir} {name dir m k : GoString}
  {found : Found} {tree : Files} {maxLinks : ℕ}

/-- What an entry is. -/
theorem World.entry_of_find (h : w.find pool m = .ok found) :
    isAbs found.path = true ∧ clean found.path = found.path ∧
      w.stat found.path = .ok found.info.isDir ∧
      found.destPath = (w.readlink found.path).getD [] := by
  obtain ⟨p, path⟩ : ∃ p, found.path = join [pool.text, p] := by
    rcases path_of_locate h with path | path <;> exact ⟨_, path⟩
  have abs : isAbs found.path = true := path ▸ isAbs_join pool.abs p
  have cleaned : clean found.path = found.path := by
    rw [path, join_of_isAbs pool.abs]
    exact clean_clean (isAbs_join_text pool.abs p)
  obtain ⟨site, stat, text⟩ := stat_of_locate h
  refine ⟨abs, cleaned, ?_, text⟩
  unfold Os.statAt at stat
  split at stat
  · cases stat
  · cases exists_ : w.stat found.path with
    | ok isDir =>
        have answers : (w.os default).stat site found.path = .ok isDir := exists_
        rw [answers] at stat
        cases info : found.info
        rw [info] at stat
        cases stat
        rfl
    | error err =>
        have fails : (w.os default).stat site found.path = .error err := exists_
        rw [fails] at stat
        cases stat

/-- Under the name of the app its link is found. -/
theorem World.Linked.destPath_eq (linked : w.Linked (join [pool.text, name]) dir)
    (h : w.find pool name = .ok found) : found.destPath = dir := by
  rcases linked.locate default with here | loops
  · have same : w.find pool name = _ := here
    rw [h] at same
    rw [Except.ok.inj same]
  · have fails : w.find pool name = _ := loops
    rw [h] at fails
    cases fails

/-- Under its canonical name nothing is found. -/
theorem FileTree.Alone.not_found (alone : tree.Alone hash maxLinks pool.text name dir)
    (grows : w.tree.Extends tree) (links : w.maxLinks = maxLinks) :
    w.find pool (canonicalOf hash dir) ≠ .ok found := by
  intro h
  obtain ⟨abs, -, stat, -⟩ := World.entry_of_find h
  obtain ⟨real, leads, -⟩ := World.resolve_of_stat stat
  rw [World.resolve_of_isAbs abs, links] at leads
  have later : tree.reach maxLinks found.path = .ok real := FileTree.walk_of_extends grows leads
  rcases path_of_locate h with path | path
  · exact alone.entry real (path ▸ later)
  · exact alone.expanded real (path ▸ later)

/-- The text of an entry, if there is one, is that of a link. -/
theorem World.link_of_find (h : w.find pool m = .ok found) (nonempty : found.destPath ≠ []) :
    w.readlink found.path = some found.destPath ∧
      ∃ place, w.tree.node place = some (.link found.destPath) := by
  obtain ⟨-, -, -, text⟩ := World.entry_of_find h
  cases link : w.readlink found.path with
  | none =>
      rw [link] at text
      exact absurd text nonempty
  | some text' =>
      rw [link] at text
      obtain ⟨place, -, hnode⟩ := w.readlink_eq_some link
      exact ⟨congrArg some text.symm, place, by rw [hnode, text]; rfl⟩

/-- **Whoever goes under a name of the app is a link with its text.** -/
theorem destPath_of_names (linked : w.Linked (join [pool.text, name]) dir)
    (alone : tree.Alone hash maxLinks pool.text name dir) (grows : w.tree.Extends tree)
    (links : w.maxLinks = maxLinks) (h : w.find pool m = .ok found)
    (key : KeyOf hash name dir k) (named : (identify hash (w.os default) m found).Names k) :
    found.destPath = dir := by
  have byName : KeyOf hash name dir m → found.destPath = dir := by
    rintro (rfl | rfl)
    · exact linked.destPath_eq h
    · exact absurd h (alone.not_found grows links)
  unfold identify at named
  split at named
  · next info leads =>
      rcases named with rfl | ⟨nonempty, rfl⟩
      · have some_ : found.destPath ≠ [] := by
          intro empty
          rw [empty] at leads
          cases leads
        obtain ⟨-, place, hnode⟩ := World.link_of_find h some_
        rcases key with isName | isCanonical
        · exact absurd isName (alone.name place _ (grows place _ hnode))
        · exact alone.text place _ (grows place _ hnode) isCanonical
      · dsimp only at nonempty key
        split at nonempty
        · next alias_ =>
            rw [if_pos alias_] at key
            exact byName key
        · exact absurd rfl nonempty
  · rcases named with rfl | ⟨nonempty, -⟩
    · exact byName key
    · exact absurd rfl nonempty

/-- What is found under a name of the app. -/
structure Serves (tree : Files) (maxLinks : ℕ) (dir path : GoString) : Prop where
  cleaned : clean path = path
  same : tree.SameReal maxLinks path dir

theorem Serves.of_extends {tree' : Files} {path : GoString}
    (h : Serves tree maxLinks dir path) (grows : tree.Extends tree') :
    Serves tree' maxLinks dir path :=
  ⟨h.cleaned, h.same.of_extends grows⟩

/-- **The entry of such a link**: its canonical name, and the directory it leads to. -/
theorem serves_of_destPath (linked : w.Linked (join [pool.text, name]) dir)
    (h : w.find pool m = .ok found) (text : found.destPath = dir) :
    (identify hash (w.os default) m found).canonicalName = canonicalOf hash dir ∧
      found.info.isDir = true ∧ Serves w.tree w.maxLinks dir found.path := by
  obtain ⟨abs, cleaned, stat, -⟩ := World.entry_of_find h
  have some_ : dir ≠ [] := by
    rintro rfl
    cases linked.absDir
  obtain ⟨link, -⟩ := World.link_of_find h (text ▸ some_)
  obtain ⟨real, leads, -⟩ := World.resolve_of_stat stat
  obtain ⟨real', leads', -⟩ := World.resolve_of_stat linked.isDir
  have same : w.tree.SameReal w.maxLinks found.path dir :=
    World.sameReal_of_readlink abs linked.absDir (text ▸ link) leads (by rw [leads']; rfl)
  have asked : (w.os default).statAt .dest dir = .ok ⟨Filepath.base dir, true⟩ := by
    have answers : (w.os default).stat .dest dir = .ok true := linked.isDir
    rw [Os.statAt, if_neg some_, answers]
    rfl
  refine ⟨?_, World.isDir_of_sameReal abs linked.absDir same stat linked.isDir, cleaned, same⟩
  rw [identify, text, asked]

end Names

/-! ## Every step -/

section Decisions

variable {hash : GoString → GoString} {os : Os} {dir name : GoString} {apps : Apps}

/-- An app is shared under the canonical name of an entry. -/
theorem found_of_share {id : AppId} {identity : Identity}
    (h : (decideLookup hash os dir apps name).2 = .share id identity) :
    ∃ found, (locate os dir name).2 = .ok found ∧ identity = identify hash os name found ∧
      apps.lookup identity.canonicalName = some id := by
  unfold decideLookup at h
  split at h
  · cases h
  · split at h
    · cases h
    · next asked found located =>
        dsimp only at h
        split at h
        · next here =>
            cases h
            exact ⟨found, by rw [located], rfl, here⟩
        · cases h

/-- An app is started for an entry. -/
theorem found_of_start {request : Request}
    (h : (decideLookup hash os dir apps name).2 = .start request) :
    ∃ found, (locate os dir name).2 = .ok found ∧
      request = ⟨found.path, found.info.isDir, identify hash os name found⟩ := by
  unfold decideLookup at h
  split at h
  · cases h
  · split at h
    · cases h
    · next asked found located =>
        dsimp only at h
        split at h
        · cases h
        · cases h
          exact ⟨found, by rw [located], rfl⟩

end Decisions

/-- The directory of the pool is given to it once. -/
theorem Pool.dir_of_step {T : PrintTable} {hash : GoString → GoString} {s t : Pool} {l : Label}
    (h : s.step T hash l = some t) : t.dir = s.dir := by
  cases stepsTo_of_step h <;> rfl

/-- A lookup that is about to start an app has decided so. -/
theorem Pool.booting_of_step {T : PrintTable} {hash : GoString → GoString} {s t : Pool} {l : Label}
    {request : Request} (h : s.step T hash l = some t)
    (booting : t.holder = some (.booting request)) :
    s.holder = some (.booting request) ∨ ∃ m os, l = .lookup m os ∧
      (decideLookup hash os s.dir.text s.apps m).2 = .start request := by
  cases stepsTo_of_step h with
  | opened free decision =>
      cases booting
      exact .inr ⟨_, _, rfl, decision⟩
  | failed | registered | created | went => cases booting
  | _ => exact .inl booting

/-- A lookup whose app exists has just started it, or had started it before. -/
theorem Pool.starting_of_step {T : PrintTable} {hash : GoString → GoString} {s t : Pool}
    {l : Label} {id : AppId} {identity : Identity} {left : List Goroutine}
    (h : s.step T hash l = some t) (starting : t.holder = some (.starting id identity left)) :
    (∃ os request app, s.holder = some (.booting request) ∧ identity = request.identity ∧
      (boot T os request).2 = .ok app ∧
      t.heap[id]? = some (Instance.create app s.clock)) ∨
    ∃ left', s.holder = some (.starting id identity left') := by
  cases stepsTo_of_step h with
  | opened | failed | registered => cases starting
  | created booting booted =>
      cases starting
      exact .inl ⟨_, _, _, booting, rfl, booted, List.getElem?_concat_length⟩
  | went before here started =>
      cases starting
      exact .inr ⟨_, before⟩
  | _ => exact .inr ⟨_, starting⟩

/-- The lookups of a server in a world ask this world. -/
theorem Label.lookup_of_inWorld {w : World} {l : Label} {m : GoString} {os : Os}
    (h : l.inWorld w = .lookup m os) : ∃ base, os = w.os base := by
  cases l <;> cases h
  exact ⟨_, rfl⟩

/-- What an app is launched in. -/
theorem launched_of_boot {T : PrintTable} {os : Os} {request : Request} {app : App}
    (h : (boot T os request).2 = .ok app) :
    (request.isDir = true → app.command.isSome) ∧
      (app.command.isSome → app.dir = request.path) := by
  unfold boot at h
  split at h
  · obtain ⟨-, dir, command, -⟩ := launchApp_eq_ok h
    exact ⟨fun _ => command, fun _ => dir⟩
  · next isFile =>
      refine ⟨fun isDir => absurd isDir isFile, fun command => ?_⟩
      rw [(readProxy_eq_ok h).2] at command
      cases command

namespace Deployment

variable {T : PrintTable} {hash : GoString → GoString} {maxLinks : ℕ} {cwd : List GoString}
  {pool : CleanDir} {name dir : GoString} {base u : Files} {s t : Deployment}

/-- The app was launched in a directory that leads to this one. -/
def Launched (s : Deployment) (maxLinks : ℕ) (dir : GoString) (id : AppId) : Prop :=
  ∃ i, s.pool.heap[id]? = some i ∧ i.app.command.isSome ∧ Serves s.tree maxLinks dir i.app.dir

/-- The apps of a deployment are there after a step, and so is what their directories lead
to. -/
theorem Launched.of_step {id : AppId} {l : Label} (h : s.Launched maxLinks dir id)
    (step : s.pool.step T hash l = some t.pool) (grows : s.tree.Extends t.tree) :
    t.Launched maxLinks dir id := by
  obtain ⟨i, here, command, serves⟩ := h
  obtain ⟨j, there, next⟩ := Pool.after_of_step step here
  refine ⟨j, there, ?_, ?_⟩
  · rwa [next.evolves.app]
  · rw [next.evolves.app]
    exact serves.of_extends grows

/-- **What every step keeps**: whatever is registered under a name of the app, or is about to
be, was launched in its directory. -/
structure Faithful (hash : GoString → GoString) (maxLinks : ℕ) (pool : CleanDir)
    (name dir : GoString) (s : Deployment) : Prop where
  dir_eq : s.pool.dir = pool
  keys : ∀ k id, KeyOf hash name dir k → s.pool.apps.lookup k = some id →
    s.Launched maxLinks dir id
  booting : ∀ request k, s.pool.holder = some (.booting request) → KeyOf hash name dir k →
    request.identity.Names k → request.isDir = true ∧ Serves s.tree maxLinks dir request.path
  starting : ∀ id identity left k, s.pool.holder = some (.starting id identity left) →
    KeyOf hash name dir k → identity.Names k → s.Launched maxLinks dir id
  /-- Apps are launched in cleaned paths. -/
  cleaned : ∀ (id : AppId) (i : Instance), s.pool.heap[id]? = some i → i.app.command.isSome →
    clean i.app.dir = i.app.dir
  willBe : ∀ request, s.pool.holder = some (.booting request) → clean request.path = request.path
  housed : s.pool.Housed

theorem faithful_init (idleTime : ℤ) (tree : Files) :
    Faithful hash maxLinks pool name dir ⟨tree, .empty pool idleTime⟩ where
  dir_eq := rfl
  keys k id _ found := by cases found
  booting request k holding := by cases holding
  starting id identity left k holding := by cases holding
  cleaned id i here := by simp [Pool.empty] at here
  willBe request holding := by cases holding
  housed := Pool.housed_empty pool idleTime

/-- A command only adds to the files. -/
theorem Faithful.of_grows {tree : Files} (h : Faithful hash maxLinks pool name dir s)
    (grows : s.tree.Extends tree) :
    Faithful hash maxLinks pool name dir { s with tree := tree } := by
  have launched : ∀ {id}, s.Launched maxLinks dir id →
      ({ s with tree := tree } : Deployment).Launched maxLinks dir id := by
    rintro id ⟨i, here, command, serves⟩
    exact ⟨i, here, command, serves.of_extends grows⟩
  exact
    { h with
      keys := fun k id key found => launched (h.keys k id key found)
      booting := fun request k holding key named =>
        (h.booting request k holding key named).imp_right (·.of_extends grows)
      starting := fun id identity left k holding key named =>
        launched (h.starting id identity left k holding key named) }

section Server

variable {w : World} {p q : Pool} {l : Label}

/-- What a lookup finds under a name of the app. -/
theorem Faithful.found_of_names {m k : GoString} {os : Os} {found : Found}
    (h : Faithful hash w.maxLinks pool name dir ⟨w.tree, p⟩)
    (linked : w.Linked (join [pool.text, name]) dir)
    (alone : u.Alone hash w.maxLinks pool.text name dir) (grows : w.tree.Extends u)
    (located : (locate (w.os os) p.dir.text m).2 = .ok found) (key : KeyOf hash name dir k)
    (named : (identify hash (w.os os) m found).Names k) :
    (identify hash (w.os os) m found).canonicalName = canonicalOf hash dir ∧
      found.info.isDir = true ∧ Serves w.tree w.maxLinks dir found.path := by
  have search : w.find pool m = .ok found := by
    have at_ : p.dir = pool := h.dir_eq
    rw [at_] at located
    exact located
  exact serves_of_destPath linked search
    (destPath_of_names linked alone grows rfl search key named)

/-- What is written under a name of the app is an app of its directory. -/
theorem Faithful.launched_of_written {id : AppId} {identity : Identity} {k : GoString}
    (h : Faithful hash w.maxLinks pool name dir ⟨w.tree, p⟩)
    (linked : w.Linked (join [pool.text, name]) dir)
    (alone : u.Alone hash w.maxLinks pool.text name dir) (grows : w.tree.Extends u)
    (written : p.written hash (l.inWorld w) = some (id, identity))
    (key : KeyOf hash name dir k) (named : identity.Names k) :
    Launched ⟨w.tree, p⟩ w.maxLinks dir id := by
  cases l with
  | lookup m os =>
      simp only [Label.inWorld, Pool.written] at written
      split at written
      · next decision =>
          cases written
          obtain ⟨found, located, rfl, here⟩ := found_of_share decision
          obtain ⟨canonical, -⟩ := h.found_of_names linked alone grows located key named
          exact h.keys _ id (.inr canonical) here
      · cases written
  | register =>
      simp only [Label.inWorld, Pool.written] at written
      split at written
      · next holding =>
          cases written
          exact h.starting id identity [] k holding key named
      · cases written
  | _ => cases written

/-- **Every step of the server keeps it.** -/
theorem Faithful.of_step (h : Faithful hash w.maxLinks pool name dir ⟨w.tree, p⟩)
    (linked : w.Linked (join [pool.text, name]) dir)
    (alone : u.Alone hash w.maxLinks pool.text name dir) (grows : w.tree.Extends u)
    (step : p.step T hash (l.inWorld w) = some q) :
    Faithful hash w.maxLinks pool name dir ⟨w.tree, q⟩ := by
  have still : ∀ {id}, Launched ⟨w.tree, p⟩ w.maxLinks dir id →
      Launched ⟨w.tree, q⟩ w.maxLinks dir id := fun launched =>
    launched.of_step step (.refl w.tree)
  exact
    { dir_eq := (Pool.dir_of_step step).trans h.dir_eq
      keys := by
        intro k id key found
        rcases Pool.apps_of_step step with ⟨id', identity, written, apps⟩ | ⟨-, shrinks⟩
        · have there : (register p.apps identity id').lookup k = some id := apps ▸ found
          rcases lookup_register_eq_some.mp there with ⟨named, rfl⟩ | ⟨-, old⟩
          · exact still (h.launched_of_written linked alone grows written key named)
          · exact still (h.keys k id key old)
        · exact still (h.keys k id key (shrinks k id found))
      booting := by
        intro request k holding key named
        rcases Pool.booting_of_step step holding with before | ⟨m, os, label, decision⟩
        · exact h.booting request k before key named
        · obtain ⟨os, rfl⟩ := Label.lookup_of_inWorld label
          obtain ⟨found, located, rfl⟩ := found_of_start decision
          exact (h.found_of_names linked alone grows located key named).2
      starting := by
        intro id identity left k holding key named
        rcases Pool.starting_of_step step holding with
          ⟨os, request, app, before, rfl, booted, there⟩ | ⟨left', before⟩
        · obtain ⟨isDir, serves⟩ := h.booting request k before key named
          obtain ⟨launches, inside⟩ := launched_of_boot booted
          refine ⟨_, there, launches isDir, ?_⟩
          show Serves w.tree w.maxLinks dir app.dir
          rw [inside (launches isDir)]
          exact serves
        · exact still (h.starting id identity left' k before key named)
      cleaned := by
        intro id j there command
        rcases Pool.before_of_step step there with ⟨i, here, next⟩ | ⟨app, creates, -, rfl⟩
        · rw [next.evolves.app] at command ⊢
          exact h.cleaned id i here command
        · obtain ⟨os, request, -, before, booted, -⟩ := creates.booted
          show clean app.dir = app.dir
          rw [(launched_of_boot booted).2 command]
          exact h.willBe request before
      willBe := by
        intro request holding
        rcases Pool.booting_of_step step holding with before | ⟨m, os, label, decision⟩
        · exact h.willBe request before
        · obtain ⟨os, rfl⟩ := Label.lookup_of_inWorld label
          obtain ⟨found, located, rfl⟩ := found_of_start decision
          have at_ : p.dir = pool := h.dir_eq
          rw [at_] at located
          have search : w.find pool m = .ok found := located
          exact (World.entry_of_find search).2.1
      housed := h.housed.of_step step }

end Server

/-- Whatever is in the files stays there. -/
theorem extends_of_step {l : DeploymentLabel}
    (step : Deployment.step T hash maxLinks cwd s l = some t) : s.tree.Extends t.tree := by
  cases l with
  | command i =>
      simp only [Deployment.step] at step
      split_ifs at step with here
      cases step
      exact (commandMove i (i.world s.tree maxLinks here)).extends
  | server l =>
      simp only [Deployment.step] at step
      split_ifs at step with here
      obtain ⟨q, -, rfl⟩ := Option.map_eq_some_iff.mp step
      exact .refl s.tree

theorem extends_of_run {idleTime : ℤ} {tree : Files} {ls : List DeploymentLabel}
    (run : (deployment T hash maxLinks cwd pool idleTime tree).exec s ls = some t) :
    s.tree.Extends t.tree :=
  (deployment T hash maxLinks cwd pool idleTime tree).exec_induction
    (P := fun _ t => s.tree.Extends t.tree) (.refl s.tree)
    (fun _ _ _ _ before step => before.trans (extends_of_step step)) run

/-- **Every run keeps it**, if nothing takes the names of the app till its end. -/
theorem Faithful.of_run {idleTime : ℤ} {tree : Files} {ls : List DeploymentLabel}
    (h : Faithful hash maxLinks pool name dir s)
    (linked : ∀ w : World, s.tree.Extends w.tree → w.maxLinks = maxLinks →
      w.Linked (join [pool.text, name]) dir)
    (alone : t.tree.Alone hash maxLinks pool.text name dir)
    (run : (deployment T hash maxLinks cwd pool idleTime tree).exec s ls = some t) :
    Faithful hash maxLinks pool name dir t := by
  induction ls generalizing s with
  | nil =>
      cases run
      exact h
  | cons l ls ih =>
      obtain ⟨s', step, rest⟩ := Option.bind_eq_some_iff.mp run
      have grows := extends_of_step step
      refine ih ?_ (fun w later => linked w (grows.trans later)) rest
      cases l with
      | command i =>
          have more := h.of_grows grows
          simp only [deployment, Deployment.step] at step
          split_ifs at step with here
          cases step
          exact more
      | server l =>
          have later := grows.trans (extends_of_run rest)
          simp only [deployment, Deployment.step] at step
          split_ifs at step with here
          obtain ⟨q, moved, rfl⟩ := Option.map_eq_some_iff.mp step
          exact Faithful.of_step (w := ⟨s.tree, cwd, here, maxLinks⟩) h
            (linked _ (.refl s.tree) rfl) alone later moved

end Deployment

/-! ## What a request finds -/

/-- No app that cannot be started is one that is not known. -/
theorem boot_ne_unknownApp {T : PrintTable} {os : Os} {request : Request} {err : GoError}
    (h : (boot T os request).2 = .error err) : err ≠ .unknownApp := by
  rintro rfl
  unfold boot at h
  split at h
  · replace h : launchApp os _ _ = _ := h
    unfold launchApp at h
    split at h
    · cases h
    · dsimp only at h
      split at h
      · cases h
      · split at h <;> cases h
  · replace h : readProxy T os _ _ = _ := h
    unfold readProxy at h
    split at h
    · cases h
    · dsimp only at h
      split at h
      · cases h
      · split at h
        · cases h
        · split at h
          · cases h
          · split at h <;> cases h

/-- A lookup that fails before anything is started has found no entry. -/
theorem locate_of_fail {hash : GoString → GoString} {os : Os} {dir name : GoString} {apps : Apps}
    {err : GoError} (h : (decideLookup hash os dir apps name).2 = .fail err) :
    (locate os dir name).2 = .error err := by
  unfold decideLookup at h
  split at h
  · cases h
  · split at h
    · next asked located =>
        cases h
        rw [located]
    · dsimp only at h
      split at h <;> cases h

/-- A name that is known is the only one that is looked up. -/
theorem findAppByDomainName_eq {σ : Type} {lookup : σ → GoString → σ × Except GoError AppId}
    {s : σ} {name : GoString} (nonempty : name ≠ [])
    (known : (lookup s name).2 ≠ .error .unknownApp) :
    findAppByDomainName lookup s name = lookup s name := by
  rw [findAppByDomainName, findLoop, if_neg nonempty]
  rcases answer : lookup s name with ⟨s', err | id⟩
  · cases err with
    | unknownApp => exact absurd (congrArg Prod.snd answer) known
    | other text => rfl
  · rfl

namespace Deployment

variable {T : PrintTable} {hash : GoString → GoString} {maxLinks : ℕ} {cwd : List GoString}
  {pool : CleanDir} {name dir : GoString} {u : Files} {p : Pool}

/-- A request hands on an app that was launched in a directory that leads to this one. -/
def Finds (u : Files) (maxLinks : ℕ) (dir : GoString) (pool : AppPool) (id : AppId) : Prop :=
  ∃ app, pool.heap[id]? = some app ∧ app.command.isSome ∧ u.SameReal maxLinks app.dir dir

/-- An app of the pool is found with its directory. -/
theorem Launched.finds {id : AppId} (h : Launched ⟨u, p⟩ maxLinks dir id) {apps : Apps} :
    Finds u maxLinks dir ⟨p.dir, apps, p.heap.map Instance.app⟩ id := by
  obtain ⟨i, here, command, serves⟩ := h
  exact ⟨i.app, by rw [List.getElem?_map, here]; rfl, command, serves.same⟩

/-- **A lookup of the name** hands on an app of the directory, if any; and it never says that
the app is unknown. -/
theorem Faithful.lookupIn {w : World} (h : Faithful hash w.maxLinks pool name dir ⟨w.tree, p⟩)
    (linked : w.Linked (join [pool.text, name]) dir) (base : Os) :
    (lookupIn T hash (w.os base) p.view name).2 ≠ .error .unknownApp ∧
      ∀ pool' id, lookupIn T hash (w.os base) p.view name = (pool', .ok id) →
        Finds w.tree w.maxLinks dir pool' id := by
  have at_ : p.dir = pool := h.dir_eq
  have view : p.view = ⟨p.dir, p.apps, p.heap.map Instance.app⟩ := rfl
  have own : ∀ {found}, (locate (w.os base) p.dir.text name).2 = .ok found →
      (identify hash (w.os base) name found).canonicalName = canonicalOf hash dir ∧
        found.info.isDir = true ∧ Serves w.tree w.maxLinks dir found.path := by
    intro found located
    rw [at_] at located
    have search : w.find pool name = .ok found := located
    exact serves_of_destPath linked search (linked.destPath_eq search)
  unfold PumaDev.lookupIn lookupApp
  rw [view]
  rcases decided : decideLookup hash (w.os base) p.dir.text p.apps name with ⟨asked, decision⟩
  have result : (decideLookup hash (w.os base) p.dir.text p.apps name).2 = decision :=
    congrArg Prod.snd decided
  cases decision with
  | hit id =>
      refine ⟨fun same => (by cases same), fun pool' id' same => ?_⟩
      cases same
      have fits := fits_decideLookup hash (w.os base) p.dir.text p.apps name
      rw [result] at fits
      exact (h.keys name id (.inl rfl) fits).finds
  | fail err =>
      refine ⟨fun same => ?_, fun pool' id' same => by cases same⟩
      have located := locate_of_fail result
      rw [at_] at located
      rcases linked.locate base with here | loops
      · rw [here] at located
        cases located
      · rw [loops] at located
        cases located
        cases same
  | share id identity =>
      refine ⟨fun same => (by cases same), fun pool' id' same => ?_⟩
      cases same
      obtain ⟨found, located, rfl, here⟩ := found_of_share result
      exact (h.keys _ id (.inr (own located).1) here).finds
  | start request =>
      obtain ⟨found, located, rfl⟩ := found_of_start result
      obtain ⟨-, isDir, serves⟩ := own located
      dsimp only
      split
      · next effect err booted =>
          refine ⟨fun same => ?_, fun pool' id' same => by cases same⟩
          cases same
          exact boot_ne_unknownApp (congrArg Prod.snd booted) rfl
      · next effect app booted =>
          refine ⟨fun same => (by cases same), fun pool' id' same => ?_⟩
          cases same
          obtain ⟨launches, inside⟩ := launched_of_boot (congrArg Prod.snd booted)
          refine ⟨app, List.getElem?_concat_length, launches isDir, ?_⟩
          rw [inside (launches isDir)]
          exact serves.same

/-- Two launched apps of one cleaned directory have the same directory. -/
theorem Faithful.dir_eq_of_reaches (h : Faithful hash maxLinks pool name dir ⟨u, p⟩)
    {toASCII : GoString → Option GoString} (strict : ∀ host, '/' ∈ host → toASCII host = none)
    {id other : AppId} {i : Instance} (here : p.heap[id]? = some i) (command : i.app.command.isSome)
    (answers : p.reaches toASCII i.app = some other) :
    ∃ j, p.heap[other]? = some j ∧ j.app.command.isSome ∧ j.app.dir = i.app.dir := by
  have dials := dials_socket strict (h.housed.launched id i here command).1
    (h.housed.socketLike here command)
  rw [Pool.reaches, dials] at answers
  split at answers
  · next path dialed =>
      split_ifs at dialed
      cases dialed
      obtain ⟨j, there, command', address⟩ := h.housed.bound _ other answers
      have same := h.housed.dir_eq there here command' command address
      rw [h.cleaned other j there command', h.cleaned id i here command] at same
      exact ⟨j, there, command', same⟩
  · cases answers
  · cases answers

/-- **From `puma-dev link` to the process.**  A command has created the app `name`, linked to
`dir`; then a server is started with this directory of apps, and it runs, with any interleaving
of its goroutines, while further commands are run in between.  In every state it gets to, if
till then `name` is the canonical name of no link, `dir` is the text of every link that has its
canonical name, and there is no entry called by that name, with hyphens or with slashes for
them:

* a request for `name`, in whatever domain, is handed to an app that was launched in a directory
  that leads where `dir` leads, if it is handed to any;
* and for every such app, the process that answers at the other end of the connection that is
  made for the request is one that was launched in such a directory. -/
theorem served_of_link {t files : Files} {i : Invocation} {ls : List DeploymentLabel}
    {idleTime : ℤ} (here : (t.node i.cwd).any Node.isDir)
    (absolute : ∀ wd, i.getwd = .ok wd →
      isAbs wd = true ∧ (i.world t maxLinks here).stat wd = .ok true)
    (home : ∀ h, i.homeDir = .ok h → isAbs h = true) (homely : Homely i.fDir)
    (served : Homedir.expand i.homeDir i.fDir = .ok pool.text) (plain : Plain name)
    (made : command i (i.world t maxLinks here) = (files, .created name dir))
    (run : (deployment T hash maxLinks cwd pool idleTime files).exec
      ⟨files, .empty pool idleTime⟩ ls = some ⟨u, p⟩)
    (alone : u.Alone hash maxLinks pool.text name dir)
    (toASCII : GoString → Option GoString) (strict : ∀ host, '/' ∈ host → toASCII host = none) :
    (∀ w : World, w.tree = u → w.maxLinks = maxLinks → ∀ base domains host,
      removeTLD domains host = name → ∀ pool' id,
        findAppByDomainName (lookupIn T hash (w.os base)) p.view (removeTLD domains host) =
          (pool', .ok id) → Finds u maxLinks dir pool' id) ∧
    ∀ (id : AppId) (i : Instance), p.heap[id]? = some i → i.app.command.isSome →
      u.SameReal maxLinks i.app.dir dir → ∀ other, p.reaches toASCII i.app = some other →
        ∃ j, p.heap[other]? = some j ∧ j.app.command.isSome ∧
          u.SameReal maxLinks j.app.dir dir := by
  have left : (command i (i.world t maxLinks here)).1 = files := congrArg Prod.fst made
  have linked : ∀ w : World, files.Extends w.tree → w.maxLinks = maxLinks →
      w.Linked (join [pool.text, name]) dir := fun w later sameLinks =>
    World.linked_of_created here absolute home homely served plain (congrArg Prod.snd made)
      (by rw [left]; exact later) sameLinks
  have faithful : Faithful hash maxLinks pool name dir ⟨u, p⟩ :=
    (faithful_init idleTime _).of_run linked alone run
  refine ⟨?_, fun id j there command same other answers => ?_⟩
  · rintro w rfl rfl base domains host isName pool' id found
    have linked := linked w (extends_of_run run) rfl
    obtain ⟨known, finds⟩ := faithful.lookupIn (T := T) linked base
    rw [isName, findAppByDomainName_eq plain.nonempty known] at found
    exact finds pool' id found
  · obtain ⟨k, reached, command', sameDir⟩ :=
      faithful.dir_eq_of_reaches strict there command answers
    exact ⟨k, reached, command', by rw [sameDir]; exact same⟩

/-! ### A project that is served -/

/-- The server itself changes no file. -/
theorem tree_of_server {idleTime : ℤ} {tree files files' : Files} {p q : Pool} {ls : List Label}
    (run : (deployment T hash maxLinks cwd pool idleTime tree).exec ⟨files, p⟩ (ls.map .server) =
      some ⟨files', q⟩) : files' = files := by
  induction ls generalizing p with
  | nil =>
      cases run
      rfl
  | cons l ls ih =>
      obtain ⟨s', step, rest⟩ := Option.bind_eq_some_iff.mp run
      simp only [deployment, Deployment.step] at step
      split_ifs at step with here
      obtain ⟨q, -, rfl⟩ := Option.map_eq_some_iff.mp step
      exact ih rest

/-- The digest of the text of a link. -/
def myAppDigest (_ : GoString) : GoString := "3f2a9c01".toList

/-- The files with the link. -/
def linkedFiles : Files := (command linkMyApp (linkMyApp.world homeFiles 40 (by decide))).1

/-- There is one link. -/
theorem link_of_linkedFiles {place : List GoString} {text : GoString}
    (h : linkedFiles.node place = some (.link text)) : text = "/home/u/code/my.app".toList := by
  have move := commandMove linkMyApp (linkMyApp.world homeFiles 40 (by decide))
  rw [linkMyApp_created] at move
  obtain ⟨dest, v, -, -, -, left⟩ := move.of_created
  have filled : linkedFiles = v.fill "/home/u/code/my.app".toList := left
  rw [filled] at h
  simp only [Vacancy.fill, FileTree.withLink] at h
  split at h
  · cases h
    rfl
  · have all : ∀ e ∈ ([(["home".toList], .dir true), (["u".toList, "home".toList], .dir true),
        ([".puma-dev".toList, "u".toList, "home".toList], .dir true),
        (["code".toList, "u".toList, "home".toList], .dir true),
        (["my.app".toList, "code".toList, "u".toList, "home".toList], .dir true)] :
          List (List GoString × Node GoString GoString)), e.2 = .dir true := by decide
    rcases FileTree.mem_of_listed h with mem | dir
    · cases all _ mem
    · cases dir

/-- Nothing else is called like it. -/
theorem alone_linkedFiles : linkedFiles.Alone myAppDigest 40 CleanDir.home.text
    "my_app".toList "/home/u/code/my.app".toList where
  text place text here _ := link_of_linkedFiles here
  name place text here := by
    rw [link_of_linkedFiles here]
    decide
  entry real same := by
    have nowhere : (linkedFiles.reach 40 (join [CleanDir.home.text,
        canonicalOf myAppDigest "/home/u/code/my.app".toList])).isOk = false := by decide +kernel
    rw [same] at nowhere
    cases nowhere
  expanded real same := by
    have nowhere : (linkedFiles.reach 40 (join [CleanDir.home.text, expandHyphens
        (canonicalOf myAppDigest "/home/u/code/my.app".toList)])).isOk = false := by decide +kernel
    rw [same] at nowhere
    cases nowhere

/-- The project is looked up and booted, and its process binds its socket. -/
def bootMyApp : List DeploymentLabel :=
  (Pool.startApp "my_app".toList default ++ [Label.bind 0]).map DeploymentLabel.server

/-- The project is booted: a request is handed to it, and answered by it. -/
theorem served_myApp : ∃ p i, (deployment .asciiOnly myAppDigest 40 linkMyApp.cwd .home 900
      linkedFiles).exec ⟨linkedFiles, .empty .home 900⟩ bootMyApp = some ⟨linkedFiles, p⟩ ∧
    p.heap[0]? = some i ∧ i.app.command.isSome ∧ p.reaches Pool.noSlash i.app = some 0 ∧
    ∀ w : World, w.tree = linkedFiles → w.maxLinks = 40 → ∀ base pool' id,
      findAppByDomainName (lookupIn .asciiOnly myAppDigest (w.os base)) p.view
          (removeTLD ["test".toList] "my_app.test".toList) = (pool', .ok id) →
        Finds linkedFiles 40 "/home/u/code/my.app".toList pool' id := by
  have facts : ((deployment .asciiOnly myAppDigest 40 linkMyApp.cwd .home 900
      linkedFiles).exec ⟨linkedFiles, .empty .home 900⟩ bootMyApp).map
      (fun s => (s.pool.heap[0]?).map fun i => (i.app.command.isSome,
        s.pool.reaches Pool.noSlash i.app)) = some (some (true, some 0)) := by decide +kernel
  obtain ⟨⟨u, p⟩, run, found⟩ := Option.map_eq_some_iff.mp facts
  obtain ⟨i, here, seen⟩ := Option.map_eq_some_iff.mp found
  obtain ⟨launched, answers⟩ := Prod.mk.inj seen
  have same : u = linkedFiles := tree_of_server run
  rw [same] at run
  refine ⟨p, i, run, here, launched, answers, fun w tree links base pool' id => ?_⟩
  have home : ∀ h, linkMyApp.homeDir = .ok h → isAbs h = true := by
    intro h known
    cases known
    decide
  have absolute : ∀ wd, linkMyApp.getwd = .ok wd → isAbs wd = true ∧
      (linkMyApp.world homeFiles 40 (by decide)).stat wd = .ok true := by
    intro wd known
    cases known
    exact ⟨by decide, by decide +kernel⟩
  have served : Homedir.expand linkMyApp.homeDir linkMyApp.fDir = .ok CleanDir.home.text := by
    decide +kernel
  have made : command linkMyApp (linkMyApp.world homeFiles 40 (by decide)) =
      (linkedFiles, .created "my_app".toList "/home/u/code/my.app".toList) := by
    rw [linkedFiles, ← linkMyApp_created]
  obtain ⟨finds, -⟩ := served_of_link (by decide) absolute home
    (.inr (.inr ⟨".puma-dev".toList, rfl, by decide⟩)) served
    ⟨by decide, by decide, by decide, by decide⟩ made run alone_linkedFiles Pool.noSlash
    (fun host slash => if_pos slash)
  exact finds w tree links base ["test".toList] "my_app.test".toList (by decide) pool' id

end Deployment

end PumaDev
