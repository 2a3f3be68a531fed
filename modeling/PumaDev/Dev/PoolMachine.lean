import PumaDev.Dev.Instance
import PumaDev.Dev.Lookup
import PumaDev.Lib.Machine

/-!
# The pool and its goroutines

The pool of one puma-dev process, as a machine whose labels are the steps of all
its goroutines: the request handlers that look apps up, the goroutines of every
app, the handlers of the purge signals, and the processes themselves.  Any list
of labels is an interleaving.

`pool.lock` is what makes a step of the code one step of the machine.
`maybeIdle`, `remove` and the first half of `Purge` hold it from beginning to
end.  A lookup holds it across everything it does, and other goroutines move
meanwhile; so a lookup that starts an app is several steps — find the entry,
create the process, start its goroutines one by one, write the map — and
`holder` keeps the lock with it from the first to the last.

* `Pool.step` is the step function, `poolMachine` the machine of an empty pool.
* `StepsTo` lists its branches, with the state each leads to and what it takes to
  get there; `stepsTo_of_step` is the one place where `step` is taken apart.
* `Move` is what a step can do to the map, the apps and the lock, and
  `move_of_step` says that every step does one of these things.  Most of what is
  proved about runs of the pool is proved from `Move`.

Events are emitted all along; a call that comes back touches none of this state,
and one that does not ends the process.  `reportingMachine` has them, too.
-/

namespace PumaDev

/-- A lookup that holds the pool's lock while it starts an app. -/
inductive Holder where
  /-- The entry is found; the app does not exist yet. -/
  | booting (request : Request)
  /-- The app exists, and these of its goroutines are left to start. -/
  | starting (id : AppId) (identity : Identity) (left : List Goroutine)

/-- A call of `Purge` after it has listed the apps. -/
structure PurgeJob where
  /-- The apps whose tomb is still to be killed. -/
  toKill : List AppId
  /-- The apps whose tomb is still to be waited for. -/
  toWait : List AppId
  deriving DecidableEq

/-- The pool and everything its goroutines share. -/
structure Pool where
  dir : Filepath.CleanDir
  idleTime : ℤ
  apps : Apps
  /-- Every app ever created, by its address. -/
  heap : List Instance
  /-- The lookup that holds the lock between two steps, if one does. -/
  holder : Option Holder
  clock : ℤ
  /-- The sockets that exist, with the app that bound them. -/
  sockets : Registry GoString AppId
  purges : List PurgeJob

/-- A step of some goroutine or process. -/
inductive Label where
  /-- `lookupApp` takes the lock and goes as far as it can on its own. -/
  | lookup (name : GoString) (os : Os)
  /-- The lookup starts its process, or reads its proxy file. -/
  | boot (os : Os)
  /-- The lookup starts the next goroutine of the new app. -/
  | go
  /-- The lookup writes the map and returns. -/
  | register
  /-- A step of one app alone. -/
  | act (id : AppId) (action : Instance.Action)
  /-- `pool.remove` inside `Kill`. -/
  | killRemove (id : AppId) (killer : Killer)
  /-- `pool.remove` at the end of `watch`. -/
  | watchRemove (id : AppId)
  /-- `os.Remove(a.Address())` at the end of `watch`, and its return. -/
  | unlink (id : AppId)
  /-- `idleMonitor` ticks and asks `maybeIdle`. -/
  | maybeIdle (id : AppId)
  /-- The process binds its socket. -/
  | bind (id : AppId)
  /-- `WaitTilReady` returns nil to a request. -/
  | use (id : AppId)
  /-- `Purge` lists the apps. -/
  | purge
  /-- The `job`-th `Purge` kills the tomb of its next app. -/
  | purgeKill (job : ℕ)
  /-- The `job`-th `Purge` has waited for its next app. -/
  | purgeWait (job : ℕ)
  /-- Time passes. -/
  | tick (d : ℕ)
  /-- The idle time is set. -/
  | setIdleTime (d : ℤ)

namespace Pool

/-- The app under an address changes, if it can. -/
def modify (s : Pool) (id : AppId) (f : Instance → Option Instance) : Option Pool :=
  (s.heap[id]?.bind f).map fun i => { s with heap := s.heap.set id i }

/-- The lock is free. -/
def Free (s : Pool) : Prop := s.holder = none

instance (s : Pool) : Decidable s.Free :=
  match h : s.holder with
  | none => .isTrue h
  | some _ => .isFalse (by simp [Free, h])

/-- `maybeIdle` finds the app idle for longer than the pool allows. -/
def Expired (s : Pool) (i : Instance) : Prop := s.idleTime < s.clock - i.lastUse

instance (s : Pool) (i : Instance) : Decidable (s.Expired i) :=
  inferInstanceAs (Decidable (_ < _))

/-- One step; `none` when it is not enabled. -/
def step (T : PrintTable) (hash : GoString → GoString) (s : Pool) : Label → Option Pool
  | .lookup name os =>
      if s.Free then
        match (decideLookup hash os s.dir.text s.apps name).2 with
        | .hit _ => some s
        | .fail _ => some s
        | .share id identity => some { s with apps := register s.apps identity id }
        | .start request => some { s with holder := some (.booting request) }
      else none
  | .boot os =>
      match s.holder with
      | some (.booting request) =>
          match (boot T os request).2 with
          | .error _ => some { s with holder := none }
          | .ok app => some { s with
              heap := s.heap ++ [Instance.create app s.clock]
              holder := some
                (.starting s.heap.length request.identity (Instance.goroutines app)) }
      | _ => none
  | .go =>
      match s.holder with
      | some (.starting id identity (g :: left)) =>
          ({ s with holder := some (.starting id identity left) } : Pool).modify id (·.go g)
      | _ => none
  | .register =>
      match s.holder with
      | some (.starting id identity []) =>
          some { s with apps := register s.apps identity id, holder := none }
      | _ => none
  | .act id action => s.modify id (·.act action)
  | .killRemove id killer =>
      if s.Free then
        ({ s with apps := s.apps.drop id } : Pool).modify id fun i =>
          if i.killPc killer = some .remove then some (i.afterKill killer) else none
      else none
  | .watchRemove id =>
      if s.Free then
        ({ s with apps := s.apps.drop id } : Pool).modify id fun i =>
          if i.watch = .remove then some i.watchRemoved else none
      else none
  | .unlink id =>
      match s.heap[id]? with
      | some i =>
          ({ s with sockets :=
              if i.app.scheme = "httpu".toList then s.sockets.erase i.app.address
              else s.sockets } : Pool).modify id fun i =>
            if i.watch = .unlink then some i.watchDone else none
      | none => none
  | .maybeIdle id =>
      match s.heap[id]? with
      | some i =>
          if s.Free ∧ i.idle = .select then
            if s.Expired i then
              some { s with
                apps := s.apps.erase i.app.name
                heap := s.heap.set id i.idleFired }
            else some s
          else none
      | none => none
  | .bind id =>
      match s.heap[id]? with
      | some i =>
          if i.proc = .running then
            some { s with sockets := s.sockets.insert i.app.address id }
          else none
      | none => none
  | .use id =>
      s.modify id fun i =>
        if i.ready = true ∧ ¬ i.Dying then some (i.used s.clock) else none
  | .purge =>
      if s.Free then some { s with purges := s.purges ++ [⟨s.apps.values, s.apps.values⟩] }
      else none
  | .purgeKill job =>
      match s.purges[job]? with
      | some ⟨id :: toKill, toWait⟩ =>
          ({ s with purges := s.purges.set job ⟨toKill, toWait⟩ } : Pool).modify id
            fun i => some i.kill
      | _ => none
  | .purgeWait job =>
      match s.purges[job]? with
      | some ⟨[], id :: toWait⟩ =>
          match s.heap[id]? with
          | some i =>
              if i.Dead then some { s with purges := s.purges.set job ⟨[], toWait⟩ } else none
          | none => none
      | _ => none
  | .tick d => some { s with clock := s.clock + d }
  | .setIdleTime d => some { s with idleTime := d }

/-- A pool in which nothing has happened. -/
def empty (dir : Filepath.CleanDir) (idleTime : ℤ) : Pool where
  dir := dir
  idleTime := idleTime
  apps := ∅
  heap := []
  holder := none
  clock := 0
  sockets := ∅
  purges := []

end Pool

/-- The pool of a puma-dev process, from its start. -/
def poolMachine (T : PrintTable) (hash : GoString → GoString) (dir : Filepath.CleanDir)
    (idleTime : ℤ) : Machine Pool Label where
  init := Pool.empty dir idleTime
  step := Pool.step T hash

/-! ## What a step can do -/

namespace Pool

theorem modify_eq_some {s t : Pool} {id : AppId} {f : Instance → Option Instance} :
    s.modify id f = some t ↔
      ∃ i j, s.heap[id]? = some i ∧ f i = some j ∧ t = { s with heap := s.heap.set id j } := by
  constructor
  · intro h
    obtain ⟨j, changed, rfl⟩ := Option.map_eq_some_iff.mp h
    obtain ⟨i, here, result⟩ := Option.bind_eq_some_iff.mp changed
    exact ⟨i, j, here, result, rfl⟩
  · rintro ⟨i, j, here, result, rfl⟩
    simp [modify, here, result]

/-- **What a step does**, branch by branch: the state it leads to, and what it took. -/
inductive StepsTo (T : PrintTable) (hash : GoString → GoString) (s : Pool) :
    Label → Pool → Prop
  | cached {name : GoString} {os : Os} {id : AppId} (free : s.Free)
      (decision : (decideLookup hash os s.dir.text s.apps name).2 = .hit id) :
      StepsTo T hash s (.lookup name os) s
  | unknown {name : GoString} {os : Os} {err : GoError} (free : s.Free)
      (decision : (decideLookup hash os s.dir.text s.apps name).2 = .fail err) :
      StepsTo T hash s (.lookup name os) s
  | shared {name : GoString} {os : Os} {id : AppId} {identity : Identity} (free : s.Free)
      (decision : (decideLookup hash os s.dir.text s.apps name).2 = .share id identity) :
      StepsTo T hash s (.lookup name os) { s with apps := register s.apps identity id }
  | opened {name : GoString} {os : Os} {request : Request} (free : s.Free)
      (decision : (decideLookup hash os s.dir.text s.apps name).2 = .start request) :
      StepsTo T hash s (.lookup name os) { s with holder := some (.booting request) }
  | failed {os : Os} {request : Request} {err : GoError}
      (booting : s.holder = some (.booting request))
      (booted : (boot T os request).2 = .error err) :
      StepsTo T hash s (.boot os) { s with holder := none }
  | created {os : Os} {request : Request} {app : App}
      (booting : s.holder = some (.booting request)) (booted : (boot T os request).2 = .ok app) :
      StepsTo T hash s (.boot os) { s with
        heap := s.heap ++ [Instance.create app s.clock]
        holder := some (.starting s.heap.length request.identity (Instance.goroutines app)) }
  | went {id : AppId} {identity : Identity} {g : Goroutine} {left : List Goroutine}
      {i j : Instance} (starting : s.holder = some (.starting id identity (g :: left)))
      (here : s.heap[id]? = some i) (started : i.go g = some j) :
      StepsTo T hash s .go { s with
        heap := s.heap.set id j
        holder := some (.starting id identity left) }
  | registered {id : AppId} {identity : Identity}
      (starting : s.holder = some (.starting id identity [])) :
      StepsTo T hash s .register { s with apps := register s.apps identity id, holder := none }
  | acted {id : AppId} {action : Instance.Action} {i j : Instance}
      (here : s.heap[id]? = some i) (acted : i.act action = some j) :
      StepsTo T hash s (.act id action) { s with heap := s.heap.set id j }
  | killRemoved {id : AppId} {killer : Killer} {i : Instance} (free : s.Free)
      (here : s.heap[id]? = some i) (due : i.killPc killer = some .remove) :
      StepsTo T hash s (.killRemove id killer)
        { s with apps := s.apps.drop id, heap := s.heap.set id (i.afterKill killer) }
  | watchRemoved {id : AppId} {i : Instance} (free : s.Free) (here : s.heap[id]? = some i)
      (due : i.watch = .remove) :
      StepsTo T hash s (.watchRemove id)
        { s with apps := s.apps.drop id, heap := s.heap.set id i.watchRemoved }
  | unlinked {id : AppId} {i : Instance} (here : s.heap[id]? = some i)
      (due : i.watch = .unlink) :
      StepsTo T hash s (.unlink id) { s with
        sockets :=
          if i.app.scheme = "httpu".toList then s.sockets.erase i.app.address else s.sockets
        heap := s.heap.set id i.watchDone }
  | idleFired {id : AppId} {i : Instance} (free : s.Free) (here : s.heap[id]? = some i)
      (waiting : i.idle = .select) (expired : s.Expired i) :
      StepsTo T hash s (.maybeIdle id)
        { s with apps := s.apps.erase i.app.name, heap := s.heap.set id i.idleFired }
  | idleSpared {id : AppId} {i : Instance} (free : s.Free) (here : s.heap[id]? = some i)
      (waiting : i.idle = .select) (busy : ¬ s.Expired i) :
      StepsTo T hash s (.maybeIdle id) s
  | bound {id : AppId} {i : Instance} (here : s.heap[id]? = some i)
      (running : i.proc = .running) :
      StepsTo T hash s (.bind id) { s with sockets := s.sockets.insert i.app.address id }
  | used {id : AppId} {i : Instance} (here : s.heap[id]? = some i) (ready : i.ready = true)
      (alive : ¬ i.Dying) :
      StepsTo T hash s (.use id) { s with heap := s.heap.set id (i.used s.clock) }
  | purging (free : s.Free) :
      StepsTo T hash s .purge { s with purges := s.purges ++ [⟨s.apps.values, s.apps.values⟩] }
  | purgeKilled {job : ℕ} {id : AppId} {toKill toWait : List AppId} {i : Instance}
      (listed : s.purges[job]? = some ⟨id :: toKill, toWait⟩) (here : s.heap[id]? = some i) :
      StepsTo T hash s (.purgeKill job)
        { s with purges := s.purges.set job ⟨toKill, toWait⟩, heap := s.heap.set id i.kill }
  | purgeWaited {job : ℕ} {id : AppId} {toWait : List AppId} {i : Instance}
      (listed : s.purges[job]? = some ⟨[], id :: toWait⟩) (here : s.heap[id]? = some i)
      (dead : i.Dead) :
      StepsTo T hash s (.purgeWait job) { s with purges := s.purges.set job ⟨[], toWait⟩ }
  | ticked {d : ℕ} : StepsTo T hash s (.tick d) { s with clock := s.clock + d }
  | idleTimeSet {d : ℤ} : StepsTo T hash s (.setIdleTime d) { s with idleTime := d }

/-- Every step does what `StepsTo` lists. -/
theorem stepsTo_of_step {T : PrintTable} {hash : GoString → GoString} {s t : Pool} {l : Label}
    (h : s.step T hash l = some t) : StepsTo T hash s l t := by
  cases l with
  | lookup name os =>
      obtain ⟨free, result⟩ := Option.ite_none_right_eq_some.mp h
      split at result <;> cases result
      · next decision => exact .cached free decision
      · next decision => exact .unknown free decision
      · next decision => exact .shared free decision
      · next decision => exact .opened free decision
  | boot os =>
      simp only [step] at h
      split at h
      · next booting =>
          split at h <;> cases h
          · next booted => exact .failed booting booted
          · next booted => exact .created booting booted
      · cases h
  | go =>
      simp only [step] at h
      split at h
      · next starting =>
          obtain ⟨i, j, here, started, rfl⟩ := modify_eq_some.mp h
          exact .went starting here started
      · cases h
  | register =>
      simp only [step] at h
      split at h
      · next starting =>
          cases h
          exact .registered starting
      · cases h
  | act id action =>
      obtain ⟨i, j, here, acted, rfl⟩ := modify_eq_some.mp h
      exact .acted here acted
  | killRemove id killer =>
      obtain ⟨free, result⟩ := Option.ite_none_right_eq_some.mp h
      obtain ⟨i, j, here, removed, rfl⟩ := modify_eq_some.mp result
      obtain ⟨due, value⟩ := Option.ite_none_right_eq_some.mp removed
      cases value
      exact .killRemoved free here due
  | watchRemove id =>
      obtain ⟨free, result⟩ := Option.ite_none_right_eq_some.mp h
      obtain ⟨i, j, here, removed, rfl⟩ := modify_eq_some.mp result
      obtain ⟨due, value⟩ := Option.ite_none_right_eq_some.mp removed
      cases value
      exact .watchRemoved free here due
  | unlink id =>
      simp only [step] at h
      split at h
      · next i found =>
          obtain ⟨i', j, here, unlinked, rfl⟩ := modify_eq_some.mp h
          obtain ⟨due, value⟩ := Option.ite_none_right_eq_some.mp unlinked
          cases value
          rw [found] at here
          cases here
          exact .unlinked found due
      · cases h
  | maybeIdle id =>
      simp only [step] at h
      split at h
      · next i here =>
          obtain ⟨⟨free, waiting⟩, result⟩ := Option.ite_none_right_eq_some.mp h
          split at result <;> cases result
          · next expired => exact .idleFired free here waiting expired
          · next busy => exact .idleSpared free here waiting busy
      · cases h
  | bind id =>
      simp only [step] at h
      split at h
      · next i here =>
          obtain ⟨running, result⟩ := Option.ite_none_right_eq_some.mp h
          cases result
          exact .bound here running
      · cases h
  | use id =>
      obtain ⟨i, j, here, used, rfl⟩ := modify_eq_some.mp h
      obtain ⟨⟨ready, alive⟩, value⟩ := Option.ite_none_right_eq_some.mp used
      cases value
      exact .used here ready alive
  | purge =>
      obtain ⟨free, result⟩ := Option.ite_none_right_eq_some.mp h
      cases result
      exact .purging free
  | purgeKill job =>
      simp only [step] at h
      split at h
      · next listed =>
          obtain ⟨i, j, here, killed, rfl⟩ := modify_eq_some.mp h
          cases killed
          exact .purgeKilled listed here
      · cases h
  | purgeWait job =>
      simp only [step] at h
      split at h
      · next listed =>
          split at h
          · next i here =>
              obtain ⟨dead, result⟩ := Option.ite_none_right_eq_some.mp h
              cases result
              exact .purgeWaited listed here dead
          · cases h
      · cases h
  | tick d =>
      cases h
      exact .ticked
  | setIdleTime d =>
      cases h
      exact .idleTimeSet

/-- The app whose key `maybeIdle` deletes in this step. -/
def fired (s : Pool) : Label → Option (AppId × Instance)
  | .maybeIdle id =>
      match s.heap[id]? with
      | some i => if s.Free ∧ i.idle = .select ∧ s.Expired i then some (id, i) else none
      | none => none
  | _ => none

/-- What a step other than the deletion in `maybeIdle` does to the map, the apps
and the lock. -/
inductive Move (T : PrintTable) (s : Pool) (l : Label) (t : Pool) : Prop where
  /-- Nothing. -/
  | quiet (apps : t.apps = s.apps) (heap : t.heap = s.heap) (holder : t.holder = s.holder)
  /-- A lookup finds its app under the canonical name, and adds the alias. -/
  | shared {id : AppId} {identity : Identity} (free : s.Free)
      (canonical : s.apps.lookup identity.canonicalName = some id)
      (unused : ∀ k v, identity.Names k → s.apps.lookup k = some v → v = id)
      (apps : t.apps = register s.apps identity id) (heap : t.heap = s.heap)
      (holder : t.holder = s.holder)
  /-- A lookup begins to start an app, under names that are not in the map. -/
  | opened {request : Request} (free : s.Free)
      (unused : ∀ k, request.identity.Names k → s.apps.lookup k = none)
      (apps : t.apps = s.apps) (heap : t.heap = s.heap)
      (holder : t.holder = some (.booting request))
  /-- It fails. -/
  | failed {request : Request} (booting : s.holder = some (.booting request))
      (apps : t.apps = s.apps) (heap : t.heap = s.heap) (holder : t.holder = none)
  /-- Its app comes into being. -/
  | created {os : Os} {request : Request} {app : App} (label : l = .boot os)
      (booting : s.holder = some (.booting request)) (booted : (boot T os request).2 = .ok app)
      (apps : t.apps = s.apps) (heap : t.heap = s.heap ++ [Instance.create app s.clock])
      (holder : t.holder =
        some (.starting s.heap.length request.identity (Instance.goroutines app)))
  /-- It starts a goroutine of the app. -/
  | went {id : AppId} {identity : Identity} {g : Goroutine} {left : List Goroutine}
      {i j : Instance} (starting : s.holder = some (.starting id identity (g :: left)))
      (here : s.heap[id]? = some i) (started : i.go g = some j) (apps : t.apps = s.apps)
      (heap : t.heap = s.heap.set id j)
      (holder : t.holder = some (.starting id identity left))
  /-- It writes the app into the map and returns. -/
  | registered {id : AppId} {identity : Identity}
      (starting : s.holder = some (.starting id identity []))
      (apps : t.apps = register s.apps identity id) (heap : t.heap = s.heap)
      (holder : t.holder = none)
  /-- An app changes. -/
  | changed {id : AppId} {i j : Instance} (here : s.heap[id]? = some i)
      (change : i.Change j) (apps : t.apps = s.apps) (heap : t.heap = s.heap.set id j)
      (holder : t.holder = s.holder)
  /-- An app is removed by `remove`: after a signal was delivered to it, or after
  its process was waited for. -/
  | removed {id : AppId} {i j : Instance} (free : s.Free) (here : s.heap[id]? = some i)
      (due : (∃ killer, i.killPc killer = some .remove) ∨ i.watch = .remove)
      (change : i.Change j) (apps : t.apps = s.apps.drop id)
      (heap : t.heap = s.heap.set id j) (holder : t.holder = s.holder)

/-- The names of an entry that is not cached are unused, when its canonical name
is. -/
theorem unused_of_fits {apps : Apps} {name : GoString} {request : Request}
    (fits : (Decision.start request).Fits apps name) :
    ∀ k, request.identity.Names k → apps.lookup k = none := by
  obtain ⟨uncached, canonical, aliased⟩ := fits
  rintro k (rfl | ⟨nonempty, rfl⟩)
  · exact canonical
  · rcases aliased with empty | same
    · exact absurd empty nonempty
    · rw [same]
      exact uncached

/-- The names of an entry that is not cached lead to the app it shares, or
nowhere. -/
theorem only_of_fits {apps : Apps} {name : GoString} {id : AppId} {identity : Identity}
    (fits : (Decision.share id identity).Fits apps name) :
    ∀ k v, identity.Names k → apps.lookup k = some v → v = id := by
  obtain ⟨uncached, canonical, aliased⟩ := fits
  rintro k v (rfl | ⟨nonempty, rfl⟩) found
  · rw [canonical] at found
    exact (Option.some.inj found).symm
  · rcases aliased with empty | same
    · exact absurd empty nonempty
    · rw [same, uncached] at found
      cases found

/-- **Every step is a move**, or the deletion in `maybeIdle`. -/
theorem move_of_step {T : PrintTable} {hash : GoString → GoString} {s t : Pool} {l : Label}
    (h : s.step T hash l = some t) (notFired : s.fired l = none) : Move T s l t := by
  cases stepsTo_of_step h with
  | cached | unknown | idleSpared | bound | purging | purgeWaited | ticked | idleTimeSet =>
      exact .quiet rfl rfl rfl
  | @shared name os id identity free decision =>
      have fits := fits_decideLookup hash os s.dir.text s.apps name
      rw [decision] at fits
      exact .shared free fits.2.1 (only_of_fits fits) rfl rfl rfl
  | @opened name os request free decision =>
      have fits := fits_decideLookup hash os s.dir.text s.apps name
      rw [decision] at fits
      exact .opened free (unused_of_fits fits) rfl rfl rfl
  | failed booting _ => exact .failed booting rfl rfl rfl
  | created booting booted => exact .created rfl booting booted rfl rfl rfl
  | went starting here started => exact .went starting here started rfl rfl rfl
  | registered starting => exact .registered starting rfl rfl rfl
  | @acted _ action _ _ here acted => exact .changed here (.act action acted) rfl rfl rfl
  | @killRemoved _ killer _ free here due =>
      exact .removed free here (Or.inl ⟨killer, due⟩) (.killRemoved killer due) rfl rfl rfl
  | watchRemoved free here due =>
      exact .removed free here (Or.inr due) (.watchRemoved due) rfl rfl rfl
  | unlinked here due => exact .changed here (.watchDone due) rfl rfl rfl
  | idleFired free here waiting expired =>
      simp [fired, here, free, waiting, expired] at notFired
  | used here _ _ => exact .changed here (.used s.clock) rfl rfl rfl
  | purgeKilled _ here => exact .changed here .kill rfl rfl rfl

/-- **The deletion in `maybeIdle`**: by the name of the app, whoever is found
under it. -/
theorem step_of_fired {T : PrintTable} {hash : GoString → GoString} {s t : Pool} {l : Label}
    {id : AppId} {i : Instance} (h : s.step T hash l = some t)
    (firing : s.fired l = some (id, i)) :
    s.Free ∧ i.idle = .select ∧ s.heap[id]? = some i ∧
      t = { s with apps := s.apps.erase i.app.name, heap := s.heap.set id i.idleFired } := by
  cases stepsTo_of_step h with
  | idleFired free here waiting expired =>
      simp only [fired, here, free, waiting, expired, and_self, if_true] at firing
      cases firing
      exact ⟨free, waiting, here, rfl⟩
  | idleSpared _ here _ busy => simp [fired, here, busy] at firing
  | _ => cases firing

/-- The app whose key or keys this step writes into the map, and the names it is
written under. -/
def written (hash : GoString → GoString) (s : Pool) : Label → Option (AppId × Identity)
  | .lookup name os =>
      match (decideLookup hash os s.dir.text s.apps name).2 with
      | .share id identity => some (id, identity)
      | _ => none
  | .register =>
      match s.holder with
      | some (.starting id identity []) => some (id, identity)
      | _ => none
  | _ => none

/-- **What a step does to the map**: it writes an app, or a key leads where it led
before. -/
theorem apps_of_step {T : PrintTable} {hash : GoString → GoString} {s t : Pool} {l : Label}
    (h : s.step T hash l = some t) :
    (∃ id identity, s.written hash l = some (id, identity) ∧
      t.apps = register s.apps identity id) ∨
    (s.written hash l = none ∧ ∀ k v, t.apps.lookup k = some v → s.apps.lookup k = some v) := by
  cases stepsTo_of_step h with
  | @shared _ _ id identity _ decision =>
      exact Or.inl ⟨id, identity, by simp only [written, decision], rfl⟩
  | @registered id identity starting =>
      exact Or.inl ⟨id, identity, by simp only [written, starting], rfl⟩
  | cached _ decision | unknown _ decision | opened _ decision =>
      exact Or.inr ⟨by simp only [written, decision], fun _ _ found => found⟩
  | killRemoved | watchRemoved =>
      exact Or.inr ⟨rfl, fun _ _ found => (Registry.lookup_drop.mp found).1⟩
  | idleFired =>
      exact Or.inr ⟨rfl, fun _ _ found => (Registry.lookup_erase_eq_some.mp found).2⟩
  | _ => exact Or.inr ⟨rfl, fun _ _ found => found⟩

end Pool

end PumaDev
