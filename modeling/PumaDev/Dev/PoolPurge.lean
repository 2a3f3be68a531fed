import PumaDev.Dev.PoolLookup
import PumaDev.Dev.PoolProcesses

/-!
# What a purge leaves behind

`Purge` lists the apps of the map, kills their tombs, and waits until all their
goroutines have ended.  What happens to the map and to the processes is left to these
goroutines, and two things follow from it.

* A launched app has a `watch`, which removes the app from the map and waits for its
  process before it ends; a proxy has neither.  `purge_empties` is the case without
  proxies: when the purge returns the map is empty, and what is looked up next is
  built anew.  A proxy stays in the map under its dead tomb (`proxy_stays`), unless
  `maybeIdle` deletes its key on behalf of another app.
* Only the apps on the list are waited for.  `none_survives` is the case in which no
  app is launched behind the list: then no process is left when the purge returns.
  A lookup that comes later launches one that nobody ends (`survives_purge`).
-/

namespace PumaDev

/-- `watch` has been through its last `pool.remove`. -/
def Instance.CleanedUp (i : Instance) : Prop := i.watch = .unlink ∨ i.watch = .done

namespace Pool

variable {T : PrintTable} {hash : GoString → GoString} {s t : Pool} {l : Label}

/-! ## The jobs of `Purge` -/

/-- What a step does to a job of `Purge`: its list of apps to wait for gets shorter only
by an app all of whose goroutines have ended. -/
theorem purge_of_step (h : s.step T hash l = some t) {job : ℕ} {p : PurgeJob}
    (listed : s.purges[job]? = some p) :
    ∃ q, t.purges[job]? = some q ∧ (q.toWait = p.toWait ∨
      ∃ id i, p.toWait = id :: q.toWait ∧ s.heap[id]? = some i ∧ i.Dead) := by
  have inside : job < s.purges.length := (List.getElem?_eq_some_iff.mp listed).1
  cases stepsTo_of_step h with
  | purging => exact ⟨p, (List.getElem?_append_left inside).trans listed, Or.inl rfl⟩
  | @purgeKilled job' _ toKill toWait _ there _ =>
      by_cases own : job' = job
      · subst own
        rw [listed] at there
        cases there
        exact ⟨⟨toKill, toWait⟩, List.getElem?_set_self inside, Or.inl rfl⟩
      · exact ⟨p, (List.getElem?_set_ne own).trans listed, Or.inl rfl⟩
  | @purgeWaited job' id toWait i there here dead =>
      by_cases own : job' = job
      · subst own
        rw [listed] at there
        cases there
        exact ⟨⟨[], toWait⟩, List.getElem?_set_self inside, Or.inr ⟨id, i, rfl, here, dead⟩⟩
      · exact ⟨p, (List.getElem?_set_ne own).trans listed, Or.inl rfl⟩
  | _ => exact ⟨p, listed, Or.inl rfl⟩

/-- Of the apps that a job has listed, those it is not waiting for any more have ended
their `watch`. -/
def Waits (s : Pool) (job : ℕ) (listed : List AppId) : Prop :=
  ∃ p, s.purges[job]? = some p ∧
    ∀ id ∈ listed, id ∈ p.toWait ∨ ∃ i, s.heap[id]? = some i ∧ i.watch = .done

/-- The list that `Purge` begins with. -/
theorem waits_of_purge (h : s.step T hash .purge = some t) :
    s.Free ∧ t.apps = s.apps ∧ t.heap = s.heap ∧ t.holder = s.holder ∧
      t.Waits s.purges.length s.apps.values := by
  obtain ⟨free, result⟩ := Option.ite_none_right_eq_some.mp h
  cases result
  exact ⟨free, rfl, rfl, rfl, _, List.getElem?_concat_length, fun id mem => Or.inl mem⟩

/-- **What has ended stays ended**, whatever happens. -/
theorem Waits.of_step {job : ℕ} {listed : List AppId} (waits : s.Waits job listed)
    (h : s.step T hash l = some t) : t.Waits job listed := by
  obtain ⟨p, here, each⟩ := waits
  obtain ⟨q, there, shorter⟩ := purge_of_step h here
  refine ⟨q, there, fun id mem => ?_⟩
  have ended : (∃ i, s.heap[id]? = some i ∧ i.watch = .done) →
      ∃ j, t.heap[id]? = some j ∧ j.watch = .done := by
    rintro ⟨i, at_, done⟩
    obtain ⟨j, after, next⟩ := after_of_step h at_
    exact ⟨j, after, next.evolves.cleaned done⟩
  rcases each id mem with waiting | done
  · rcases shorter with same | ⟨first, i, split, at_, dead⟩
    · exact Or.inl (by rw [same]; exact waiting)
    · rw [split] at waiting
      rcases List.mem_cons.mp waiting with rfl | later
      · exact Or.inr (ended ⟨i, at_, dead.1⟩)
      · exact Or.inl later
  · exact Or.inr (ended done)

/-! ## Who is removed -/

/-- No step of the app alone is the last `pool.remove`. -/
theorem cleanedUp_of_act {i j : Instance} {a : Instance.Action} (h : i.act a = some j)
    (cleaned : j.CleanedUp) : i.CleanedUp := by
  cases Instance.acts_of_act h with
  | @sent killer | @unsent killer =>
      cases killer <;> simp_all [Instance.CleanedUp, Instance.signalled, Instance.afterKill]
  | _ => simp_all [Instance.CleanedUp]

/-- Nor is the start of a goroutine. -/
theorem cleanedUp_of_go {i j : Instance} {g : Goroutine} (h : i.go g = some j)
    (cleaned : j.CleanedUp) : i.CleanedUp := by
  cases Instance.goes_of_go h <;> simp_all [Instance.CleanedUp]

/-- **Only the last `pool.remove` of `watch` brings it behind that point.** -/
theorem cleanedUp_of_step (h : s.step T hash l = some t) {id : AppId} {i j : Instance}
    (here : s.heap[id]? = some i) (there : t.heap[id]? = some j) (cleaned : j.CleanedUp) :
    i.CleanedUp ∨ l = .watchRemove id := by
  rcases changed_of_step h here there with rfl | changed
  · exact Or.inl cleaned
  · cases changed with
    | went _ started => exact Or.inl (cleanedUp_of_go started cleaned)
    | act acted => exact Or.inl (cleanedUp_of_act acted cleaned)
    | @killRemoved _ killer _ due =>
        cases killer <;> simp_all [Instance.CleanedUp, Instance.afterKill]
    | watchRemoved => exact Or.inr rfl
    | watchDone due => exact Or.inl (Or.inl due)
    | idleFired | used | killed => exact Or.inl cleaned

/-- An app that was launched and has been cleaned up is gone from the pool. -/
def RemovedOnceCleaned (s : Pool) : Prop :=
  ∀ (id : AppId) (i : Instance), s.heap[id]? = some i → i.app.command.isSome → i.CleanedUp →
    Gone s id

/-- **One step.** -/
theorem RemovedOnceCleaned.of_step (removed : s.RemovedOnceCleaned)
    (h : s.step T hash l = some t) : t.RemovedOnceCleaned := by
  intro id j there launched cleaned
  rcases before_of_step h there with ⟨i, here, next⟩ | ⟨app, -, -, rfl⟩
  · rcases cleanedUp_of_step h here there cleaned with before | rfl
    · rw [next.evolves.app] at launched
      exact (removed id i here launched before).of_step h
    · exact gone_of_remove h rfl
  · have launched' : app.command.isSome = true := launched
    simp [Instance.CleanedUp, Instance.create, launched'] at cleaned

/-- It holds in every state of every run. -/
theorem removedOnceCleaned_of_visited {dir : Filepath.CleanDir} {idleTime : ℤ}
    (ls : List Label) :
    ∀ s ∈ (poolMachine T hash dir idleTime).visited (poolMachine T hash dir idleTime).init ls,
      s.RemovedOnceCleaned :=
  (poolMachine T hash dir idleTime).inv_of_step
    (fun _ _ _ removed h => removed.of_step h) ls fun id i here => by
      simp [poolMachine, empty] at here

/-! ## Without lookups -/

/-- The step begins a lookup. -/
def IsLookup : Label → Prop
  | .lookup _ _ => True
  | _ => False

instance : DecidablePred IsLookup := fun l => by
  cases l <;> unfold IsLookup <;> infer_instance

/-- **Without lookups no key is written**: the lock stays free between two steps, and a
key leads where it led before. -/
theorem shrinks_of_step (free : s.Free) (h : s.step T hash l = some t) (quiet : ¬ IsLookup l) :
    t.Free ∧ ∀ k v, t.apps.lookup k = some v → s.apps.lookup k = some v := by
  have unheld : ∀ held, s.holder ≠ some held := by
    intro held holding
    rw [Free, holding] at free
    cases free
  cases stepsTo_of_step h with
  | cached | unknown | shared | opened => exact absurd trivial quiet
  | failed held | created held | went held | registered held => exact absurd held (unheld _)
  | killRemoved | watchRemoved =>
      exact ⟨free, fun _ _ found => (Registry.lookup_drop.mp found).1⟩
  | idleFired => exact ⟨free, fun _ _ found => (Registry.lookup_erase_eq_some.mp found).2⟩
  | _ => exact ⟨free, fun _ _ found => found⟩

/-- A lookup in an empty map that succeeds has built its app. -/
theorem fresh_of_lookupApp {os : Os} {pool pool' : AppPool} {name : GoString} {id : AppId}
    {asked : List Effect} (empty : ∀ k v, pool.apps.lookup k ≠ some v)
    (h : lookupApp T hash os pool name = (asked, pool', .ok id)) :
    id = pool.heap.length ∧ ∃ app, pool'.heap = pool.heap ++ [app] := by
  have fits := fits_decideLookup hash os pool.dir.text pool.apps name
  unfold lookupApp at h
  rcases decided : decideLookup hash os pool.dir.text pool.apps name with ⟨looked, decision⟩
  rw [decided] at h fits
  cases decision with
  | hit v => exact absurd fits (empty name v)
  | fail err => cases h
  | share v identity => exact absurd fits.2.1 (empty _ v)
  | start request =>
      dsimp only at h
      rcases booted : boot T os request with ⟨effect, err | app⟩
      · rw [booted] at h
        cases h
      · rw [booted] at h
        cases h
        exact ⟨rfl, app, rfl⟩

/-- `Purge` has returned. -/
def PurgeReturned (s : Pool) (job : ℕ) : Prop := s.purges[job]? = some ⟨[], []⟩

instance (s : Pool) (job : ℕ) : Decidable (s.PurgeReturned job) :=
  inferInstanceAs (Decidable (_ = _))

/-- The pool is empty, and the next lookup that succeeds returns an app it has built. -/
def Emptied (T : PrintTable) (hash : GoString → GoString) (s : Pool) : Prop :=
  s.Free ∧ (∀ k v, s.apps.lookup k ≠ some v) ∧
    ∀ os name asked pool id, lookupApp T hash os s.view name = (asked, pool, .ok id) →
      id = s.heap.length ∧ ∃ app, pool.heap = s.view.heap ++ [app]

/-- No app of the map is a proxy. -/
def NoProxies (s : Pool) : Prop :=
  ∀ id ∈ s.apps.values, ∀ i ∈ s.heap[id]?, i.app.command.isSome

instance (s : Pool) : Decidable s.NoProxies := List.decidableBAll _ _

/-- What holds while a purge that began in `s` is waiting, and no lookup runs. -/
structure Emptying (s u : Pool) : Prop where
  free : u.Free
  keys : ∀ k v, u.apps.lookup k = some v → s.apps.lookup k = some v
  waits : u.Waits s.purges.length s.apps.values
  removed : u.RemovedOnceCleaned
  same : ∀ (id : AppId) (i : Instance), s.heap[id]? = some i →
    ∃ j, u.heap[id]? = some j ∧ j.app = i.app

/-- **One step.** -/
theorem Emptying.of_step {u : Pool} (e : Emptying s u) (h : u.step T hash l = some t)
    (quiet : ¬ IsLookup l) : Emptying s t := by
  obtain ⟨free, shrinks⟩ := shrinks_of_step e.free h quiet
  refine ⟨free, fun k v found => e.keys k v (shrinks k v found), e.waits.of_step h,
    e.removed.of_step h, fun id i here => ?_⟩
  obtain ⟨j, there, app⟩ := e.same id i here
  obtain ⟨j', after, next⟩ := after_of_step h there
  exact ⟨j', after, next.evolves.app.trans app⟩

/-- Without proxies, nothing is in the map any more once the purge has returned. -/
theorem Emptying.emptied {u : Pool} (e : Emptying s u) (inv : WellFormed s)
    (launched : s.NoProxies) (returned : u.PurgeReturned s.purges.length) :
    u.Emptied T hash := by
  have empty : ∀ k v, u.apps.lookup k ≠ some v := by
    intro k v found
    have before := e.keys k v found
    have listed := Registry.mem_values.mpr ⟨k, before⟩
    obtain ⟨i, here⟩ := inv.keys k v before
    obtain ⟨p, job, each⟩ := e.waits
    rw [PurgeReturned, job] at returned
    cases returned
    rcases each v listed with waiting | ⟨j, there, done⟩
    · cases waiting
    · obtain ⟨j', there', app⟩ := e.same v i here
      rw [there] at there'
      cases there'
      have isLaunched : j.app.command.isSome = true := by
        rw [app]
        exact launched v listed i here
      exact (e.removed v j there isLaunched (Or.inr done)).keyless k found
  have empty : ∀ k v, u.view.apps.lookup k ≠ some v := empty
  refine ⟨e.free, empty, fun os name asked pool id found => ?_⟩
  have fresh := fresh_of_lookupApp empty found
  exact ⟨fresh.1.trans (by simp [view]), fresh.2⟩

/-- **A purge without proxies empties the pool.**  In every run, if the map holds no
proxy when `Purge` is called and no lookup begins until it returns, then the map is
empty when it returns, and a lookup that succeeds after that has built its app. -/
theorem purge_empties {dir : Filepath.CleanDir} {idleTime : ℤ} {before after : List Label}
    {u : Pool}
    (reached : s ∈ (poolMachine T hash dir idleTime).visited
      (poolMachine T hash dir idleTime).init before)
    (purge : (poolMachine T hash dir idleTime).step s .purge = some t)
    (launched : s.NoProxies) (quiet : ∀ l ∈ after, ¬ IsLookup l)
    (mem : u ∈ (poolMachine T hash dir idleTime).visited t after)
    (returned : u.PurgeReturned s.purges.length) : u.Emptied T hash := by
  have inv : WellFormed s := wellFormed_of_visited before s reached
  have step : s.step T hash .purge = some t := purge
  obtain ⟨free, apps, heap, holder, waits⟩ := waits_of_purge step
  have start : Emptying s t :=
    { free := holder.trans free
      keys := fun k v found => apps ▸ found
      waits := waits
      removed := (removedOnceCleaned_of_visited before s reached).of_step step
      same := fun id i here => ⟨i, by rw [heap]; exact here, rfl⟩ }
  have guarded : (poolMachine T hash dir idleTime).Guarded (fun _ l => ¬ IsLookup l) t after :=
    (poolMachine T hash dir idleTime).guarded_of_forall (fun l mem _ => quiet l mem) t
  have emptying : Emptying s u :=
    (poolMachine T hash dir idleTime).inv_of_guarded
      (fun _ _ _ e quiet h => e.of_step h quiet) after start guarded u mem
  exact emptying.emptied inv launched returned

/-- The goroutines of an app end, after its tomb was killed. -/
def endedByTomb (id : AppId) : List Label :=
  [.act id (.watchWake false), .act id (.signal .watch true)] ++ cleanedUp id ++
    [.act id .idleDying, .act id .restartDying, .act id .probeDying]

/-- One app, and a purge that waits for it. -/
theorem purge_empties_blog : ∃ s t u,
    s ∈ plainPool.visited plainPool.init (startApp "blog".toList .everyDirectory) ∧
    plainPool.step s .purge = some t ∧
    u ∈ plainPool.visited t (.purgeKill 0 :: endedByTomb 0 ++ [.purgeWait 0]) ∧
    u.Emptied .asciiOnly blogDigest := by
  have runs : ((plainPool.exec plainPool.init (startApp "blog".toList .everyDirectory)).bind
      fun s => (plainPool.step s .purge).bind fun t =>
        (plainPool.exec t (.purgeKill 0 :: endedByTomb 0 ++ [.purgeWait 0])).map fun u =>
          (decide s.NoProxies, decide (u.PurgeReturned s.purges.length))) =
      some (true, true) := by decide
  obtain ⟨s, reached, rest⟩ := Option.bind_eq_some_iff.mp runs
  obtain ⟨t, purge, rest⟩ := Option.bind_eq_some_iff.mp rest
  obtain ⟨u, ends, facts⟩ := Option.map_eq_some_iff.mp rest
  simp only [Prod.mk.injEq, decide_eq_true_eq] at facts
  obtain ⟨launched, returned⟩ := facts
  have reached := plainPool.mem_visited_of_exec reached
  have ends := plainPool.mem_visited_of_exec ends
  exact ⟨s, t, u, reached, purge, ends,
    purge_empties reached purge launched (by decide) ends returned⟩

/-- A world in which every entry is a file with a port. -/
def portWorld : Os :=
  { Os.everyDirectory with
    stat := fun _ _ => .ok false
    readFile := fun _ => .ok "3000".toList }

/-- A process that SIGTERM was delivered to has exited. -/
def Obeyed (s : Pool) : Prop := ∀ i ∈ s.heap, i.sigterm = true → i.proc ≠ .running

instance (s : Pool) : Decidable s.Obeyed :=
  List.decidableBAll (fun i : Instance => i.sigterm = true → i.proc ≠ .running) s.heap

/-- A proxy: its goroutine ends, the purge returns, and the proxy is still in the map,
where the next lookup finds it. -/
theorem purge_keeps_proxy : ∃ before after s t u,
    s ∈ plainPool.visited plainPool.init before ∧ plainPool.step s .purge = some t ∧
      (∀ l ∈ after, ¬ IsLookup l) ∧ u ∈ plainPool.visited t after ∧
      u.PurgeReturned s.purges.length ∧ u.Obeyed ∧ s.apps.lookup "api".toList = some 0 ∧
      u.apps.lookup "api".toList = some 0 ∧
      (lookupApp .asciiOnly blogDigest portWorld u.view "api".toList).2.2 = .ok 0 := by
  have runs : ((plainPool.exec plainPool.init
      [.lookup "api".toList portWorld, .boot portWorld, .register]).bind
      fun s => (plainPool.step s .purge).bind fun t =>
        (plainPool.exec t [.purgeKill 0, .act 0 .unpark, .purgeWait 0]).map fun u =>
          (s.apps.lookup "api".toList, decide (u.PurgeReturned s.purges.length),
            decide u.Obeyed, u.apps.lookup "api".toList)) =
      some (some 0, true, true, some 0) := by decide
  obtain ⟨s, reached, rest⟩ := Option.bind_eq_some_iff.mp runs
  obtain ⟨t, purge, rest⟩ := Option.bind_eq_some_iff.mp rest
  obtain ⟨u, ends, facts⟩ := Option.map_eq_some_iff.mp rest
  simp only [Prod.mk.injEq, decide_eq_true_eq] at facts
  obtain ⟨before, returned, obeyed, found⟩ := facts
  refine ⟨_, _, s, t, u, plainPool.mem_visited_of_exec reached, purge, by decide,
    plainPool.mem_visited_of_exec ends, returned, obeyed, before, found, ?_⟩
  have cached : u.view.apps.lookup "api".toList = some 0 := found
  rw [lookupApp_of_key _ _ _ cached]

/-! ## Proxies stay -/

/-- A proxy has none of the goroutines of a launched app. -/
def ProxiesIdle (s : Pool) : Prop :=
  ∀ i ∈ s.heap, i.app.command.isSome = false →
    i.watch = .done ∧ i.idle = .done ∧ i.restart = .done

/-- **One step.** -/
theorem ProxiesIdle.of_step (idle : s.ProxiesIdle) (h : s.step T hash l = some t) :
    t.ProxiesIdle := by
  intro j mem proxy
  obtain ⟨id, there⟩ := List.mem_iff_getElem?.mp mem
  rcases before_of_step h there with ⟨i, here, next⟩ | ⟨app, -, -, rfl⟩
  · have before := next.evolves.app ▸ proxy
    obtain ⟨watch, monitor, restart⟩ := idle i (List.mem_of_getElem? here) before
    rcases changed_of_step h here there with rfl | changed
    · exact ⟨watch, monitor, restart⟩
    · cases changed with
      | @went _ _ g _ _ _ _ started =>
          cases g <;>
          · obtain ⟨unborn, result⟩ := Option.ite_none_right_eq_some.mp started
            cases result
            simp_all
      | @act _ a _ _ acted =>
          cases a with
          | closeStdout =>
              cases acted
              exact ⟨watch, monitor, restart⟩
          | signal killer delivered =>
              obtain ⟨⟨at_, -⟩, -⟩ := Option.ite_none_right_eq_some.mp acted
              cases killer <;> simp_all
          | _ =>
              obtain ⟨enabled, result⟩ := Option.ite_none_right_eq_some.mp acted
              cases result
              simp_all
      | @killRemoved _ killer _ due => cases killer <;> simp_all
      | watchRemoved due | watchDone due | idleFired due => simp_all
      | used | killed => exact ⟨watch, monitor, restart⟩
  · have proxy : app.command.isSome = false := proxy
    simp [Instance.create, proxy]

/-- `maybeIdle` does not delete the key in this step. -/
def KeepsKey (k : GoString) (s : Pool) (l : Label) : Prop :=
  ∀ id i, s.fired l = some (id, i) → i.app.name ≠ k

/-- The key leads to a proxy. -/
structure LeadsToProxy (k : GoString) (id : AppId) (s : Pool) : Prop where
  inv : WellFormed s
  idle : s.ProxiesIdle
  found : s.apps.lookup k = some id
  proxy : ∀ i, s.heap[id]? = some i → i.app.command.isSome = false

/-- **One step.**  `remove` is never called for a proxy. -/
theorem LeadsToProxy.of_step {k : GoString} {id : AppId} (leads : LeadsToProxy k id s)
    (h : s.step T hash l = some t) (keeps : s.KeepsKey k l) : LeadsToProxy k id t where
  inv := wellFormed_of_step h leads.inv
  idle := leads.idle.of_step h
  proxy := by
    intro j there
    obtain ⟨i, here⟩ := leads.inv.keys k id leads.found
    obtain ⟨j', there', next⟩ := after_of_step h here
    rw [there] at there'
    cases there'
    rw [next.evolves.app]
    exact leads.proxy i here
  found := by
    have found := leads.found
    cases firing : s.fired l with
    | some fired =>
        obtain ⟨id', i⟩ := fired
        obtain ⟨-, -, -, rfl⟩ := step_of_fired h firing
        exact Registry.lookup_erase_eq_some.mpr ⟨(keeps id' i firing).symm, found⟩
    | none =>
        cases move_of_step h firing with
        | quiet apps _ _ | opened _ _ apps _ _ | failed _ apps _ _ | created _ _ _ apps _ _
        | went _ _ _ apps _ _ | changed _ _ apps _ _ =>
            rw [apps]
            exact found
        | shared _ _ unused apps _ _ =>
            rw [apps]
            exact extends_register unused k id found
        | registered starting apps _ _ =>
            rw [apps]
            refine extends_register (fun name v named old => ?_) k id found
            rw [(leads.inv.starting _ _ _ starting).1 name named] at old
            cases old
        | @removed id' i _ _ here due _ apps _ _ =>
            rw [apps, Registry.lookup_drop]
            refine ⟨found, ?_⟩
            rintro rfl
            obtain ⟨watch, monitor, restart⟩ :=
              leads.idle i (List.mem_of_getElem? here) (leads.proxy i here)
            rcases due with ⟨killer, at_⟩ | at_
            · cases killer <;> simp_all
            · simp_all

/-- **A proxy stays in the map**, through any number of purges: its keys go only if
`maybeIdle` deletes them by the name of another app. -/
theorem proxy_stays {dir : Filepath.CleanDir} {idleTime : ℤ} {before after : List Label}
    {k : GoString} {id : AppId} {i : Instance}
    (reached : s ∈ (poolMachine T hash dir idleTime).visited
      (poolMachine T hash dir idleTime).init before)
    (found : s.apps.lookup k = some id) (here : s.heap[id]? = some i)
    (proxy : i.app.command.isSome = false)
    (keeps : (poolMachine T hash dir idleTime).Guarded (Pool.KeepsKey k) s after) :
    ∀ u ∈ (poolMachine T hash dir idleTime).visited s after, u.apps.lookup k = some id := by
  have idle : s.ProxiesIdle :=
    (poolMachine T hash dir idleTime).inv_of_step (fun _ _ _ idle h => idle.of_step h) before
      (by simp [poolMachine, empty, ProxiesIdle]) s reached
  have start : LeadsToProxy k id s :=
    { inv := wellFormed_of_visited before s reached
      idle := idle
      found := found
      proxy := fun j there => by
        rw [here] at there
        cases there
        exact proxy }
  exact fun u mem => ((poolMachine T hash dir idleTime).inv_of_guarded
    (fun _ _ _ leads keeps h => leads.of_step h keeps) after start keeps u mem).found

/-! ## No process is left -/

/-- No app is launched in this step. -/
def NoLaunch (T : PrintTable) (s : Pool) (l : Label) : Prop := launched T s l = none

instance (T : PrintTable) (s : Pool) (l : Label) : Decidable (NoLaunch T s l) :=
  match h : launched T s l with
  | none => .isTrue h
  | some app => .isFalse (by simp [NoLaunch, h])

/-- Every process that has not been sent SIGTERM belongs to an app that is listed. -/
def Covered (listed : List AppId) (s : Pool) : Prop :=
  ∀ (id : AppId) (i : Instance), s.heap[id]? = some i →
    i.proc ≠ .running ∨ i.sigterm = true ∨ id ∈ listed

/-- **One step** that launches nothing needs no more to be listed. -/
theorem Covered.of_step {listed : List AppId} (covered : Covered listed s)
    (h : s.step T hash l = some t) (quiet : s.NoLaunch T l) : Covered listed t := by
  intro id j there
  rcases before_of_step h there with ⟨i, here, next⟩ | ⟨app, creates, rfl, rfl⟩
  · rcases covered id i here with ended | sent | mem
    · exact Or.inl (next.evolves.proc ended)
    · exact Or.inr (Or.inl (next.evolves.sigterm sent))
    · exact Or.inr (Or.inr mem)
  · -- what is created is a proxy
    obtain ⟨os, request, rfl, booting, booted, -⟩ := creates.booted
    have proxy : app.command.isSome = false := by
      cases process : app.command.isSome with
      | false => rfl
      | true => simp [NoLaunch, launched, booting, booted, process] at quiet
    exact Or.inl (by simp [Instance.create, proxy])

/-- What holds while a purge is waiting and nothing is launched. -/
structure Ending (listed : List AppId) (job : ℕ) (s : Pool) : Prop where
  inv : WellFormed s
  waits : s.Waits job listed
  covered : Covered listed s

/-- Once the purge has returned, and every process has heeded its signal, none is
left. -/
theorem Ending.none_left {listed : List AppId} {job : ℕ} (e : Ending listed job s)
    (returned : s.PurgeReturned job) (obeyed : s.Obeyed) : ∀ i ∈ s.heap, i.proc ≠ .running := by
  intro i mem
  obtain ⟨id, here⟩ := List.mem_iff_getElem?.mp mem
  rcases e.covered id i here with ended | sent | isListed
  · exact ended
  · exact obeyed i mem sent
  · obtain ⟨p, jobs, each⟩ := e.waits
    rw [PurgeReturned, jobs] at returned
    cases returned
    rcases each id isListed with waiting | ⟨j, there, done⟩
    · cases waiting
    · rw [here] at there
      cases there
      exact (e.inv.ok id i here).waited (Or.inr (Or.inr done))

/-- **No process is left when the purge returns**, if nothing is launched behind its
list.  In every run: let the process of each app that has not been sent SIGTERM be that
of an app in the map when `Purge` is called, and let no app be launched from then on.
When the purge has returned, no process is running, a process that was sent SIGTERM being
taken to have exited by then. -/
theorem none_survives {dir : Filepath.CleanDir} {idleTime : ℤ} {before after : List Label}
    {u : Pool}
    (reached : s ∈ (poolMachine T hash dir idleTime).visited
      (poolMachine T hash dir idleTime).init before)
    (purge : (poolMachine T hash dir idleTime).step s .purge = some t)
    (covered : Covered s.apps.values s)
    (quiet : (poolMachine T hash dir idleTime).Guarded (Pool.NoLaunch T) t after)
    (mem : u ∈ (poolMachine T hash dir idleTime).visited t after)
    (returned : u.PurgeReturned s.purges.length) (obeyed : u.Obeyed) :
    ∀ i ∈ u.heap, i.proc ≠ .running := by
  have step : s.step T hash .purge = some t := purge
  obtain ⟨free, apps, heap, holder, waits⟩ := waits_of_purge step
  have start : Ending s.apps.values s.purges.length t :=
    { inv := wellFormed_of_step step (wellFormed_of_visited before s reached)
      waits := waits
      covered := by
        intro id i here
        rw [heap] at here
        exact covered id i here }
  have ending : Ending s.apps.values s.purges.length u :=
    (poolMachine T hash dir idleTime).inv_of_guarded
      (fun _ _ _ e quiet h => ⟨wellFormed_of_step h e.inv, e.waits.of_step h,
        e.covered.of_step h quiet⟩) after start quiet u mem
  exact ending.none_left returned obeyed

/-- One app; a lookup that finds it comes while the purge is waiting. -/
theorem none_survives_blog : ∃ s t u,
    s ∈ plainPool.visited plainPool.init (startApp "blog".toList .everyDirectory) ∧
    plainPool.step s .purge = some t ∧
    u ∈ plainPool.visited t (.lookup "blog".toList .everyDirectory :: .purgeKill 0 ::
      endedByTomb 0 ++ [.purgeWait 0]) ∧
    ∀ i ∈ u.heap, i.proc ≠ .running := by
  have runs : ((plainPool.exec plainPool.init (startApp "blog".toList .everyDirectory)).bind
      fun s => (plainPool.step s .purge).bind fun t =>
        (plainPool.exec t (.lookup "blog".toList .everyDirectory :: .purgeKill 0 ::
          endedByTomb 0 ++ [.purgeWait 0])).map fun u =>
            (s.heap.length, s.apps.values,
              decide (plainPool.Guarded (NoLaunch .asciiOnly) t
                (.lookup "blog".toList .everyDirectory :: .purgeKill 0 ::
                  endedByTomb 0 ++ [.purgeWait 0])),
              decide (u.PurgeReturned s.purges.length), decide u.Obeyed)) =
      some (1, [0], true, true, true) := by decide
  obtain ⟨s, reached, rest⟩ := Option.bind_eq_some_iff.mp runs
  obtain ⟨t, purge, rest⟩ := Option.bind_eq_some_iff.mp rest
  obtain ⟨u, ends, facts⟩ := Option.map_eq_some_iff.mp rest
  simp only [Prod.mk.injEq, decide_eq_true_eq] at facts
  obtain ⟨apps, listed, quiet, returned, obeyed⟩ := facts
  have covered : Covered s.apps.values s := by
    intro id i here
    have only : id = 0 := by
      have inside := (List.getElem?_eq_some_iff.mp here).1
      rw [apps] at inside
      exact Nat.lt_one_iff.mp inside
    exact Or.inr (Or.inr (by simp [listed, only]))
  have reached := plainPool.mem_visited_of_exec reached
  have ends := plainPool.mem_visited_of_exec ends
  exact ⟨s, t, u, reached, purge, ends,
    none_survives reached purge covered quiet ends returned obeyed⟩

/-- A lookup launches a second app after the purge has listed the first: when the purge
returns, the process of the second is running, and nobody has sent it a signal. -/
theorem survives_purge : ∃ before after s t u,
    s ∈ plainPool.visited plainPool.init before ∧ plainPool.step s .purge = some t ∧
      u ∈ plainPool.visited t after ∧ u.PurgeReturned s.purges.length ∧ u.Obeyed ∧
      ∃ i ∈ u.heap, i.proc = .running ∧ i.sigterm = false := by
  have runs : ((plainPool.exec plainPool.init (startApp "blog".toList .everyDirectory)).bind
      fun s => (plainPool.step s .purge).bind fun t =>
        (plainPool.exec t (startApp "shop".toList .everyDirectory ++ .purgeKill 0 ::
          endedByTomb 0 ++ [.purgeWait 0])).map fun u =>
            (decide (u.PurgeReturned s.purges.length), decide u.Obeyed,
              (u.heap[1]?).map fun i => (i.proc, i.sigterm))) =
      some (true, true, some (.running, false)) := by decide
  obtain ⟨s, reached, rest⟩ := Option.bind_eq_some_iff.mp runs
  obtain ⟨t, purge, rest⟩ := Option.bind_eq_some_iff.mp rest
  obtain ⟨u, ends, facts⟩ := Option.map_eq_some_iff.mp rest
  simp only [Prod.mk.injEq, decide_eq_true_eq] at facts
  obtain ⟨returned, obeyed, newcomer⟩ := facts
  obtain ⟨i, here, fields⟩ := Option.map_eq_some_iff.mp newcomer
  simp only [Prod.mk.injEq] at fields
  exact ⟨_, _, s, t, u, plainPool.mem_visited_of_exec reached, purge,
    plainPool.mem_visited_of_exec ends, returned, obeyed, i,
    List.mem_of_getElem? here, fields⟩

end Pool

end PumaDev
