import PumaDev.Dev.PoolMap

/-!
# Processes and sockets, over whole runs

Two questions about the processes behind the apps.

**Can a process be forgotten?**  A process whose app has been handed out should
be found through the map, or be on its way out: signalled, its tomb killed, or
about to be signalled by its own `idleMonitor`.  `remove` goes by identity and
never forgets a process that has not been signalled or waited for.  `maybeIdle`
goes by name, and under the name of an app that is draining the map may already
hold its successor.  `noOrphan_iff` is exact: no process is forgotten in a run
if and only if no deletion by `maybeIdle` takes the last key of another app that
is still up.

**Whose socket does the cleanup remove?**  The socket's path depends on the
directory and the puma-dev process only, so two apps of one directory share it.
`sockets_safe_of_serial` is the rule: if no app is launched for a socket while
an earlier app of that socket still has its cleanup before it, then whenever
`watch` is about to remove a socket, no app in the pool whose process is alive
has that socket.  Without it the newcomer's socket is removed
(`unlinks_newcomer`).
-/

namespace PumaDev

namespace Pool

variable {T : PrintTable} {hash : GoString → GoString} {s t : Pool} {l : Label}

/-! ## No process is forgotten -/

/-- Some key leads to the app. -/
def InPool (s : Pool) (id : AppId) : Prop := ∃ k, s.apps.lookup k = some id

/-- The lookup that created the app has not returned yet. -/
def Starting (s : Pool) (id : AppId) : Prop :=
  ∃ identity left, s.holder = some (.starting id identity left)

/-- The app has no running process, or one that is on its way out. -/
def Leaving (i : Instance) : Prop :=
  i.proc ≠ .running ∨ i.sigterm = true ∨ i.killed = true ∨ i.idle = .kill .signal

/-- Every process whose lookup has returned is found through the map, or is on
its way out. -/
def NoOrphan (s : Pool) : Prop :=
  ∀ id i, s.heap[id]? = some i → ¬ s.Starting id → s.InPool id ∨ Leaving i

/-- If `maybeIdle` deletes a name in this step and finds another app under it,
that app has a second key or is on its way out. -/
def SparesOthers (s : Pool) (l : Label) : Prop :=
  ∀ id i, s.fired l = some (id, i) → ∀ other o, other ≠ id → s.heap[other]? = some o →
    s.apps.lookup i.app.name = some other →
      (∃ k, k ≠ i.app.name ∧ s.apps.lookup k = some other) ∨ Leaving o

/-- Whoever is on the way out stays there. -/
theorem leaving_of_next {i j : Instance} (next : i.Next j) (leaving : Leaving i) :
    Leaving j := by
  have evolves := next.evolves
  rcases leaving with ended | sent | killed | due
  · exact Or.inl (evolves.proc ended)
  · exact Or.inr (Or.inl (evolves.sigterm sent))
  · exact Or.inr (Or.inr (Or.inl (evolves.killed killed)))
  · rcases evolves.idleKill due with still | sent | ended
    · exact Or.inr (Or.inr (Or.inr still))
    · exact Or.inr (Or.inl sent)
    · exact Or.inl ended

/-- Whoever `remove` is due for is on the way out. -/
theorem leaving_of_due {i : Instance} (ok : i.Ok)
    (due : (∃ killer, i.killPc killer = some .remove) ∨ i.watch = .remove) : Leaving i := by
  rcases due with ⟨killer, at_⟩ | waited
  · exact Or.inr (Or.inl (ok.signalled killer at_))
  · exact Or.inl (ok.waited (Or.inl waited))

/-- An app that nobody has returned yet is being started. -/
theorem starting_of_creates {app : App} (creates : Creates T s l t app) :
    t.Starting s.heap.length := by
  obtain ⟨os, request, -, -, -, holder⟩ := creates.booted
  exact ⟨request.identity, _, holder⟩

/-- While nobody holds the lock, no app is being started. -/
theorem not_starting_of_free (free : s.Free) (id : AppId) : ¬ s.Starting id := by
  rintro ⟨identity, left, starting⟩
  rw [Free, starting] at free
  cases free

theorem InPool.of_eq {id : AppId} (found : s.InPool id) (apps : t.apps = s.apps) :
    t.InPool id := by
  obtain ⟨k, found⟩ := found
  exact ⟨k, by rw [apps]; exact found⟩

theorem InPool.of_extends {id : AppId} (found : s.InPool id)
    (more : Registry.Extends s.apps t.apps) : t.InPool id := by
  obtain ⟨k, found⟩ := found
  exact ⟨k, more k id found⟩

/-- No other step forgets a process. -/
theorem noOrphan_of_not_fired (inv : WellFormed s) (none_lost : s.NoOrphan)
    (h : s.step T hash l = some t) (notFired : s.fired l = none) : t.NoOrphan := by
  have move := move_of_step h notFired
  intro id j there notStarting
  rcases before_of_step h there with ⟨i, here, next⟩ | ⟨app, creates, rfl, -⟩
  · -- an app that was there before
    have settled : ¬ s.Starting id → (s.InPool id → t.InPool id ∨ Leaving j) →
        t.InPool id ∨ Leaving j := by
      intro returned keeps
      rcases none_lost id i here returned with found | leaving
      · exact keeps found
      · exact Or.inr (leaving_of_next next leaving)
    have sameKeys : t.apps = s.apps → s.InPool id → t.InPool id ∨ Leaving j :=
      fun apps found => Or.inl (found.of_eq apps)
    have moreKeys : Registry.Extends s.apps t.apps → s.InPool id → t.InPool id ∨ Leaving j :=
      fun more found => Or.inl (found.of_extends more)
    have sameHolder : t.holder = s.holder → ¬ s.Starting id := by
      rintro holder ⟨identity, left, starting⟩
      exact notStarting ⟨identity, left, by rw [holder]; exact starting⟩
    cases move with
    | quiet apps _ holder | changed _ _ apps _ holder =>
        exact settled (sameHolder holder) (sameKeys apps)
    | shared free _ unused apps _ _ =>
        exact settled (not_starting_of_free free id)
          (moreKeys (by rw [apps]; exact extends_register unused))
    | opened free _ apps _ _ =>
        exact settled (not_starting_of_free free id) (sameKeys apps)
    | failed booting apps _ _ | created _ booting _ apps _ _ =>
        refine settled ?_ (sameKeys apps)
        rintro ⟨identity, left, starting⟩
        rw [booting] at starting
        cases starting
    | went starting _ _ apps _ holder =>
        refine settled ?_ (sameKeys apps)
        rintro ⟨identity, left, starting'⟩
        rw [starting] at starting'
        cases starting'
        exact notStarting ⟨_, _, holder⟩
    | @registered id' identity starting apps _ _ =>
        by_cases new : id = id'
        · subst new
          refine Or.inl ⟨identity.canonicalName, ?_⟩
          rw [apps]
          exact lookup_register_eq_some.mpr (Or.inl ⟨Or.inl rfl, rfl⟩)
        · refine settled ?_ (moreKeys ?_)
          · rintro ⟨identity', left, starting'⟩
            rw [starting] at starting'
            cases starting'
            exact new rfl
          · rw [apps]
            refine extends_register fun k v name found => ?_
            rw [(inv.starting _ _ _ starting).1 k name] at found
            cases found
    | @removed id' i' _ free here' due _ apps _ _ =>
        refine settled (not_starting_of_free free id) ?_
        rintro ⟨k, found⟩
        by_cases same : id = id'
        · subst same
          rw [here] at here'
          cases here'
          exact Or.inr (leaving_of_next next (leaving_of_due (inv.ok _ _ here) due))
        · exact Or.inl ⟨k, by rw [apps, Registry.lookup_drop]; exact ⟨found, same⟩⟩
  · -- the app that has just been created
    exact absurd (starting_of_creates creates) notStarting

/-- The deletion in `maybeIdle` forgets no process, exactly when it spares the others. -/
theorem noOrphan_of_fired (none_lost : s.NoOrphan) (h : s.step T hash l = some t)
    {id : AppId} {i : Instance} (firing : s.fired l = some (id, i)) :
    t.NoOrphan ↔ s.SparesOthers l := by
  obtain ⟨free, -, here, rfl⟩ := step_of_fired h firing
  constructor
  · intro kept id' i' fires other o differ there under
    rw [firing] at fires
    cases fires
    have still := kept other o
      ((getElem?_set_eq_some here).mpr (Or.inr ⟨differ, there⟩)) (not_starting_of_free free _)
    rcases still with ⟨k, found⟩ | leaving
    · exact Or.inl ⟨k, Registry.lookup_erase_eq_some.mp found⟩
    · exact Or.inr leaving
  · intro spares other o there _
    rcases (getElem?_set_eq_some here).mp there with ⟨rfl, rfl⟩ | ⟨differ, old⟩
    · exact Or.inr (Or.inr (Or.inr (Or.inr rfl)))
    · rcases none_lost other o old (not_starting_of_free free _) with ⟨k, found⟩ | leaving
      · by_cases deleted : k = i.app.name
        · subst deleted
          rcases spares id i firing other o differ old found with ⟨k', apart, found'⟩ | leaving
          · exact Or.inl ⟨k', Registry.lookup_erase_eq_some.mpr ⟨apart, found'⟩⟩
          · exact Or.inr leaving
        · exact Or.inl ⟨k, Registry.lookup_erase_eq_some.mpr ⟨deleted, found⟩⟩
      · exact Or.inr leaving

/-- **One step.**  No process is forgotten in a step, exactly when a deletion by
`maybeIdle` spares the others. -/
theorem noOrphan_step (inv : WellFormed s) (none_lost : s.NoOrphan)
    (h : s.step T hash l = some t) : t.NoOrphan ↔ s.SparesOthers l := by
  cases firing : s.fired l with
  | none =>
      have vacuous : s.SparesOthers l := by
        intro id i fires
        rw [firing] at fires
        cases fires
      exact iff_of_true (noOrphan_of_not_fired inv none_lost h firing) vacuous
  | some fired => exact noOrphan_of_fired none_lost h firing

theorem noOrphan_empty (dir : Filepath.CleanDir) (idleTime : ℤ) :
    NoOrphan (empty dir idleTime) := by
  intro id i here
  simp [empty] at here

/-- **When no process is forgotten.**  In every state of a run each process whose
lookup has returned is found through the map or is on its way out, if and only
if no deletion by `maybeIdle` takes the last key of another app that is not. -/
theorem noOrphan_iff (T : PrintTable) (hash : GoString → GoString) (dir : Filepath.CleanDir)
    (idleTime : ℤ) (ls : List Label) :
    (∀ s ∈ (poolMachine T hash dir idleTime).visited (poolMachine T hash dir idleTime).init ls,
        s.NoOrphan) ↔
      (poolMachine T hash dir idleTime).Guarded Pool.SparesOthers
        (poolMachine T hash dir idleTime).init ls :=
  (poolMachine T hash dir idleTime).visited_iff_guarded
    (fun _ _ _ inv h => wellFormed_of_step h inv)
    (fun _ _ _ inv kept h => noOrphan_step inv kept h) ls
    (wellFormed_empty dir idleTime) (noOrphan_empty dir idleTime)

/-- The pool of a world in which every entry is a directory. -/
def plainPool : Machine Pool Label := poolMachine .asciiOnly blogDigest .home 900

/-- `restart.txt` is touched: the app is signalled and leaves the pool, and its
process may take its time to exit. -/
def restarted (id : AppId) : List Label :=
  [.act id .restartTouched, .act id (.signal .restart true), .killRemove id .restart]

/-- The app is restarted and looked up again; then the idle monitor of the old
instance, which is still draining, deletes the new one. -/
theorem orphans_newcomer : ∃ s ∈ plainPool.visited plainPool.init
    (startApp "blog".toList .everyDirectory ++ restarted 0 ++ [.tick 901] ++
      startApp "blog".toList .everyDirectory ++ [.maybeIdle 0]), ¬ s.NoOrphan := by
  have facts : (plainPool.exec plainPool.init
      (startApp "blog".toList .everyDirectory ++ restarted 0 ++ [.tick 901] ++
        startApp "blog".toList .everyDirectory ++ [.maybeIdle 0])).map
        (fun s => ((s.heap[1]?).map fun i => (i.proc, i.sigterm, i.killed, i.idle),
          s.apps.values, s.holder.isNone)) =
      some (some (.running, false, false, .select), [], true) := by decide
  obtain ⟨s, visited, found⟩ := plainPool.exists_visited_of_map facts
  simp only [Prod.mk.injEq] at found
  obtain ⟨newcomer, empty, free⟩ := found
  obtain ⟨i, here, fields⟩ := Option.map_eq_some_iff.mp newcomer
  simp only [Prod.mk.injEq] at fields
  obtain ⟨running, unsent, alive, waiting⟩ := fields
  refine ⟨s, visited, fun kept => ?_⟩
  have returned : ¬ s.Starting 1 := by
    rintro ⟨identity, left, starting⟩
    rw [starting] at free
    cases free
  rcases kept 1 i here returned with ⟨k, found⟩ | leaving
  · have listed := Registry.mem_values.mpr ⟨k, found⟩
    rw [empty] at listed
    cases listed
  · rcases leaving with ended | sent | killed | due
    · exact ended running
    · rw [unsent] at sent
      cases sent
    · rw [alive] at killed
      cases killed
    · rw [waiting] at due
      cases due

/-! ## Whose socket the cleanup removes -/

/-- Whenever `watch` is about to remove a socket, no other app in the pool whose
process is alive has that socket. -/
def SocketsSafe (s : Pool) : Prop :=
  ∀ (a : AppId) (i : Instance), s.heap[a]? = some i → i.watch = .unlink →
    ∀ (b : AppId) (j : Instance), b ≠ a → s.heap[b]? = some j → s.InPool b →
      j.proc = .running → j.app.address ≠ i.app.address

/-- The app that is launched in this step. -/
def launched (T : PrintTable) (s : Pool) : Label → Option App
  | .boot os =>
      match s.holder with
      | some (.booting request) =>
          match (boot T os request).2 with
          | .ok app => if app.command.isSome then some app else none
          | .error _ => none
      | _ => none
  | _ => none

/-- No app is launched for a socket that an earlier app has still to clean up. -/
def SerialLaunch (T : PrintTable) (s : Pool) (l : Label) : Prop :=
  ∀ app ∈ launched T s l, ∀ i ∈ s.heap, i.app.address = app.address → i.watch = .done

instance (T : PrintTable) (s : Pool) (l : Label) : Decidable (SerialLaunch T s l) :=
  match h : launched T s l with
  | none => .isTrue (by simp [SerialLaunch, h])
  | some app => decidable_of_iff
      (∀ i ∈ s.heap, i.app.address = app.address → i.watch = .done)
      (by simp [SerialLaunch, h])

/-- Of two apps with one socket at most one has its cleanup before it. -/
def OneCleaner (s : Pool) : Prop :=
  ∀ (a b : AppId) (i j : Instance), a ≠ b → s.heap[a]? = some i → s.heap[b]? = some j →
    i.app.address = j.app.address → i.watch = .done ∨ j.watch = .done

/-- A new app shares its socket with apps that have cleaned up, or is a proxy. -/
theorem done_of_creates (serial : s.SerialLaunch T l) {app : App}
    (creates : Creates T s l t app) {a : AppId} {i : Instance} (here : s.heap[a]? = some i)
    (same : i.app.address = app.address) :
    i.watch = .done ∨ (Instance.create app s.clock).watch = .done := by
  obtain ⟨os, request, rfl, booting, booted, -⟩ := creates.booted
  cases process : app.command.isSome with
  | true =>
      have launches : launched T s (.boot os) = some app := by
        simp [launched, booting, booted, process]
      exact Or.inl (serial app launches i (List.mem_of_getElem? here) same)
  | false => exact Or.inr (by simp [Instance.create, process])

/-- **One step.**  Serial launches keep the cleanups apart. -/
theorem oneCleaner_step (apart : s.OneCleaner) (serial : s.SerialLaunch T l)
    (h : s.step T hash l = some t) : t.OneCleaner := by
  intro a b i j differ thereA thereB same
  rcases before_of_step h thereA with ⟨i', hereA, nextA⟩ | ⟨app, creates, rfl, rfl⟩
  · rcases before_of_step h thereB with ⟨j', hereB, nextB⟩ | ⟨app, creates, rfl, rfl⟩
    · rw [nextA.evolves.app, nextB.evolves.app] at same
      rcases apart a b i' j' differ hereA hereB same with done | done
      · exact Or.inl (nextA.evolves.cleaned done)
      · exact Or.inr (nextB.evolves.cleaned done)
    · rw [nextA.evolves.app] at same
      rcases done_of_creates serial creates hereA same with done | done
      · exact Or.inl (nextA.evolves.cleaned done)
      · exact Or.inr done
  · rcases before_of_step h thereB with ⟨j', hereB, nextB⟩ | ⟨app', _, rfl, _⟩
    · rw [nextB.evolves.app] at same
      rcases done_of_creates serial creates hereB same.symm with done | done
      · exact Or.inr (nextB.evolves.cleaned done)
      · exact Or.inl done
    · exact absurd rfl differ

/-- An app that has yet to remove its socket has no rival. -/
theorem socketsSafe_of_oneCleaner (inv : WellFormed s) (apart : s.OneCleaner) :
    s.SocketsSafe := by
  intro a i hereA atUnlink b j differ hereB _ running same
  rcases apart b a j i differ hereB hereA same with done | done
  · exact (inv.ok b j hereB).waited (Or.inr (Or.inr done)) running
  · rw [atUnlink] at done
    cases done

/-- **Sockets are safe while launches are serial.**  In a run that launches no app
for a socket an earlier app has still to clean up, `watch` never removes the
socket of another app that is in the pool with its process alive. -/
theorem sockets_safe_of_serial {dir : Filepath.CleanDir} {idleTime : ℤ} {ls : List Label}
    (serial : (poolMachine T hash dir idleTime).Guarded (Pool.SerialLaunch T)
      (poolMachine T hash dir idleTime).init ls) :
    ∀ s ∈ (poolMachine T hash dir idleTime).visited (poolMachine T hash dir idleTime).init ls,
      s.SocketsSafe := by
  have kept : ∀ s ∈ (poolMachine T hash dir idleTime).visited
      (poolMachine T hash dir idleTime).init ls, WellFormed s ∧ s.OneCleaner := by
    refine (poolMachine T hash dir idleTime).inv_of_guarded
      (fun s l t both serial h => ⟨wellFormed_of_step h both.1,
        oneCleaner_step both.2 serial h⟩) ls ⟨wellFormed_empty dir idleTime, ?_⟩ serial
    intro a b i j _ here
    simp [poolMachine, Pool.empty] at here
  exact fun s mem => socketsSafe_of_oneCleaner (kept s mem).1 (kept s mem).2

/-- What `watch` does after the signal, once the process is gone. -/
def cleanedUp (id : AppId) : List Label :=
  [.killRemove id .watch, .act id .exit, .act id .wait, .watchRemove id, .unlink id]

/-- An app that dies, is cleaned up, and is started again. -/
theorem sockets_safe_blog :
    (plainPool.exec plainPool.init
      (startApp "blog".toList .everyDirectory ++ [.bind 0] ++ killedByWatch 0 ++ cleanedUp 0 ++
        startApp "blog".toList .everyDirectory ++ [.bind 1])).isSome = true ∧
    ∀ s ∈ plainPool.visited plainPool.init
      (startApp "blog".toList .everyDirectory ++ [.bind 0] ++ killedByWatch 0 ++ cleanedUp 0 ++
        startApp "blog".toList .everyDirectory ++ [.bind 1]), s.SocketsSafe :=
  ⟨by decide, sockets_safe_of_serial (by decide)⟩

/-- The app is restarted and looked up again while its old process drains; when
that one has exited, its `watch` removes the socket of the new one. -/
theorem unlinks_newcomer : ∃ s ∈ plainPool.visited plainPool.init
    (startApp "blog".toList .everyDirectory ++ [.bind 0] ++ restarted 0 ++
      startApp "blog".toList .everyDirectory ++ [.bind 1, .act 0 .exit, .act 0 .closeStdout,
        .act 0 (.watchWake true), .act 0 (.signal .watch false), .act 0 .wait,
        .watchRemove 0]), ¬ s.SocketsSafe := by
  have facts : (plainPool.exec plainPool.init
      (startApp "blog".toList .everyDirectory ++ [.bind 0] ++ restarted 0 ++
        startApp "blog".toList .everyDirectory ++ [.bind 1, .act 0 .exit, .act 0 .closeStdout,
          .act 0 (.watchWake true), .act 0 (.signal .watch false), .act 0 .wait,
          .watchRemove 0])).map
        (fun s => ((s.heap[0]?).map fun i => (i.watch, i.app.address),
          (s.heap[1]?).map fun i => (i.proc, i.app.address), s.apps.lookup "blog".toList)) =
      some (some (.unlink, "/home/u/.puma-dev/blog/tmp/puma-dev-4242.sock".toList),
        some (.running, "/home/u/.puma-dev/blog/tmp/puma-dev-4242.sock".toList), some 1) := by
    decide
  obtain ⟨s, visited, found⟩ := plainPool.exists_visited_of_map facts
  simp only [Prod.mk.injEq] at found
  obtain ⟨old, newcomer, registered⟩ := found
  obtain ⟨i, hereOld, fieldsOld⟩ := Option.map_eq_some_iff.mp old
  obtain ⟨j, hereNew, fieldsNew⟩ := Option.map_eq_some_iff.mp newcomer
  simp only [Prod.mk.injEq] at fieldsOld fieldsNew
  refine ⟨s, visited, fun safe => ?_⟩
  exact safe 0 i hereOld fieldsOld.1 1 j (by decide) hereNew ⟨_, registered⟩ fieldsNew.1
    (fieldsNew.2.trans fieldsOld.2.symm)

end Pool

end PumaDev
