import PumaDev.Dev.PoolLookup
import PumaDev.Dev.PoolProcesses

/-!
# When launches overlap

`sockets_safe_of_serial` asks that no app is launched for a socket that an earlier app
has still to clean up.  The rule cannot be relaxed for any launch: after each one that
breaks it there are steps that end with a `watch` about to remove the newcomer's socket
(`endangered_of_overlap`).

`Overlap` is the situation after such a launch.  Wherever the `watch` of the old app is,
its own steps and the end of the process lead it to `os.Remove`, and none of them
concerns the newcomer; there is one lemma for each place it can be in.
-/

namespace PumaDev

namespace Pool

variable {T : PrintTable} {hash : GoString → GoString} {dir : Filepath.CleanDir} {idleTime : ℤ}
  {s t : Pool} {a b : AppId} {i j : Instance}

/-- Some steps lead to a state in which `watch` is about to remove the socket of another
app that is in the pool with its process alive. -/
def Endangered (T : PrintTable) (hash : GoString → GoString) (dir : Filepath.CleanDir)
    (idleTime : ℤ) (s : Pool) : Prop :=
  ∃ ls t, (poolMachine T hash dir idleTime).exec s ls = some t ∧ ¬ t.SocketsSafe

theorem Endangered.of_step {l : Label} (h : s.step T hash l = some t)
    (later : Endangered T hash dir idleTime t) : Endangered T hash dir idleTime s := by
  obtain ⟨ls, u, runs, unsafe_⟩ := later
  exact ⟨l :: ls, u, (exec_cons h ls).trans runs, unsafe_⟩

/-- Two apps of one socket: `a` is the old one, and `b` is in the pool with its process
alive. -/
structure Overlap (s : Pool) (a b : AppId) (i : Instance) : Prop where
  apart : b ≠ a
  free : s.Free
  here : s.heap[a]? = some i
  rival : ∃ j, s.heap[b]? = some j ∧ j.proc = .running ∧ j.app.address = i.app.address
  listed : s.InPool b

namespace Overlap

/-! ## The steps of the old app -/

/-- The old app changes, and the keys of the newcomer stay. -/
theorem next (o : Overlap s a b i) {apps : Apps} (change : i.Change j)
    (kept : ∀ k, s.apps.lookup k = some b → apps.lookup k = some b) :
    Overlap { s with apps := apps, heap := s.heap.set a j } a b j where
  apart := o.apart
  free := o.free
  here := (getElem?_set_eq_some o.here).mpr (Or.inl ⟨rfl, rfl⟩)
  rival := by
    obtain ⟨r, there, running, same⟩ := o.rival
    refine ⟨r, (getElem?_set_eq_some o.here).mpr (Or.inr ⟨o.apart, there⟩), running, ?_⟩
    rw [same, change.evolves.app]
  listed := o.listed.imp kept

theorem act (o : Overlap s a b i) {action : Instance.Action} (h : i.act action = some j) :
    ∃ t, s.step T hash (.act a action) = some t ∧ Overlap t a b j :=
  ⟨_, modify_eq_some.mpr ⟨i, j, o.here, h, rfl⟩, o.next (.act action h) fun _ => id⟩

/-- Removing the old app leaves the newcomer where it is. -/
theorem lookup_drop (o : Overlap s a b i) (k : GoString) (found : s.apps.lookup k = some b) :
    (s.apps.drop a).lookup k = some b :=
  Registry.lookup_drop.mpr ⟨found, o.apart⟩

theorem killRemove (o : Overlap s a b i) (due : i.killPc .watch = some .remove) :
    ∃ t, s.step T hash (.killRemove a .watch) = some t ∧
      Overlap t a b (i.afterKill .watch) := by
  refine ⟨_, ?_, o.next (.killRemoved .watch due) o.lookup_drop⟩
  rw [step, if_pos o.free]
  exact modify_eq_some.mpr ⟨i, _, o.here, if_pos due, rfl⟩

theorem watchRemove (o : Overlap s a b i) (due : i.watch = .remove) :
    ∃ t, s.step T hash (.watchRemove a) = some t ∧ Overlap t a b i.watchRemoved := by
  refine ⟨_, ?_, o.next (.watchRemoved due) o.lookup_drop⟩
  rw [step, if_pos o.free]
  exact modify_eq_some.mpr ⟨i, _, o.here, if_pos due, rfl⟩

/-! ## The way to `os.Remove` -/

theorem at_unlink (o : Overlap s a b i) (here : i.watch = .unlink) :
    Endangered T hash dir idleTime s := by
  obtain ⟨r, there, running, same⟩ := o.rival
  exact ⟨[], s, rfl, fun safe => safe a i o.here here b r o.apart there o.listed running same⟩

theorem at_remove (o : Overlap s a b i) (here : i.watch = .remove) :
    Endangered T hash dir idleTime s := by
  obtain ⟨t, step, o'⟩ := o.watchRemove here
  exact .of_step step (o'.at_unlink rfl)

/-- `Command.Wait` returns once the process has exited, and it may exit at any time. -/
theorem at_wait (o : Overlap s a b i) (here : i.watch = .wait)
    (process : i.proc = .running ∨ i.proc = .exited) :
    Endangered T hash dir idleTime s := by
  have waited : ∀ {s : Pool} {i : Instance}, Overlap s a b i → i.watch = .wait →
      i.proc = .exited → Endangered T hash dir idleTime s := by
    intro s i o here exited
    have returns : i.act .wait = some { i with proc := .reaped, watch := .remove } :=
      if_pos ⟨here, exited⟩
    obtain ⟨t, step, o'⟩ := o.act returns
    exact .of_step step (o'.at_remove rfl)
  rcases process with running | exited
  · have exits : i.act .exit = some { i with proc := .exited } := if_pos running
    obtain ⟨t, step, o'⟩ := o.act exits
    exact .of_step step (waited o' here rfl)
  · exact waited o here exited

theorem at_killRemove (o : Overlap s a b i) (here : i.watch = .kill .remove)
    (process : i.proc = .running ∨ i.proc = .exited) :
    Endangered T hash dir idleTime s := by
  obtain ⟨t, step, o'⟩ := o.killRemove (Instance.killPc_watch.mpr here)
  exact .of_step step (o'.at_wait rfl process)

/-- A process that has not been waited for takes the signal. -/
theorem at_killSignal (o : Overlap s a b i) (here : i.watch = .kill .signal)
    (process : i.proc = .running ∨ i.proc = .exited) :
    Endangered T hash dir idleTime s := by
  have allowed : Instance.canSignal i.proc true = true := by
    rcases process with running | exited
    · rw [running]
      rfl
    · rw [exited]
      rfl
  have delivered : i.act (.signal .watch true) = some (i.signalled .watch) :=
    if_pos ⟨Instance.killPc_watch.mpr here, allowed⟩
  obtain ⟨t, step, o'⟩ := o.act delivered
  exact .of_step step (o'.at_killRemove rfl process)

/-- The output of the process may be closed at any time, and that wakes `watch`. -/
theorem at_select (o : Overlap s a b i) (here : i.watch = .select)
    (process : i.proc = .running ∨ i.proc = .exited) :
    Endangered T hash dir idleTime s := by
  have closes : i.act .closeStdout = some { i with stdoutClosed := true } := rfl
  obtain ⟨t, step, o'⟩ := o.act closes
  have wakes : ({ i with stdoutClosed := true } : Instance).act (.watchWake true) =
      some { i with stdoutClosed := true, watch := .kill .signal, watchErr := true } :=
    if_pos ⟨here, rfl⟩
  obtain ⟨u, step', o''⟩ := o'.act wakes
  exact .of_step step (.of_step step' (o''.at_killSignal rfl process))

/-- **An old app that has started and not cleaned up** is a danger to the newcomer. -/
theorem endangered (o : Overlap s a b i) (ok : i.Ok) (born : i.watch ≠ .unborn)
    (due : i.watch ≠ .done) : Endangered T hash dir idleTime s := by
  have unwaited := ok.unwaited
  cases here : i.watch with
  | unborn => exact absurd here born
  | done => exact absurd here due
  | unlink => exact o.at_unlink here
  | remove => exact o.at_remove here
  | wait => exact o.at_wait here (unwaited (by simp [here]) (by simp [here]) due)
  | select => exact o.at_select here (unwaited (by simp [here]) (by simp [here]) due)
  | kill pc =>
      have process := unwaited (by simp [here]) (by simp [here]) due
      cases pc with
      | signal => exact o.at_killSignal here process
      | remove => exact o.at_killRemove here process

end Overlap

/-! ## After a launch -/

/-- What is launched is a process. -/
theorem of_launched {os : Os} {app : App} (h : launched T s (.boot os) = some app) :
    ∃ request, s.holder = some (.booting request) ∧ (boot T os request).2 = .ok app ∧
      app.command.isSome := by
  simp only [launched] at h
  split at h
  · next request booting =>
      split at h
      · next booted =>
          obtain ⟨command, value⟩ := Option.ite_none_right_eq_some.mp h
          cases value
          exact ⟨request, booting, booted, command⟩
      · cases h
  · cases h

/-- **The rule is needed.**  Every launch for a socket that an earlier app has still to
clean up can be followed by steps after which `watch` is about to remove the socket of
the app that was launched. -/
theorem endangered_of_overlap {ls : List Label} {os : Os}
    (reached : (poolMachine T hash dir idleTime).exec
      (poolMachine T hash dir idleTime).init ls = some s)
    (overlap : ¬ s.SerialLaunch T (.boot os)) :
    ∃ rest t, (poolMachine T hash dir idleTime).exec s (.boot os :: rest) = some t ∧
      ¬ t.SocketsSafe := by
  have inv : WellFormed s :=
    wellFormed_of_visited ls s ((poolMachine T hash dir idleTime).mem_visited_of_exec reached)
  simp only [SerialLaunch, not_forall] at overlap
  obtain ⟨app, launches, i, mem, same, due⟩ := overlap
  obtain ⟨a, here⟩ := List.mem_iff_getElem?.mp mem
  obtain ⟨request, booting, booted, command⟩ := of_launched launches
  obtain ⟨r, isApp, process, runs⟩ :=
    @exec_boot T hash dir idleTime s request os app booting booted
  have inside : a < s.heap.length := (List.getElem?_eq_some_iff.mp here).1
  -- while the lock was held for this launch, no other app was being started
  have born : i.watch ≠ .unborn := by
    intro unborn
    obtain ⟨identity, left, starting, -⟩ := inv.unborn a i here unborn
    rw [booting] at starting
    cases starting
  have o : Overlap { s with
      apps := register s.apps request.identity s.heap.length
      heap := s.heap ++ [r]
      holder := none } a s.heap.length i :=
    { apart := Nat.ne_of_gt inside
      free := rfl
      here := (List.getElem?_append_left inside).trans here
      rival := by
        refine ⟨r, List.getElem?_concat_length, ?_, by rw [isApp, same]⟩
        rw [process, Instance.create, if_pos command]
      listed := ⟨request.identity.canonicalName,
        lookup_register_eq_some.mpr (Or.inl ⟨Or.inl rfl, rfl⟩)⟩ }
  obtain ⟨rest, u, runs', unsafe_⟩ := o.endangered (inv.ok a i here) born due
  refine ⟨((Instance.goroutines app).map (fun _ => .go) ++ [.register]) ++ rest, u, ?_, unsafe_⟩
  rw [← List.cons_append, Machine.exec_append, runs]
  exact runs'

end Pool

end PumaDev
