import PumaDev.Dev.App

/-!
# The life of one app

A launched app is a process and four goroutines under one tomb: `watch` waits
for the end of the process's output, then kills it, waits for it and cleans up;
`idleMonitor` and `restartMonitor` may kill it earlier; the readiness probe
closes `readyChan` once the socket answers.  `Instance` records how far each of
them is and what has become of the process.

* A program counter names the points a goroutine can be suspended at.  `Kill`
  has two: before the signal, and — the signal delivered — before the app is
  removed from the pool.
* `Instance.act` is every step that concerns the app alone, and `Acts` lists what
  each does.  The steps that need the pool's lock are the pool's.
* The process exits when it likes, and its output is closed when *they* like:
  the two are independent.

`Evolves` says what no step of any goroutine ever undoes; `Instance.Ok` says
what the goroutines' positions imply about the process.
-/

namespace PumaDev

/-- What has become of an app's process. -/
inductive Proc where
  /-- A proxy has no process. -/
  | noProcess
  | running
  /-- It has exited, and nobody has waited for it yet. -/
  | exited
  /-- `Command.Wait` has returned. -/
  | reaped
  deriving DecidableEq

/-- The points inside `App.Kill`. -/
inductive KillPc where
  /-- Before `Process.Signal(SIGTERM)`. -/
  | signal
  /-- The signal was delivered: before `pool.remove`. -/
  | remove
  deriving DecidableEq

/-- The points of `App.watch`. -/
inductive WatchPc where
  /-- Before `t.Go(app.watch)`. -/
  | unborn
  | select
  | kill (pc : KillPc)
  /-- Before `Command.Wait`. -/
  | wait
  /-- Before the last `pool.remove`. -/
  | remove
  /-- Before `os.Remove(a.Address())`. -/
  | unlink
  | done
  deriving DecidableEq

/-- The points of `idleMonitor` and of `restartMonitor`. -/
inductive MonitorPc where
  | unborn
  | select
  | kill (pc : KillPc)
  | done
  deriving DecidableEq

/-- The points of the readiness probe. -/
inductive ProbePc where
  | unborn
  | select
  | done
  deriving DecidableEq

/-- The goroutines that call `App.Kill`. -/
inductive Killer where
  | watch
  | idle
  | restart
  deriving DecidableEq

/-- The four goroutines of a launched app, in the order they are started. -/
inductive Goroutine where
  | watch
  | idle
  | restart
  | probe
  deriving DecidableEq

/-- An app with everything that changes during its life. -/
structure Instance where
  app : App
  proc : Proc
  /-- The reader of the app's output has come to its end. -/
  stdoutClosed : Bool
  /-- SIGTERM was delivered to the process. -/
  sigterm : Bool
  /-- The tomb was killed: by `Purge`, or by a goroutine that failed. -/
  killed : Bool
  /-- `readyChan` is closed. -/
  ready : Bool
  lastUse : ℤ
  watch : WatchPc
  /-- `watch` was woken by the end of the output, and will return an error. -/
  watchErr : Bool
  idle : MonitorPc
  restart : MonitorPc
  probe : ProbePc
  /-- The goroutine of a proxy, which only waits for the tomb, is still there. -/
  parked : Bool
  deriving DecidableEq

namespace Instance

/-- All goroutines of the tomb have ended. -/
def Dead (i : Instance) : Prop :=
  i.watch = .done ∧ i.idle = .done ∧ i.restart = .done ∧ i.probe = .done ∧ i.parked = false

instance (i : Instance) : Decidable i.Dead := inferInstanceAs (Decidable (_ ∧ _))

/-- `t.Dying()` is closed. -/
def Dying (i : Instance) : Prop := i.killed = true ∨ i.Dead

instance (i : Instance) : Decidable i.Dying := inferInstanceAs (Decidable (_ ∨ _))

/-- A new app at the time `now`, before any of its goroutines is started. -/
def create (app : App) (now : ℤ) : Instance where
  app := app
  proc := if app.command.isSome then .running else .noProcess
  stdoutClosed := false
  sigterm := false
  killed := false
  -- `readProxy` closes `readyChan` itself
  ready := !app.command.isSome
  lastUse := now
  watch := if app.command.isSome then .unborn else .done
  watchErr := false
  idle := if app.command.isSome then .unborn else .done
  restart := if app.command.isSome then .unborn else .done
  probe := if app.command.isSome then .unborn else .done
  parked := !app.command.isSome

/-- The goroutines that are left to start when an app has been created. -/
def goroutines (app : App) : List Goroutine :=
  if app.command.isSome then [.watch, .idle, .restart, .probe] else []

/-- `app.t.Go`. -/
def go (i : Instance) : Goroutine → Option Instance
  | .watch => if i.watch = .unborn then some { i with watch := .select } else none
  | .idle => if i.idle = .unborn then some { i with idle := .select } else none
  | .restart => if i.restart = .unborn then some { i with restart := .select } else none
  | .probe => if i.probe = .unborn then some { i with probe := .select } else none

/-! ### Inside `Kill` -/

/-- Where a goroutine is inside `Kill`, if it is. -/
def killPc (i : Instance) : Killer → Option KillPc
  | .watch => match i.watch with | .kill pc => some pc | _ => none
  | .idle => match i.idle with | .kill pc => some pc | _ => none
  | .restart => match i.restart with | .kill pc => some pc | _ => none

@[simp] theorem killPc_watch {i : Instance} {pc : KillPc} :
    i.killPc .watch = some pc ↔ i.watch = .kill pc := by
  cases h : i.watch <;> simp [killPc, h]

@[simp] theorem killPc_idle {i : Instance} {pc : KillPc} :
    i.killPc .idle = some pc ↔ i.idle = .kill pc := by
  cases h : i.idle <;> simp [killPc, h]

@[simp] theorem killPc_restart {i : Instance} {pc : KillPc} :
    i.killPc .restart = some pc ↔ i.restart = .kill pc := by
  cases h : i.restart <;> simp [killPc, h]

/-- The signal was delivered. -/
def signalled (i : Instance) : Killer → Instance
  | .watch => { i with sigterm := true, watch := .kill .remove }
  | .idle => { i with sigterm := true, idle := .kill .remove }
  | .restart => { i with sigterm := true, restart := .kill .remove }

/-- `Kill` has returned. -/
def afterKill (i : Instance) : Killer → Instance
  | .watch => { i with watch := .wait }
  | .idle => { i with idle := .done }
  | .restart => { i with restart := .select }

@[simp] theorem proc_signalled (i : Instance) (killer : Killer) :
    (i.signalled killer).proc = i.proc := by
  cases killer <;> rfl

@[simp] theorem sigterm_signalled (i : Instance) (killer : Killer) :
    (i.signalled killer).sigterm = true := by
  cases killer <;> rfl

@[simp] theorem watch_signalled (i : Instance) (killer : Killer) :
    (i.signalled killer).watch = if killer = .watch then .kill .remove else i.watch := by
  cases killer <;> rfl

@[simp] theorem proc_afterKill (i : Instance) (killer : Killer) :
    (i.afterKill killer).proc = i.proc := by
  cases killer <;> rfl

@[simp] theorem sigterm_afterKill (i : Instance) (killer : Killer) :
    (i.afterKill killer).sigterm = i.sigterm := by
  cases killer <;> rfl

@[simp] theorem watch_afterKill (i : Instance) (killer : Killer) :
    (i.afterKill killer).watch = if killer = .watch then .wait else i.watch := by
  cases killer <;> rfl

@[simp] theorem idle_afterKill (i : Instance) (killer : Killer) :
    (i.afterKill killer).idle = if killer = .idle then .done else i.idle := by
  cases killer <;> rfl

/-- A goroutine that has returned from `Kill` is not in it; the others are where they were. -/
@[simp] theorem killPc_afterKill (i : Instance) (killer other : Killer) :
    (i.afterKill killer).killPc other = if other = killer then none else i.killPc other := by
  cases killer <;> cases other <;> rfl

/-! ### Steps of the app alone -/

/-- A step that concerns nothing but one app. -/
inductive Action where
  /-- The process exits. -/
  | exit
  /-- Its output is closed. -/
  | closeStdout
  /-- `watch` is woken: by the end of the output, or by the tomb. -/
  | watchWake (eof : Bool)
  /-- `Kill` sends its signal, with the result it got. -/
  | signal (killer : Killer) (delivered : Bool)
  /-- `Command.Wait` returns. -/
  | wait
  /-- `idleMonitor` ends with the tomb. -/
  | idleDying
  /-- `restart.txt` was touched. -/
  | restartTouched
  /-- `restartMonitor` ends with the tomb. -/
  | restartDying
  /-- `restartMonitor` fails, and kills the tomb. -/
  | restartFails
  /-- The probe reached the socket. -/
  | probeReady
  /-- The probe ends with the tomb, and reports an error to it. -/
  | probeDying
  /-- The goroutine of a proxy ends with the tomb. -/
  | unpark
  deriving DecidableEq

/-- A signal reaches a process that runs, never one that has been waited for;
one that has exited may still take it. -/
def canSignal : Proc → Bool → Bool
  | .noProcess, _ => false
  | .running, delivered => delivered
  | .exited, _ => true
  | .reaped, delivered => !delivered

/-- One step of the app alone; `none` when it is not enabled. -/
def act (i : Instance) : Action → Option Instance
  | .exit => if i.proc = .running then some { i with proc := .exited } else none
  | .closeStdout => some { i with stdoutClosed := true }
  | .watchWake eof =>
      if i.watch = .select ∧ (if eof then i.stdoutClosed = true else i.Dying) then
        some { i with watch := .kill .signal, watchErr := eof }
      else none
  | .signal killer delivered =>
      if i.killPc killer = some .signal ∧ canSignal i.proc delivered then
        some (if delivered then i.signalled killer else i.afterKill killer)
      else none
  | .wait =>
      if i.watch = .wait ∧ i.proc = .exited then
        some { i with proc := .reaped, watch := .remove }
      else none
  | .idleDying =>
      if i.idle = .select ∧ i.Dying then some { i with idle := .done } else none
  | .restartTouched =>
      if i.restart = .select then some { i with restart := .kill .signal } else none
  | .restartDying =>
      if i.restart = .select ∧ i.Dying then some { i with restart := .done } else none
  | .restartFails =>
      if i.restart = .select then some { i with restart := .done, killed := true } else none
  | .probeReady =>
      if i.probe = .select then some { i with probe := .done, ready := true } else none
  | .probeDying =>
      if i.probe = .select ∧ i.Dying then
        some { i with probe := .done, killed := true }
      else none
  | .unpark =>
      if i.parked = true ∧ i.Dying then some { i with parked := false } else none

/-- **What an app alone does**, action by action. -/
inductive Acts (i : Instance) : Action → Instance → Prop
  | exited (running : i.proc = .running) : Acts i .exit { i with proc := .exited }
  | closed : Acts i .closeStdout { i with stdoutClosed := true }
  | eof (waiting : i.watch = .select) (closed : i.stdoutClosed = true) :
      Acts i (.watchWake true) { i with watch := .kill .signal, watchErr := true }
  | woken (waiting : i.watch = .select) (dying : i.Dying) :
      Acts i (.watchWake false) { i with watch := .kill .signal, watchErr := false }
  | sent {killer : Killer} (at_ : i.killPc killer = some .signal)
      (there : canSignal i.proc true = true) :
      Acts i (.signal killer true) (i.signalled killer)
  | unsent {killer : Killer} (at_ : i.killPc killer = some .signal)
      (gone : canSignal i.proc false = true) :
      Acts i (.signal killer false) (i.afterKill killer)
  | reaped (waiting : i.watch = .wait) (exited : i.proc = .exited) :
      Acts i .wait { i with proc := .reaped, watch := .remove }
  | idleDied (waiting : i.idle = .select) (dying : i.Dying) :
      Acts i .idleDying { i with idle := .done }
  | touched (waiting : i.restart = .select) :
      Acts i .restartTouched { i with restart := .kill .signal }
  | restartDied (waiting : i.restart = .select) (dying : i.Dying) :
      Acts i .restartDying { i with restart := .done }
  | restartFailed (waiting : i.restart = .select) :
      Acts i .restartFails { i with restart := .done, killed := true }
  | reached (waiting : i.probe = .select) :
      Acts i .probeReady { i with probe := .done, ready := true }
  | probeDied (waiting : i.probe = .select) (dying : i.Dying) :
      Acts i .probeDying { i with probe := .done, killed := true }
  | unparked (parked : i.parked = true) (dying : i.Dying) :
      Acts i .unpark { i with parked := false }

/-- Every action does what `Acts` lists. -/
theorem acts_of_act {i j : Instance} {a : Action} (h : i.act a = some j) : Acts i a j := by
  cases a with
  | closeStdout =>
      cases h
      exact .closed
  | watchWake eof =>
      obtain ⟨⟨waiting, reason⟩, result⟩ := Option.ite_none_right_eq_some.mp h
      cases result
      cases eof with
      | true => exact .eof waiting reason
      | false => exact .woken waiting reason
  | signal killer delivered =>
      obtain ⟨⟨at_, allowed⟩, result⟩ := Option.ite_none_right_eq_some.mp h
      cases result
      cases delivered with
      | true => exact .sent at_ allowed
      | false => exact .unsent at_ allowed
  | exit =>
      obtain ⟨running, result⟩ := Option.ite_none_right_eq_some.mp h
      cases result
      exact .exited running
  | wait =>
      obtain ⟨⟨waiting, exited⟩, result⟩ := Option.ite_none_right_eq_some.mp h
      cases result
      exact .reaped waiting exited
  | idleDying =>
      obtain ⟨⟨waiting, dying⟩, result⟩ := Option.ite_none_right_eq_some.mp h
      cases result
      exact .idleDied waiting dying
  | restartTouched =>
      obtain ⟨waiting, result⟩ := Option.ite_none_right_eq_some.mp h
      cases result
      exact .touched waiting
  | restartDying =>
      obtain ⟨⟨waiting, dying⟩, result⟩ := Option.ite_none_right_eq_some.mp h
      cases result
      exact .restartDied waiting dying
  | restartFails =>
      obtain ⟨waiting, result⟩ := Option.ite_none_right_eq_some.mp h
      cases result
      exact .restartFailed waiting
  | probeReady =>
      obtain ⟨waiting, result⟩ := Option.ite_none_right_eq_some.mp h
      cases result
      exact .reached waiting
  | probeDying =>
      obtain ⟨⟨waiting, dying⟩, result⟩ := Option.ite_none_right_eq_some.mp h
      cases result
      exact .probeDied waiting dying
  | unpark =>
      obtain ⟨⟨parked, dying⟩, result⟩ := Option.ite_none_right_eq_some.mp h
      cases result
      exact .unparked parked dying

/-- **What the start of a goroutine does.** -/
inductive Goes (i : Instance) : Goroutine → Instance → Prop
  | watch (unborn : i.watch = .unborn) : Goes i .watch { i with watch := .select }
  | idle (unborn : i.idle = .unborn) : Goes i .idle { i with idle := .select }
  | restart (unborn : i.restart = .unborn) : Goes i .restart { i with restart := .select }
  | probe (unborn : i.probe = .unborn) : Goes i .probe { i with probe := .select }

/-- Every start does what `Goes` lists. -/
theorem goes_of_go {i j : Instance} {g : Goroutine} (h : i.go g = some j) : Goes i g j := by
  cases g <;>
  · obtain ⟨unborn, result⟩ := Option.ite_none_right_eq_some.mp h
    cases result
    constructor
    exact unborn

/-! ### The steps that hold the pool's lock, or end the tomb -/

/-- `maybeIdle` has returned true. -/
def idleFired (i : Instance) : Instance := { i with idle := .kill .signal }

/-- The last `pool.remove` of `watch` has returned. -/
def watchRemoved (i : Instance) : Instance := { i with watch := .unlink }

/-- `watch` has returned, and told the tomb of its error. -/
def watchDone (i : Instance) : Instance :=
  { i with watch := .done, killed := i.killed || i.watchErr }

/-- `t.Kill(nil)`. -/
def kill (i : Instance) : Instance := { i with killed := true }

/-- `WaitTilReady` has returned nil at the time `now`. -/
def used (i : Instance) (now : ℤ) : Instance := { i with lastUse := now }

/-! ## What a life never undoes -/

/-- What holds between an app and the same app later on. -/
structure Evolves (i j : Instance) : Prop where
  app : j.app = i.app
  proc : i.proc ≠ .running → j.proc ≠ .running
  sigterm : i.sigterm = true → j.sigterm = true
  killed : i.killed = true → j.killed = true
  born : i.watch ≠ .unborn → j.watch ≠ .unborn
  cleaned : i.watch = .done → j.watch = .done
  /-- An idle kill that is due stays due until the signal is sent. -/
  idleKill : i.idle = .kill .signal →
    j.idle = .kill .signal ∨ j.sigterm = true ∨ j.proc ≠ .running

theorem Evolves.refl (i : Instance) : Evolves i i :=
  ⟨rfl, id, id, id, id, id, Or.inl⟩

/-- Nothing is undone where neither the process nor `watch` nor `idleMonitor` changes, and
the tomb is not revived. -/
theorem Evolves.of_same {i j : Instance} (app : j.app = i.app) (proc : j.proc = i.proc)
    (sigterm : j.sigterm = i.sigterm) (watch : j.watch = i.watch) (idle : j.idle = i.idle)
    (killed : i.killed = true → j.killed = true) : Evolves i j where
  app := app
  proc := by rw [proc]; exact id
  sigterm := by rw [sigterm]; exact id
  killed := killed
  born := by rw [watch]; exact id
  cleaned := by rw [watch]; exact id
  idleKill due := Or.inl (idle.trans due)

/-- What the positions of the goroutines imply. -/
structure Ok (i : Instance) : Prop where
  /-- Whoever is about to remove the app after a signal has sent one. -/
  signalled : ∀ killer, i.killPc killer = some .remove → i.sigterm = true
  /-- Once `watch` has waited for the process, it is gone. -/
  waited : i.watch = .remove ∨ i.watch = .unlink ∨ i.watch = .done → i.proc ≠ .running
  /-- Nobody else waits for it. -/
  unwaited : i.watch ≠ .remove → i.watch ≠ .unlink → i.watch ≠ .done →
    i.proc = .running ∨ i.proc = .exited

/-- A new app is in order. -/
theorem ok_create (app : App) (now : ℤ) : (create app now).Ok where
  signalled killer h := by
    cases killer <;> cases launched : app.command.isSome <;>
      simp [create, killPc, launched] at h
  waited h := by
    cases launched : app.command.isSome <;> simp [create, launched] at h ⊢
  unwaited := by
    cases launched : app.command.isSome <;> simp [create, launched]

/-- The order is kept where no position of a killer changes, and neither the process nor
what was sent to it. -/
theorem Ok.of_same {i j : Instance} (ok : i.Ok) (watch : j.watch = i.watch)
    (idle : j.idle = i.idle) (restart : j.restart = i.restart) (proc : j.proc = i.proc)
    (sigterm : j.sigterm = i.sigterm) : j.Ok := by
  have same : ∀ killer, j.killPc killer = i.killPc killer := by
    intro killer
    cases killer <;> simp only [killPc, watch, idle, restart]
  refine ⟨fun killer at_ => ?_, ?_, ?_⟩
  · rw [sigterm]
    exact ok.signalled killer (same killer ▸ at_)
  · rw [watch, proc]
    exact ok.waited
  · rw [watch, proc]
    exact ok.unwaited

/-- `watch` inside `Kill` has not waited for the process. -/
theorem Ok.unwaited_of_killing {i : Instance} (ok : i.Ok) {pc : KillPc}
    (at_ : i.killPc .watch = some pc) : i.proc = .running ∨ i.proc = .exited := by
  have watch : i.watch = .kill pc := killPc_watch.mp at_
  refine ok.unwaited ?_ ?_ ?_ <;> simp [watch]

/-- The order is kept when a signal has been delivered. -/
theorem Ok.of_signalled {i : Instance} (ok : i.Ok) {killer : Killer} {pc : KillPc}
    (at_ : i.killPc killer = some pc) : (i.signalled killer).Ok where
  signalled other _ := sigterm_signalled i killer
  waited := by
    by_cases isWatch : killer = .watch
    · simp [isWatch]
    · simpa [isWatch] using ok.waited
  unwaited := by
    by_cases isWatch : killer = .watch
    · subst isWatch
      simpa using ok.unwaited_of_killing at_
    · simpa [isWatch] using ok.unwaited

/-- The order is kept when `Kill` returns. -/
theorem Ok.of_afterKill {i : Instance} (ok : i.Ok) {killer : Killer} {pc : KillPc}
    (at_ : i.killPc killer = some pc) : (i.afterKill killer).Ok where
  signalled other removing := by
    rw [killPc_afterKill] at removing
    split at removing
    · cases removing
    · rw [sigterm_afterKill]
      exact ok.signalled other removing
  waited := by
    by_cases isWatch : killer = .watch
    · simp [isWatch]
    · simpa [isWatch] using ok.waited
  unwaited := by
    by_cases isWatch : killer = .watch
    · subst isWatch
      simpa using ok.unwaited_of_killing at_
    · simpa [isWatch] using ok.unwaited

/-- Delivering a signal undoes nothing. -/
theorem evolves_signalled {i : Instance} {killer : Killer} {pc : KillPc}
    (at_ : i.killPc killer = some pc) : Evolves i (i.signalled killer) where
  app := by cases killer <;> rfl
  proc := by simp
  sigterm _ := sigterm_signalled i killer
  killed := by cases killer <;> exact id
  born := by by_cases isWatch : killer = .watch <;> simp [isWatch]
  cleaned done := by
    by_cases isWatch : killer = .watch
    · subst isWatch
      rw [killPc_watch.mp at_] at done
      cases done
    · simpa [isWatch] using done
  idleKill _ := Or.inr (Or.inl (sigterm_signalled i killer))

/-- Nor does returning from `Kill`, if an idle kill that was due and is no longer has found
the process gone. -/
theorem evolves_afterKill {i : Instance} {killer : Killer} {pc : KillPc}
    (at_ : i.killPc killer = some pc)
    (due : i.idle = .kill .signal → killer = .idle → i.proc ≠ .running) :
    Evolves i (i.afterKill killer) where
  app := by cases killer <;> rfl
  proc := by simp
  sigterm := by simp
  killed := by cases killer <;> exact id
  born := by by_cases isWatch : killer = .watch <;> simp [isWatch]
  cleaned done := by
    by_cases isWatch : killer = .watch
    · subst isWatch
      rw [killPc_watch.mp at_] at done
      cases done
    · simpa [isWatch] using done
  idleKill waiting := by
    by_cases isIdle : killer = .idle
    · exact Or.inr (Or.inr (by simpa using due waiting isIdle))
    · exact Or.inl (by simpa [isIdle] using waiting)

/-- **One step of an app alone.** -/
theorem act_evolves {i j : Instance} {a : Action} (h : i.act a = some j) : Evolves i j := by
  cases acts_of_act h with
  | closed | touched | restartDied | reached | unparked =>
      exact .of_same rfl rfl rfl rfl rfl id
  | restartFailed | probeDied => exact .of_same rfl rfl rfl rfl rfl fun _ => rfl
  | sent at_ => exact evolves_signalled at_
  | unsent at_ gone =>
      refine evolves_afterKill at_ fun _ _ running => ?_
      simp [running, canSignal] at gone
  | exited | eof | woken | reaped | idleDied => constructor <;> simp_all

theorem act_ok {i j : Instance} {a : Action} (h : i.act a = some j) (ok : i.Ok) : j.Ok := by
  have atWatch := ok.signalled .watch
  have atIdle := ok.signalled .idle
  have atRestart := ok.signalled .restart
  have waited := ok.waited
  have unwaited := ok.unwaited
  cases acts_of_act h with
  | closed | reached | probeDied | unparked => exact ok.of_same rfl rfl rfl rfl rfl
  | sent at_ => exact ok.of_signalled at_
  | unsent at_ => exact ok.of_afterKill at_
  | exited | eof | woken | reaped | idleDied | touched | restartDied | restartFailed =>
      refine ⟨fun killer => ?_, ?_, ?_⟩
      · cases killer <;> simp_all
      · simp_all
      · simp_all

/-- Every way an app can change. -/
inductive Change (i : Instance) : Instance → Prop where
  | act {j : Instance} (a : Action) : i.act a = some j → Change i j
  | go {j : Instance} (g : Goroutine) : i.go g = some j → Change i j
  | killRemoved (killer : Killer) : i.killPc killer = some .remove → Change i (i.afterKill killer)
  | idleFired : i.idle = .select → Change i i.idleFired
  | watchRemoved : i.watch = .remove → Change i i.watchRemoved
  | watchDone : i.watch = .unlink → Change i i.watchDone
  | kill : Change i i.kill
  | used (now : ℤ) : Change i (i.used now)

/-- **No change undoes anything.** -/
theorem Change.evolves {i j : Instance} (h : Change i j) : Evolves i j := by
  cases h with
  | act a h => exact act_evolves h
  | go g h => cases goes_of_go h <;> constructor <;> simp_all
  | killRemoved killer h =>
      refine evolves_afterKill h fun waiting isIdle => ?_
      subst isIdle
      rw [killPc_idle.mp h] at waiting
      cases waiting
  | idleFired h => constructor <;> simp_all [Instance.idleFired]
  | watchRemoved h => constructor <;> simp_all [Instance.watchRemoved]
  | watchDone h => constructor <;> simp_all [Instance.watchDone]
  | kill => exact .of_same rfl rfl rfl rfl rfl fun _ => rfl
  | used now => exact .of_same rfl rfl rfl rfl rfl id

/-- **Every change keeps the positions in order.** -/
theorem Change.ok {i j : Instance} (h : Change i j) (ok : i.Ok) : j.Ok := by
  have atWatch := ok.signalled .watch
  have atIdle := ok.signalled .idle
  have atRestart := ok.signalled .restart
  have waited := ok.waited
  have unwaited := ok.unwaited
  cases h with
  | act a h => exact act_ok h ok
  | go g h =>
      cases goes_of_go h <;>
        exact ⟨fun killer => by cases killer <;> simp_all, by simp_all, by simp_all⟩
  | killRemoved killer h => exact ok.of_afterKill h
  | idleFired h =>
      exact ⟨fun killer => by cases killer <;> simp_all [Instance.idleFired],
        by simp_all [Instance.idleFired], by simp_all [Instance.idleFired]⟩
  | watchRemoved h =>
      exact ⟨fun killer => by cases killer <;> simp_all [Instance.watchRemoved],
        by simp_all [Instance.watchRemoved], by simp_all [Instance.watchRemoved]⟩
  | watchDone h =>
      exact ⟨fun killer => by cases killer <;> simp_all [Instance.watchDone],
        by simp_all [Instance.watchDone], by simp_all [Instance.watchDone]⟩
  | kill | used => exact ok.of_same rfl rfl rfl rfl rfl

/-- A goroutine that has ended does nothing, so an app that is dead stays dead. -/
theorem Change.dead {i j : Instance} (h : i.Change j) (dead : i.Dead) : j.Dead := by
  obtain ⟨watch, idle, restart, probe, parked⟩ := dead
  cases h with
  | act a h =>
      cases acts_of_act h with
      | closed | exited => exact ⟨watch, idle, restart, probe, parked⟩
      | @sent killer | @unsent killer => cases killer <;> simp_all
      | _ => simp_all
  | go g h => cases goes_of_go h <;> simp_all
  | killRemoved killer h => cases killer <;> simp_all
  | idleFired h | watchRemoved h | watchDone h => simp_all
  | kill | used => exact ⟨watch, idle, restart, probe, parked⟩

/-- **A tomb that is dying stays so.** -/
theorem Change.dying {i j : Instance} (h : i.Change j) (dying : i.Dying) : j.Dying := by
  rcases dying with killed | dead
  · exact Or.inl (h.evolves.killed killed)
  · exact Or.inr (h.dead dead)

/-- **`readyChan` stays closed.** -/
theorem Change.ready {i j : Instance} (h : i.Change j) (ready : i.ready = true) :
    j.ready = true := by
  cases h with
  | act a h =>
      cases acts_of_act h with
      | @sent killer | @unsent killer => cases killer <;> exact ready
      | reached => rfl
      | _ => exact ready
  | go g h => cases goes_of_go h <;> exact ready
  | killRemoved killer => cases killer <;> exact ready
  | idleFired | watchRemoved | watchDone | kill | used => exact ready

/-- An app after a step: changed, or as it was. -/
def Next (i j : Instance) : Prop := j = i ∨ i.Change j

theorem Next.evolves {i j : Instance} (h : i.Next j) : Evolves i j := by
  rcases h with rfl | change
  · exact .refl _
  · exact change.evolves

theorem Next.dying {i j : Instance} (h : i.Next j) (dying : i.Dying) : j.Dying := by
  rcases h with rfl | change
  · exact dying
  · exact change.dying dying

theorem Next.ready {i j : Instance} (h : i.Next j) (ready : i.ready = true) :
    j.ready = true := by
  rcases h with rfl | change
  · exact ready
  · exact change.ready ready

theorem Next.ok {i j : Instance} (h : i.Next j) (ok : i.Ok) : j.Ok := by
  rcases h with rfl | change
  · exact ok
  · exact change.ok ok

end Instance

end PumaDev
