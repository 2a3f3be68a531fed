import PumaDev.Dev.PoolLaunch
import PumaDev.Dev.PoolPurge
import PumaDev.Lib.Progress

/-!
# An app that is told to go can go

An app is told to go in many ways: `restart.txt` is touched, it has been idle, the tomb is
killed by a purge or by a goroutine that fails; or its process ends by itself, or closes its
output.  `watch` then has to notice, wait for the process, remove the app from the pool, and
end the tomb, on which the other goroutines wait; and for most of that it needs the lock, which
may be with a lookup that is starting an app.

`Instance.left` counts what an app has left to do.  `exists_nearer` says that as long as the
lock is free some goroutine can make it smaller, and `Orderly.holder_goes` that the lookup that
holds the lock comes to its end.  So no interleaving has left such an app stuck: `goes_for_good`
brings it to its end from every state of every run, by steps that do nothing to any other
app's process, and from there it never comes back.
-/

namespace PumaDev

/-! ## One app -/

/-- How many steps `watch` has left. -/
def WatchPc.left : WatchPc → ℕ
  | unborn => 7
  | select => 6
  | kill .signal => 5
  | kill .remove => 4
  | wait => 3
  | remove => 2
  | unlink => 1
  | done => 0

/-- How many steps a monitor has left, once the tomb is dying. -/
def MonitorPc.left : MonitorPc → ℕ
  | unborn => 4
  | kill .signal => 3
  | kill .remove => 2
  | select => 1
  | done => 0

/-- The same of the probe. -/
def ProbePc.left : ProbePc → ℕ
  | unborn => 2
  | select => 1
  | done => 0

namespace Instance

/-- How many steps an app has left until it is dead. -/
def left (i : Instance) : ℕ :=
  (if i.proc = .running then 1 else 0) + (if i.stdoutClosed = true then 0 else 1) +
    i.watch.left + i.idle.left + i.restart.left + i.probe.left +
    if i.parked = true then 1 else 0

/-- How the goroutines of an app depend on its process: `watch` waits for it only after SIGTERM
was delivered to it, or it has exited, and what is behind that has seen it reaped; `watch` was
woken by the end of the output or by the tomb, and leaves a dying tomb behind; and nobody is
inside `Kill` for a proxy. -/
structure Told (i : Instance) : Prop where
  waits : i.watch = .wait → i.sigterm = true ∨ i.proc ≠ .running
  proxy : i.proc = .noProcess → i.idle = .done ∧ i.restart = .done
  launched : i.app.command.isSome = true → i.proc ≠ .noProcess
  reaped : i.proc ≠ .noProcess → i.watch = .remove ∨ i.watch = .unlink ∨ i.watch = .done →
    i.proc = .reaped
  woken : i.proc ≠ .noProcess → i.watch ≠ .unborn → i.watch ≠ .select →
    i.watchErr = true ∨ i.killed = true
  ended : i.proc ≠ .noProcess → i.watch = .done → i.killed = true

theorem told_create (app : App) (now : ℤ) : (create app now).Told where
  waits h := by cases launched : app.command.isSome <;> simp [create, launched] at h
  proxy h := by cases launched : app.command.isSome <;> simp [create, launched] at h ⊢
  launched h := by simp_all [create]
  reaped := by cases launched : app.command.isSome <;> simp [create, launched]
  woken := by cases launched : app.command.isSome <;> simp [create, launched]
  ended := by cases launched : app.command.isSome <;> simp [create, launched]

/-- It is kept where neither `watch` nor the process changes, and no monitor of a proxy does. -/
theorem Told.of_same {i j : Instance} (told : i.Told) (app : j.app = i.app)
    (proc : j.proc = i.proc) (watch : j.watch = i.watch) (watchErr : j.watchErr = i.watchErr)
    (sigterm : i.sigterm = true → j.sigterm = true) (killed : i.killed = true → j.killed = true)
    (monitors : i.idle = .done → i.restart = .done → j.idle = .done ∧ j.restart = .done) :
    j.Told where
  waits at_ := by
    rw [proc]
    exact (told.waits (watch ▸ at_)).imp_left sigterm
  proxy none_ := by
    obtain ⟨idle, restart⟩ := told.proxy (proc ▸ none_)
    exact monitors idle restart
  launched command := by
    rw [proc]
    exact told.launched (app ▸ command)
  reaped process past := by
    rw [proc] at process ⊢
    exact told.reaped process (watch ▸ past)
  woken process born awake := by
    rw [proc] at process
    rw [watch] at born awake
    rw [watchErr]
    exact (told.woken process born awake).imp_right killed
  ended process done := killed (told.ended (proc ▸ process) (watch ▸ done))

/-- It is kept when `watch` goes on to a point before it waits for the process. -/
theorem Told.of_watch {i j : Instance} (told : i.Told) (app : j.app = i.app)
    (proc : j.proc = i.proc) (idle : j.idle = i.idle) (restart : j.restart = i.restart)
    (waits : j.watch = .wait → j.sigterm = true ∨ i.proc ≠ .running)
    (before : j.watch ≠ .remove ∧ j.watch ≠ .unlink ∧ j.watch ≠ .done)
    (woken : j.watch ≠ .unborn → j.watch ≠ .select → j.watchErr = true ∨ j.killed = true) :
    j.Told where
  waits at_ := by
    rw [proc]
    exact waits at_
  proxy none_ := by
    rw [idle, restart]
    exact told.proxy (proc ▸ none_)
  launched command := by
    rw [proc]
    exact told.launched (app ▸ command)
  reaped _ past := by
    rcases past with at_ | at_ | at_
    · exact absurd at_ before.1
    · exact absurd at_ before.2.1
    · exact absurd at_ before.2.2
  woken _ := woken
  ended _ done := absurd done before.2.2

/-- Inside `Kill`, `watch` has been woken. -/
theorem Told.of_killing {i : Instance} (told : i.Told) {pc : KillPc}
    (at_ : i.killPc .watch = some pc) (process : i.proc ≠ .noProcess) :
    i.watchErr = true ∨ i.killed = true :=
  told.woken process (by simp [killPc_watch.mp at_]) (by simp [killPc_watch.mp at_])

/-- It is kept when `Kill` returns behind a signal, or in front of a process that has ended. -/
theorem Told.of_afterKill {i : Instance} (told : i.Told) {killer : Killer} {pc : KillPc}
    (at_ : i.killPc killer = some pc) (process : i.proc ≠ .noProcess)
    (due : i.sigterm = true ∨ i.proc ≠ .running) : (i.afterKill killer).Told := by
  cases killer with
  | watch =>
      exact told.of_watch rfl rfl rfl rfl (fun _ => due) (by simp) fun _ _ =>
        told.of_killing at_ process
  | idle => exact told.of_same rfl rfl rfl rfl id id fun _ restart => ⟨rfl, restart⟩
  | restart =>
      refine told.of_same rfl rfl rfl rfl id id fun _ restart => ?_
      rw [killPc_restart.mp at_] at restart
      cases restart

/-- A step of the app alone. -/
theorem Told.act {i j : Instance} {a : Action} (told : i.Told) (h : i.act a = some j) :
    j.Told := by
  cases acts_of_act h with
  | @sent killer at_ there =>
      have process : i.proc ≠ .noProcess := by
        intro none_
        simp [none_, canSignal] at there
      cases killer with
      | watch =>
          exact told.of_watch rfl rfl rfl rfl (fun waiting => by cases waiting) (by simp)
            fun _ _ => told.of_killing at_ process
      | idle =>
          refine told.of_same rfl rfl rfl rfl (fun _ => rfl) id fun idle _ => ?_
          rw [killPc_idle.mp at_] at idle
          cases idle
      | restart =>
          refine told.of_same rfl rfl rfl rfl (fun _ => rfl) id fun _ restart => ?_
          rw [killPc_restart.mp at_] at restart
          cases restart
  | @unsent killer at_ gone =>
      have process : i.proc ≠ .noProcess := by
        intro none_
        simp [none_, canSignal] at gone
      have exited : i.proc ≠ .running := by
        intro running
        simp [running, canSignal] at gone
      exact told.of_afterKill at_ process (.inr exited)
  | eof waiting =>
      exact told.of_watch rfl rfl rfl rfl (fun waits => by cases waits) (by simp)
        fun _ _ => .inl rfl
  | woken waiting dying =>
      -- a tomb that is dead has no `watch` that waits
      have killed : i.killed = true := by
        rcases dying with killed | dead
        · exact killed
        · simp [dead.1] at waiting
      exact told.of_watch rfl rfl rfl rfl (fun waits => by cases waits) (by simp)
        fun _ _ => .inr killed
  | exited running =>
      obtain ⟨waits, proxy, launched, reaped, woken, ended⟩ := told
      have process : i.proc ≠ .noProcess := by simp [running]
      refine ⟨fun _ => .inr (by simp), by simp, by simp, fun _ past => ?_, fun _ => woken process,
        fun _ => ended process⟩
      have reaped := reaped process past
      rw [running] at reaped
      cases reaped
  | reaped waiting exited =>
      have process : i.proc ≠ .noProcess := by simp [exited]
      have woken := told.woken process (by simp [waiting]) (by simp [waiting])
      exact ⟨by simp, by simp, by simp, by simp, fun _ _ _ => woken, by simp⟩
  | touched waiting =>
      refine told.of_same rfl rfl rfl rfl id id fun _ restart => ?_
      rw [waiting] at restart
      cases restart
  | closed | reached | unparked =>
      exact told.of_same rfl rfl rfl rfl id id fun idle restart => ⟨idle, restart⟩
  | probeDied =>
      exact told.of_same rfl rfl rfl rfl id (fun _ => rfl) fun idle restart => ⟨idle, restart⟩
  | idleDied => exact told.of_same rfl rfl rfl rfl id id fun _ restart => ⟨rfl, restart⟩
  | restartDied => exact told.of_same rfl rfl rfl rfl id id fun idle _ => ⟨idle, rfl⟩
  | restartFailed =>
      exact told.of_same rfl rfl rfl rfl id (fun _ => rfl) fun idle _ => ⟨idle, rfl⟩

/-- **Every change keeps it.** -/
theorem Told.change {i j : Instance} (told : i.Told) (ok : i.Ok) (h : i.Change j) : j.Told := by
  cases h with
  | act a h => exact told.act h
  | go g h =>
      cases goes_of_go h with
      | watch unborn =>
          exact told.of_watch rfl rfl rfl rfl (fun waits => by cases waits) (by simp)
            fun _ awake => absurd rfl awake
      | idle unborn =>
          refine told.of_same rfl rfl rfl rfl id id fun idle _ => ?_
          rw [unborn] at idle
          cases idle
      | restart unborn =>
          refine told.of_same rfl rfl rfl rfl id id fun _ restart => ?_
          rw [unborn] at restart
          cases restart
      | probe => exact told.of_same rfl rfl rfl rfl id id fun idle restart => ⟨idle, restart⟩
  | killRemoved killer at_ =>
      have process : i.proc ≠ .noProcess := by
        intro none_
        obtain ⟨idle, restart⟩ := told.proxy none_
        cases killer with
        | watch => rcases ok.unwaited_of_killing at_ with there | there <;> simp [none_] at there
        | idle => simp [idle] at at_
        | restart => simp [restart] at at_
      exact told.of_afterKill at_ process (.inl (ok.signalled killer at_))
  | idleFired waiting =>
      refine told.of_same rfl rfl rfl rfl id id fun idle _ => ?_
      rw [waiting] at idle
      cases idle
  | watchRemoved due =>
      obtain ⟨waits, proxy, launched, reaped, woken, ended⟩ := told
      exact ⟨fun waits => (by cases waits), proxy, launched, fun process _ =>
        reaped process (.inl due), fun process _ _ => woken process (by simp [due]) (by simp [due]),
        fun _ done => (by cases done)⟩
  | watchDone due =>
      obtain ⟨waits, proxy, launched, reaped, woken, ended⟩ := told
      have dying : i.proc ≠ .noProcess → (i.killed || i.watchErr) = true := by
        intro process
        rcases woken process (by simp [due]) (by simp [due]) with err | killed
        · simp [err]
        · simp [killed]
      exact ⟨fun waits => (by cases waits), proxy, launched, fun process _ =>
        reaped process (.inr (.inl due)), fun process _ _ => .inr (dying process),
        fun process _ => dying process⟩
  | kill =>
      exact told.of_same rfl rfl rfl rfl id (fun _ => rfl) fun idle restart => ⟨idle, restart⟩
  | used => exact told.of_same rfl rfl rfl rfl id id fun idle restart => ⟨idle, restart⟩

/-- The output stays closed. -/
theorem Change.stdoutClosed {i j : Instance} (h : i.Change j) (closed : i.stdoutClosed = true) :
    j.stdoutClosed = true := by
  cases h with
  | act a h =>
      cases acts_of_act h with
      | @sent killer | @unsent killer => cases killer <;> exact closed
      | closed => rfl
      | _ => exact closed
  | go g h => cases goes_of_go h <;> exact closed
  | killRemoved killer => cases killer <;> exact closed
  | idleFired | watchRemoved | watchDone | kill | used => exact closed

/-- The app has been told to go, or goes by itself. -/
def Going (i : Instance) : Prop :=
  i.proc ≠ .running ∨ i.stdoutClosed = true ∨ i.sigterm = true ∨ i.killed = true ∨
    ∃ killer, i.killPc killer = some .signal

/-- A signal that is due stays due until it is sent, and is sent unless the process has ended. -/
theorem Change.killing {i j : Instance} (h : i.Change j) {killer : Killer}
    (due : i.killPc killer = some .signal) : j.Going := by
  have still : j.killPc killer = some .signal → j.Going := fun due =>
    .inr (.inr (.inr (.inr ⟨killer, due⟩)))
  cases h with
  | act a h =>
      cases acts_of_act h with
      | sent => exact .inr (.inr (.inl (sigterm_signalled i _)))
      | unsent at_ gone =>
          refine .inl fun running => ?_
          rw [proc_afterKill] at running
          simp [running, canSignal] at gone
      | closed => exact .inr (.inl rfl)
      | restartFailed | probeDied => exact .inr (.inr (.inr (.inl rfl)))
      | _ => exact still (by cases killer <;> simp_all)
  | go g h => exact still (by cases goes_of_go h <;> cases killer <;> simp_all)
  | killRemoved other at_ =>
      refine still ?_
      rw [killPc_afterKill, if_neg, due]
      rintro rfl
      rw [due] at at_
      cases at_
  | idleFired h => exact still (by cases killer <;> simp_all [Instance.idleFired])
  | watchRemoved h => exact still (by cases killer <;> simp_all [Instance.watchRemoved])
  | watchDone h => exact still (by cases killer <;> simp_all [Instance.watchDone])
  | kill => exact .inr (.inr (.inr (.inl rfl)))
  | used => exact still (by cases killer <;> exact due)

/-- **Whoever has been told to go goes on going.** -/
theorem Going.next {i j : Instance} (going : i.Going) (next : i.Next j) : j.Going := by
  rcases next with rfl | change
  · exact going
  · have evolves := change.evolves
    rcases going with ended | closed | sent | killed | ⟨killer, due⟩
    · exact .inl (evolves.proc ended)
    · exact .inr (.inl (change.stdoutClosed closed))
    · exact .inr (.inr (.inl (evolves.sigterm sent)))
    · exact .inr (.inr (.inr (.inl (evolves.killed killed))))
    · exact change.killing due

/-- All goroutines of the app have been started. -/
structure Settled (i : Instance) : Prop where
  started : ∀ g, i.Started g
  ok : i.Ok
  told : i.Told

/-- One goroutine has less left, and the others have as much. -/
theorem left_watch {i : Instance} (pc : WatchPc) (fewer : pc.left < i.watch.left) :
    ({ i with watch := pc } : Instance).left < i.left := by
  unfold left
  dsimp only
  omega

theorem left_idle {i : Instance} (pc : MonitorPc) (fewer : pc.left < i.idle.left) :
    ({ i with idle := pc } : Instance).left < i.left := by
  unfold left
  dsimp only
  omega

theorem left_restart {i : Instance} (pc : MonitorPc) (fewer : pc.left < i.restart.left) :
    ({ i with restart := pc } : Instance).left < i.left := by
  unfold left
  dsimp only
  omega

theorem left_probe {i : Instance} (pc : ProbePc) (fewer : pc.left < i.probe.left) :
    ({ i with probe := pc } : Instance).left < i.left := by
  unfold left
  dsimp only
  omega

/-- Inside `Kill`, its goroutine has less left behind the signal. -/
theorem left_signalled {i : Instance} {killer : Killer} (at_ : i.killPc killer = some .signal) :
    (i.signalled killer).left < i.left := by
  cases killer with
  | watch => exact left_watch (.kill .remove) (by rw [killPc_watch.mp at_]; decide)
  | idle => exact left_idle (.kill .remove) (by rw [killPc_idle.mp at_]; decide)
  | restart => exact left_restart (.kill .remove) (by rw [killPc_restart.mp at_]; decide)

theorem left_afterKill {i : Instance} {killer : Killer} {pc : KillPc}
    (at_ : i.killPc killer = some pc) : (i.afterKill killer).left < i.left := by
  cases killer with
  | watch => exact left_watch .wait (by rw [killPc_watch.mp at_]; cases pc <;> decide)
  | idle => exact left_idle .done (by rw [killPc_idle.mp at_]; cases pc <;> decide)
  | restart =>
      exact left_restart .select (by rw [killPc_restart.mp at_]; cases pc <;> decide)

/-- A goroutine that is started has less left than one that is not. -/
theorem left_of_go {i j : Instance} {g : Goroutine} (h : i.go g = some j) : j.left ≤ i.left := by
  cases goes_of_go h with
  | watch unborn => exact (left_watch .select (by rw [unborn]; decide)).le
  | idle unborn => exact (left_idle .select (by rw [unborn]; decide)).le
  | restart unborn => exact (left_restart .select (by rw [unborn]; decide)).le
  | probe unborn => exact (left_probe .select (by rw [unborn]; decide)).le

/-- `Kill` always comes past its signal, in front of a process. -/
theorem exists_signal {i : Instance} {killer : Killer} (at_ : i.killPc killer = some .signal)
    (process : i.proc ≠ .noProcess) :
    ∃ delivered j, i.act (.signal killer delivered) = some j ∧ j.left < i.left := by
  cases proc : i.proc with
  | noProcess => exact absurd proc process
  | running | exited => exact ⟨true, _, by simp [act, at_, proc, canSignal], left_signalled at_⟩
  | reaped => exact ⟨false, _, by simp [act, at_, proc, canSignal], left_afterKill at_⟩

end Instance

namespace Pool

variable {T : PrintTable} {hash : GoString → GoString} {s t : Pool} {l : Label}

/-- The step winds something up. -/
def Winds (s : Pool) : Label → Prop
  | .boot _ | .go | .register | .killRemove .. | .watchRemove _ | .unlink _ | .purgeKill _
  | .purgeWait _ => True
  | .act id .exit => ∃ i, s.heap[id]? = some i ∧ i.sigterm = true
  | .act _ (.watchWake eof) => eof = false
  | .act _ (.signal ..) | .act _ .wait | .act _ .idleDying | .act _ .restartDying
  | .act _ .probeDying | .act _ .unpark => True
  | _ => False

/-- The step winds something up, or lets the output of a process end that has exited. -/
def Ends (s : Pool) (l : Label) : Prop :=
  s.Winds l ∨ ∃ id, l = .act id (.watchWake true) ∨
    l = .act id .closeStdout ∧ ∃ i, s.heap[id]? = some i ∧ i.proc ≠ .running

/-- The step brings the app under an address nearer to its end, and does nothing to others. -/
structure Nearer (T : PrintTable) (hash : GoString → GoString) (s : Pool) (id : AppId)
    (i : Instance) (l : Label) (t : Pool) : Prop where
  step : s.step T hash l = some t
  ends : s.Ends l
  winds : i.killed = true → s.Winds l
  holder : t.holder = s.holder
  purges : t.purges = s.purges
  apps : ∀ k other, other ≠ id → s.apps.lookup k = some other → t.apps.lookup k = some other
  heap : ∃ j, t.heap = s.heap.set id j ∧ j.left < i.left

/-- An app does something alone. -/
theorem nearer_of_act {id : AppId} {i j : Instance} {a : Instance.Action}
    (here : s.heap[id]? = some i) (acted : i.act a = some j) (ends : s.Ends (.act id a))
    (winds : i.killed = true → s.Winds (.act id a)) (fewer : j.left < i.left) :
    Nearer T hash s id i (.act id a) { s with heap := s.heap.set id j } where
  step := modify_eq_some.mpr ⟨i, j, here, acted, rfl⟩
  ends := ends
  winds := winds
  holder := rfl
  purges := rfl
  apps _ _ _ found := found
  heap := ⟨j, rfl, fewer⟩

/-- An app winds something up alone. -/
theorem nearer_of_winding {id : AppId} {i j : Instance} {a : Instance.Action}
    (here : s.heap[id]? = some i) (acted : i.act a = some j) (winds : s.Winds (.act id a))
    (fewer : j.left < i.left) :
    Nearer T hash s id i (.act id a) { s with heap := s.heap.set id j } :=
  nearer_of_act here acted (.inl winds) (fun _ => winds) fewer

/-- The keys of the others are kept when an app is removed. -/
theorem lookup_drop_of_ne {apps : Apps} {id other : AppId} {k : GoString} (ne : other ≠ id)
    (found : apps.lookup k = some other) : (apps.drop id).lookup k = some other :=
  Registry.lookup_drop.mpr ⟨found, ne⟩

/-- A `Kill` that has sent its signal removes the app, as soon as it gets the lock. -/
theorem nearer_of_removing {id : AppId} {i : Instance} {killer : Killer} (free : s.Free)
    (here : s.heap[id]? = some i) (at_ : i.killPc killer = some .remove) :
    Nearer T hash s id i (.killRemove id killer)
      { s with apps := s.apps.drop id, heap := s.heap.set id (i.afterKill killer) } where
  step := by
    simp only [step, if_pos free]
    exact modify_eq_some.mpr ⟨i, _, here, if_pos at_, rfl⟩
  ends := .inl trivial
  winds _ := trivial
  holder := rfl
  purges := rfl
  apps _ _ ne found := lookup_drop_of_ne ne found
  heap := ⟨_, rfl, Instance.left_afterKill at_⟩

section Settled

variable {id : AppId} {i : Instance} (free : s.Free) (here : s.heap[id]? = some i)
  (settled : i.Settled)

include free here

/-- A goroutine inside `Kill` can go on. -/
theorem nearer_of_killing {killer : Killer} {pc : KillPc} (at_ : i.killPc killer = some pc)
    (process : i.proc ≠ .noProcess) : ∃ l t, Nearer T hash s id i l t := by
  cases pc with
  | signal =>
      obtain ⟨delivered, j, acted, fewer⟩ := Instance.exists_signal at_ process
      exact ⟨_, _, nearer_of_winding here acted trivial fewer⟩
  | remove => exact ⟨_, _, nearer_of_removing free here at_⟩

include settled

/-- **`watch` comes to notice** that its app goes. -/
theorem nearer_of_waiting (at_ : i.watch = .select) (going : i.Going) :
    ∃ l t, Nearer T hash s id i l t := by
  obtain ⟨-, ok, told⟩ := settled
  have notices : ∀ err, ({ i with watch := .kill .signal, watchErr := err } : Instance).left <
      i.left := fun err => Instance.left_watch (.kill .signal) (by rw [at_]; decide)
  by_cases killed : i.killed = true
  · exact ⟨_, _, nearer_of_winding here (a := .watchWake false) (if_pos ⟨at_, .inl killed⟩) rfl
      (notices false)⟩
  by_cases closed : i.stdoutClosed = true
  · exact ⟨_, _, nearer_of_act here (a := .watchWake true) (if_pos ⟨at_, closed⟩)
      (.inr ⟨id, .inl rfl⟩) (fun dying => absurd dying killed) (notices true)⟩
  rcases ok.unwaited (by simp [at_]) (by simp [at_]) (by simp [at_]) with running | exited
  · -- the process runs, so it has been sent SIGTERM, or some goroutine is about to send it
    rcases going with ended | closed' | sent | killed' | ⟨killer, due⟩
    · exact absurd running ended
    · exact absurd closed' closed
    · exact ⟨_, _, nearer_of_winding here (a := .exit) (if_pos running) ⟨i, here, sent⟩
        (by simp [Instance.left, running])⟩
    · exact absurd killed' killed
    · exact nearer_of_killing free here due (by simp [running])
  · have ended : i.proc ≠ .running := by simp [exited]
    refine ⟨_, _, nearer_of_act here (a := .closeStdout) rfl
      (.inr ⟨id, .inr ⟨rfl, i, here, ended⟩⟩) (fun dying => absurd dying killed) ?_⟩
    simp only [Instance.left, if_neg closed, if_true]
    omega

theorem nearer_of_watch (going : i.Going) (watching : i.watch ≠ .done) :
    ∃ l t, Nearer T hash s id i l t := by
  have started := settled.started
  have ok := settled.ok
  have told := settled.told
  cases at_ : i.watch with
  | unborn => exact absurd at_ (started .watch)
  | done => exact absurd at_ watching
  | select => exact nearer_of_waiting free here settled at_ going
  | kill pc =>
      have inside : i.killPc .watch = some pc := Instance.killPc_watch.mpr at_
      refine nearer_of_killing free here inside fun none_ => ?_
      rcases ok.unwaited_of_killing inside with running | exited
      · simp [none_] at running
      · simp [none_] at exited
  | wait =>
      rcases ok.unwaited (by simp [at_]) (by simp [at_]) (by simp [at_]) with running | exited
      · have sent := (told.waits at_).resolve_right (not_not.mpr running)
        exact ⟨_, _, nearer_of_winding here (a := .exit) (if_pos running) ⟨i, here, sent⟩
          (by simp [Instance.left, running])⟩
      · exact ⟨_, _, nearer_of_winding here (a := .wait) (if_pos ⟨at_, exited⟩) trivial
          (by simp [Instance.left, at_, exited, WatchPc.left])⟩
  | remove =>
      refine ⟨.watchRemove id,
        { s with apps := s.apps.drop id, heap := s.heap.set id i.watchRemoved }, ?_,
        .inl trivial, fun _ => trivial, rfl, rfl, fun _ _ ne found => lookup_drop_of_ne ne found,
        _, rfl, Instance.left_watch .unlink (by rw [at_]; decide)⟩
      simp only [step, if_pos free]
      exact modify_eq_some.mpr ⟨i, _, here, if_pos at_, rfl⟩
  | unlink =>
      refine ⟨.unlink id, { s with
        sockets :=
          if i.app.scheme = "httpu".toList then s.sockets.erase i.app.address else s.sockets
        heap := s.heap.set id i.watchDone }, ?_, .inl trivial, fun _ => trivial, rfl, rfl,
        fun _ _ _ found => found, _, rfl, Instance.left_watch .done (by rw [at_]; decide)⟩
      simp only [step, here]
      exact modify_eq_some.mpr ⟨i, _, here, if_pos at_, rfl⟩

variable (killed : i.killed = true)

include killed

theorem nearer_of_idle (going : i.idle ≠ .done) : ∃ l t, Nearer T hash s id i l t := by
  obtain ⟨started, -, told⟩ := settled
  cases at_ : i.idle with
  | unborn => exact absurd at_ (started .idle)
  | done => exact absurd at_ going
  | select =>
      exact ⟨_, _, nearer_of_winding here (a := .idleDying) (if_pos ⟨at_, .inl killed⟩) trivial
        (Instance.left_idle .done (by rw [at_]; decide))⟩
  | kill pc =>
      exact nearer_of_killing free here (Instance.killPc_idle.mpr at_) fun none_ =>
        going (told.proxy none_).1

theorem nearer_of_restart (going : i.restart ≠ .done) : ∃ l t, Nearer T hash s id i l t := by
  obtain ⟨started, -, told⟩ := settled
  cases at_ : i.restart with
  | unborn => exact absurd at_ (started .restart)
  | done => exact absurd at_ going
  | select =>
      exact ⟨_, _, nearer_of_winding here (a := .restartDying) (if_pos ⟨at_, .inl killed⟩)
        trivial (Instance.left_restart .done (by rw [at_]; decide))⟩
  | kill pc =>
      exact nearer_of_killing free here (Instance.killPc_restart.mpr at_) fun none_ =>
        going (told.proxy none_).2

omit free

theorem nearer_of_probe (going : i.probe ≠ .done) : ∃ l t, Nearer T hash s id i l t := by
  obtain ⟨started, -, -⟩ := settled
  cases at_ : i.probe with
  | unborn => exact absurd at_ (started .probe)
  | done => exact absurd at_ going
  | select =>
      exact ⟨_, _, nearer_of_winding here (a := .probeDying) (if_pos ⟨at_, .inl killed⟩) trivial
        (Instance.left_probe .done (by rw [at_]; decide))⟩

omit settled in
theorem nearer_of_parked (parked : i.parked = true) : ∃ l t, Nearer T hash s id i l t :=
  ⟨_, _, nearer_of_winding here (a := .unpark) (if_pos ⟨parked, .inl killed⟩) trivial
    (by simp [Instance.left, parked])⟩

end Settled

/-- **An app that has been told to go can go on**, as long as the lock is free. -/
theorem exists_nearer {id : AppId} {i : Instance} (free : s.Free) (here : s.heap[id]? = some i)
    (settled : i.Settled) (launched : i.app.command.isSome = true ∨ i.killed = true)
    (going : i.Going) (alive : ¬ i.Dead) : ∃ l t, Nearer T hash s id i l t := by
  by_cases watching : i.watch = .done
  · -- what is left waits for the tomb, which `watch` has left dying
    have killed : i.killed = true := by
      rcases launched with command | killed
      · exact settled.told.ended (settled.told.launched command) watching
      · exact killed
    by_cases idling : i.idle = .done
    · by_cases restarting : i.restart = .done
      · by_cases probing : i.probe = .done
        · refine nearer_of_parked here killed ?_
          by_contra gone
          exact alive ⟨watching, idling, restarting, probing, Bool.eq_false_iff.mpr gone⟩
        · exact nearer_of_probe here settled killed probing
      · exact nearer_of_restart free here settled killed restarting
    · exact nearer_of_idle free here settled killed idling
  · exact nearer_of_watch free here settled going watching

/-! ## The lock -/

/-- What holds in every state of every run, of the goroutines and of the lock. -/
structure Orderly (s : Pool) : Prop where
  wellFormed : WellFormed s
  launching : s.Launching
  removed : s.RemovedOnceCleaned
  told : ∀ (id : AppId) (i : Instance), s.heap[id]? = some i → i.Told

theorem orderly_empty (dir : Filepath.CleanDir) (idleTime : ℤ) : (empty dir idleTime).Orderly where
  wellFormed := wellFormed_empty dir idleTime
  launching := launching_empty dir idleTime
  removed id i h := by simp [empty] at h
  told id i h := by simp [empty] at h

/-- **A step keeps it.** -/
theorem Orderly.of_step (inv : s.Orderly) (h : s.step T hash l = some t) : t.Orderly where
  wellFormed := wellFormed_of_step h inv.wellFormed
  launching := launching_of_step inv.launching h
  removed := inv.removed.of_step h
  told id j there := by
    rcases before_of_step h there with ⟨i, here, rfl | change⟩ | ⟨app, -, -, rfl⟩
    · exact inv.told id j here
    · exact (inv.told id i here).change (inv.wellFormed.ok id i here) change
    · exact Instance.told_create app s.clock

/-- While the lock is free, every app has all its goroutines. -/
theorem Orderly.settled (inv : s.Orderly) (free : s.Free) {id : AppId} {i : Instance}
    (here : s.heap[id]? = some i) : i.Settled where
  started g := by
    by_contra unstarted
    obtain ⟨identity, left, starting⟩ := inv.launching.unstarted id i here g unstarted
    rw [Free, starting] at free
    cases free
  ok := inv.wellFormed.ok id i here
  told := inv.told id i here

/-- How many steps the lookup that holds the lock has left. -/
def holderLeft : Option Holder → ℕ
  | none => 0
  | some (.booting _) => 6
  | some (.starting _ _ left) => left.length + 1

/-- The lookup that holds the lock goes on: the keys are kept, and the apps have no more left. -/
structure HolderGoes (T : PrintTable) (hash : GoString → GoString) (s : Pool) (l : Label)
    (t : Pool) : Prop where
  step : s.step T hash l = some t
  winds : s.Winds l
  fewer : holderLeft t.holder < holderLeft s.holder
  purges : t.purges = s.purges
  apps : Registry.Extends s.apps t.apps
  heap : ∀ (id : AppId) (i : Instance), s.heap[id]? = some i → ∃ j, t.heap[id]? = some j ∧
    (j = i ∨ ∃ g, i.go g = some j)

/-- **The lookup that holds the lock** can go on. -/
theorem Orderly.holder_goes (inv : s.Orderly) {held : Holder} (taken : s.holder = some held) :
    ∃ l t, HolderGoes T hash s l t := by
  cases held with
  | booting request =>
      cases booted : (boot T default request).2 with
      | error err =>
          exact ⟨.boot default, { s with holder := none }, by simp [step, taken, booted], trivial,
            by simp [taken, holderLeft], rfl, .refl _, fun id i here => ⟨i, here, .inl rfl⟩⟩
      | ok app =>
          have few : (Instance.goroutines app).length ≤ 4 := by
            unfold Instance.goroutines
            split <;> decide
          refine ⟨.boot default, { s with
            heap := s.heap ++ [Instance.create app s.clock]
            holder := some
              (.starting s.heap.length request.identity (Instance.goroutines app)) },
            by simp only [step, taken, booted], trivial, ?_, rfl, .refl _, fun id i here => ?_⟩
          · simp only [taken, holderLeft]
            omega
          · have inside : id < s.heap.length := (List.getElem?_eq_some_iff.mp here).1
            exact ⟨i, by rw [List.getElem?_append_left inside]; exact here, .inl rfl⟩
  | starting id identity goroutines =>
      obtain ⟨i, here, launching⟩ := inv.launching.held id identity goroutines taken
      cases goroutines with
      | nil =>
          obtain ⟨unused, -, -⟩ := inv.wellFormed.starting id identity [] taken
          exact ⟨.register, { s with apps := register s.apps identity id, holder := none },
            by simp only [step, taken], trivial, by simp [taken, holderLeft], rfl,
            extends_register fun k v name found => (by rw [unused k name] at found; cases found),
            fun id i here => ⟨i, here, .inl rfl⟩⟩
      | cons g later =>
          obtain ⟨j, started⟩ := Option.isSome_iff_exists.mp
            ((i.started_iff g).mp ((launching.unstarted g).mp List.mem_cons_self))
          refine ⟨.go, { s with
            heap := s.heap.set id j
            holder := some (.starting id identity later) }, ?_, trivial,
            by simp [taken, holderLeft], rfl, .refl _, fun k i' here' => ?_⟩
          · simp only [step, taken]
            exact modify_eq_some.mpr ⟨i, j, here, started, rfl⟩
          · by_cases own : k = id
            · subst own
              rw [here] at here'
              cases here'
              exact ⟨j, (getElem?_set_eq_some here).mpr (.inl ⟨rfl, rfl⟩), .inr ⟨g, started⟩⟩
            · exact ⟨i', (getElem?_set_eq_some here).mpr (.inr ⟨own, here'⟩), .inl rfl⟩

/-! ## Every app that is told to go can go -/

/-- How many steps the app under an address has left. -/
def leftAt (s : Pool) (id : AppId) : ℕ := (s.heap[id]?.map Instance.left).getD 0

theorem leftAt_of_set {id : AppId} {i j : Instance} (here : s.heap[id]? = some i)
    (heap : t.heap = s.heap.set id j) (k : AppId) :
    t.leftAt k = if k = id then j.left else s.leftAt k := by
  have inside : id < s.heap.length := (List.getElem?_eq_some_iff.mp here).1
  rw [leftAt, heap, List.getElem?_set]
  by_cases own : k = id
  · subst own
    simp [inside]
  · rw [if_neg (Ne.symm own), if_neg own, leftAt]

/-- The lookup that holds the lock leaves no app with more to do. -/
theorem HolderGoes.leftAt_le (goes : HolderGoes T hash s l t) {id : AppId} {i : Instance}
    (here : s.heap[id]? = some i) : t.leftAt id ≤ s.leftAt id := by
  obtain ⟨j, there, rfl | ⟨g, started⟩⟩ := goes.heap id i here
  · simp [leftAt, here, there]
  · simpa [leftAt, here, there] using Instance.left_of_go started

/-- The other apps keep their keys, and nothing happens to their processes. -/
structure Spares (s t : Pool) (id : AppId) : Prop where
  apps : ∀ k other, other ≠ id → s.apps.lookup k = some other → t.apps.lookup k = some other
  heap : ∀ (other : AppId) (i : Instance), other ≠ id → s.heap[other]? = some i →
    ∃ j, t.heap[other]? = some j ∧ j.proc = i.proc ∧ j.sigterm = i.sigterm ∧
      j.killed = i.killed

theorem Spares.refl (s : Pool) (id : AppId) : Spares s s id :=
  ⟨fun _ _ _ found => found, fun _ i _ here => ⟨i, here, rfl, rfl, rfl⟩⟩

theorem Spares.trans {u : Pool} {id : AppId} (first : Spares s t id) (second : Spares t u id) :
    Spares s u id where
  apps k other ne found := second.apps k other ne (first.apps k other ne found)
  heap other i ne here := by
    obtain ⟨j, there, proc, sigterm, killed⟩ := first.heap other i ne here
    obtain ⟨m, last, proc', sigterm', killed'⟩ := second.heap other j ne there
    exact ⟨m, last, proc'.trans proc, sigterm'.trans sigterm, killed'.trans killed⟩

theorem Nearer.spares {id : AppId} {i : Instance} (nearer : Nearer T hash s id i l t) :
    Spares s t id where
  apps := nearer.apps
  heap other m ne here := by
    obtain ⟨j, heap, -⟩ := nearer.heap
    exact ⟨m, by rw [heap, List.getElem?_set_ne (Ne.symm ne)]; exact here, rfl, rfl, rfl⟩

theorem HolderGoes.spares (goes : HolderGoes T hash s l t) (id : AppId) : Spares s t id where
  apps k other _ found := goes.apps k other found
  heap other i _ here := by
    obtain ⟨j, there, rfl | ⟨g, started⟩⟩ := goes.heap other i here
    · exact ⟨j, there, rfl, rfl, rfl⟩
    · refine ⟨j, there, ?_⟩
      cases Instance.goes_of_go started <;> exact ⟨rfl, rfl, rfl⟩

/-- The app has been told to go, and nothing has happened to the others since. -/
structure Departing (start : Pool) (id : AppId) (s : Pool) : Prop where
  orderly : s.Orderly
  going : ∃ i, s.heap[id]? = some i ∧ i.app.command.isSome = true ∧ i.Going
  spares : Spares start s id

theorem Departing.of_step {start : Pool} {id : AppId} (inv : Departing start id s)
    (h : s.step T hash l = some t) (spares : Spares s t id) : Departing start id t where
  orderly := inv.orderly.of_step h
  going := by
    obtain ⟨i, here, launched, going⟩ := inv.going
    obtain ⟨j, there, next⟩ := after_of_step h here
    exact ⟨j, there, by rw [next.evolves.app]; exact launched, going.next next⟩
  spares := inv.spares.trans spares

/-- **Such an app comes nearer to its end**, or the lock does to being free. -/
theorem Departing.goes {start : Pool} {id : AppId} (inv : Departing start id s)
    (alive : ¬ ∃ i, s.heap[id]? = some i ∧ i.Dead) :
    ∃ l t, s.step T hash l = some t ∧ s.Ends l ∧ Departing start id t ∧
      holderLeft t.holder + t.leftAt id < holderLeft s.holder + s.leftAt id := by
  obtain ⟨i, here, launched, going⟩ := inv.going
  cases taken : s.holder with
  | some held =>
      obtain ⟨l, t, goes⟩ : ∃ l t, HolderGoes T hash s l t := inv.orderly.holder_goes taken
      have fewer := goes.fewer
      have le := goes.leftAt_le here
      rw [taken] at fewer
      exact ⟨l, t, goes.step, .inl goes.winds, inv.of_step goes.step (goes.spares id), by omega⟩
  | none =>
      obtain ⟨l, t, nearer⟩ : ∃ l t, Nearer T hash s id i l t :=
        exists_nearer taken here (inv.orderly.settled taken here) (.inl launched) going
          fun dead => alive ⟨i, here, dead⟩
      obtain ⟨j, heap, fewer⟩ := nearer.heap
      refine ⟨l, t, nearer.step, nearer.ends, inv.of_step nearer.step nearer.spares, ?_⟩
      rw [nearer.holder, taken, leftAt_of_set here heap, if_pos rfl]
      simpa [leftAt, here] using fewer

/-- **An app that has been told to go can go, for good.**  Take any state of any run, and a
launched app that has been told to go: by a touch of `restart.txt`, because it was idle, by a
purge, or because its process has ended or has closed its output.  There are steps, in which a
process exits only after SIGTERM was delivered to it, and which do nothing to the processes and
the keys of all other apps, that bring the app to its end: all its goroutines have returned, and
its process has been waited for.  Whatever happens from there on, no key leads to the app, and
no lookup returns it. -/
theorem goes_for_good {dir : Filepath.CleanDir} {idleTime : ℤ} (ls : List Label) :
    ∀ s ∈ (poolMachine T hash dir idleTime).visited (poolMachine T hash dir idleTime).init ls,
      ∀ (id : AppId) (i : Instance), s.heap[id]? = some i → i.app.command.isSome = true →
        i.Going → ∃ ls' t j, (poolMachine T hash dir idleTime).exec s ls' = some t ∧
          (poolMachine T hash dir idleTime).Guarded Ends s ls' ∧ Spares s t id ∧
          t.heap[id]? = some j ∧ j.Dead ∧ j.proc = .reaped ∧
          ∀ after, ∀ u ∈ (poolMachine T hash dir idleTime).visited t after,
            (∀ k, u.apps.lookup k ≠ some id) ∧ ∀ l, u.returned hash l ≠ some id := by
  intro s visited id i here launched going
  have orderly : s.Orderly := (poolMachine T hash dir idleTime).inv_of_step
    (fun _ _ _ inv h => inv.of_step h) ls (orderly_empty dir idleTime) s visited
  obtain ⟨ls', t, run, ends, left, j, there, dead⟩ :=
    (poolMachine T hash dir idleTime).reaches (fun t => ∃ j, t.heap[id]? = some j ∧ j.Dead) Ends
      (fun t => holderLeft t.holder + t.leftAt id) (fun u inv alive => inv.goes alive)
      (⟨orderly, ⟨i, here, launched, going⟩, .refl s id⟩ : Departing s id s)
  obtain ⟨m, there', launched', -⟩ := left.going
  rw [there] at there'
  cases there'
  have told := left.orderly.told id j there
  have gone : Gone t id := left.orderly.removed id j there launched' (.inr dead.1)
  refine ⟨ls', t, j, run, ends, left.spares, there, dead,
    told.reaped (told.launched launched') (.inr (.inr dead.1)), fun after u mem => ?_⟩
  have still : ∀ u ∈ (poolMachine T hash dir idleTime).visited t after, Gone u id :=
    (poolMachine T hash dir idleTime).inv_of_step (fun _ _ _ gone h => gone.of_step h) after gone
  exact ⟨(still u mem).keyless, (still u mem).not_returned⟩

/-- An app whose `restart.txt` has just been touched. -/
theorem goes_for_good_blog : ∃ s i,
    plainPool.exec plainPool.init
      (startApp "blog".toList .everyDirectory ++ [.act 0 .restartTouched]) = some s ∧
      s.heap[0]? = some i ∧ i.proc = .running ∧
      ∃ ls t j, plainPool.exec s ls = some t ∧ plainPool.Guarded Ends s ls ∧ Spares s t 0 ∧
        t.heap[0]? = some j ∧ j.Dead ∧ j.proc = .reaped ∧
        ∀ after, ∀ u ∈ plainPool.visited t after,
          (∀ k, u.apps.lookup k ≠ some 0) ∧ ∀ l, u.returned blogDigest l ≠ some 0 := by
  have facts : (plainPool.exec plainPool.init
      (startApp "blog".toList .everyDirectory ++ [.act 0 .restartTouched])).map
        (fun s => (s.heap[0]?).map fun i => (i.proc, i.restart, i.app.command.isSome)) =
      some (some (.running, .kill .signal, true)) := by decide
  obtain ⟨s, reached, found⟩ := Option.map_eq_some_iff.mp facts
  obtain ⟨i, here, seen⟩ := Option.map_eq_some_iff.mp found
  simp only [Prod.mk.injEq] at seen
  obtain ⟨running, due, launched⟩ := seen
  exact ⟨s, i, reached, here, running,
    goes_for_good _ s (plainPool.mem_visited_of_exec reached) 0 i here launched
      (.inr (.inr (.inr (.inr ⟨.restart, Instance.killPc_restart.mpr due⟩))))⟩

end Pool

end PumaDev
