import PumaDev.Dev.PoolProcesses

/-!
# Launching an app that dies at once

`LaunchApp` starts four goroutines under a tomb, one `t.Go` after the other, and a tomb whose
goroutines have all ended panics at the next.  Between two of these calls the process may
exit, its output be closed, and `watch` kill and wait for it.

The lookup holds the lock of the pool all that time.  `Launching` is the invariant: `watch`
may have come to its last `pool.remove`, and it waits there.  So the tomb never dies before
the last goroutine is started (`launch_goes_on`); and an app whose goroutines have all been
started is dead exactly if its tomb is (`dead_iff_tombDead`).
-/

namespace PumaDev

namespace Instance

/-- `t.Go` has been called with the goroutine. -/
def Started (i : Instance) : Goroutine → Prop
  | .watch => i.watch ≠ .unborn
  | .idle => i.idle ≠ .unborn
  | .restart => i.restart ≠ .unborn
  | .probe => i.probe ≠ .unborn

/-- The goroutine has returned. -/
def Ended (i : Instance) : Goroutine → Prop
  | .watch => i.watch = .done
  | .idle => i.idle = .done
  | .restart => i.restart = .done
  | .probe => i.probe = .done

/-- The tomb is dead: some goroutine has been started, and all that have been started have
ended. -/
def TombDead (i : Instance) : Prop :=
  (∃ g, i.Started g) ∧ (∀ g, i.Started g → i.Ended g) ∧ i.parked = false

/-- `watch` has passed its last `pool.remove`. -/
def PastRemove (i : Instance) : Prop := i.watch = .unlink ∨ i.watch = .done

/-- A goroutine that has ended was started. -/
theorem started_of_ended {i : Instance} {g : Goroutine} (ended : i.Ended g) : i.Started g := by
  cases g <;> simp_all [Ended, Started]

/-- A goroutine is unstarted as long as `t.Go` can start it. -/
theorem started_iff {i : Instance} (g : Goroutine) : ¬ i.Started g ↔ (i.go g).isSome = true := by
  cases g <;> simp [Started, go]

/-- `t.Go` starts its goroutine, and no other. -/
theorem started_of_go {i j : Instance} {g : Goroutine} (h : i.go g = some j) (g' : Goroutine) :
    j.Started g' ↔ g' = g ∨ i.Started g' := by
  cases goes_of_go h <;> cases g' <;> simp [Started]

/-- `t.Go` does not move a goroutine that runs. -/
theorem pastRemove_of_go {i j : Instance} {g : Goroutine} (h : i.go g = some j)
    (past : j.PastRemove) : i.PastRemove := by
  cases goes_of_go h <;> simp_all [PastRemove]

/-- A start is never undone. -/
theorem Change.started {i j : Instance} (h : i.Change j) {g : Goroutine} (started : i.Started g) :
    j.Started g := by
  cases h with
  | act a h =>
      cases acts_of_act h with
      | @sent killer | @unsent killer =>
          cases killer <;> cases g <;> simp_all [Started, signalled, afterKill]
      | _ => cases g <;> simp_all [Started]
  | go g' h => exact (started_of_go h g).mpr (Or.inr started)
  | killRemoved killer h => cases killer <;> cases g <;> simp_all [Started, afterKill]
  | idleFired h | watchRemoved h | watchDone h =>
      cases g <;> simp_all [Started, Instance.idleFired, Instance.watchRemoved, Instance.watchDone]
  | kill | used => cases g <;> exact started

/-- What an app does alone starts no goroutine, and does not bring `watch` past the lock. -/
theorem act_launching {i j : Instance} {a : Action} (h : i.act a = some j) :
    (∀ g, j.Started g → i.Started g) ∧ (j.PastRemove → i.PastRemove) := by
  constructor
  · intro g
    cases acts_of_act h with
    | @sent killer at_ | @unsent killer at_ =>
        cases killer <;> cases g <;> simp_all [Started, signalled, afterKill]
    | _ => cases g <;> simp_all [Started]
  · cases acts_of_act h with
    | @sent killer | @unsent killer => cases killer <;> simp [PastRemove, signalled, afterKill]
    | _ => simp_all [PastRemove]

/-! ### An app that is being started -/

/-- The goroutines of `left` are still to be started, in the order of `LaunchApp`, and
`watch` has not got past its last `pool.remove`. -/
structure Launching (i : Instance) (left : List Goroutine) : Prop where
  order : left <:+ goroutines i.app
  unstarted : ∀ g, g ∈ left ↔ ¬ i.Started g
  waiting : i.app.command.isSome = true → ¬ i.PastRemove

/-- No goroutine is started twice. -/
theorem nodup_goroutines (app : App) : (goroutines app).Nodup := by
  unfold goroutines
  split <;> decide

/-- `LaunchApp` starts with an app none of whose goroutines runs. -/
theorem launching_create (app : App) (now : ℤ) : (create app now).Launching (goroutines app) where
  order := List.suffix_rfl
  unstarted g := by
    cases command : app.command.isSome <;> cases g <;>
      simp [goroutines, create, Started, command]
  waiting command := by
    show ¬ (create app now).PastRemove
    have launched : app.command.isSome = true := command
    simp [PastRemove, create, launched]

/-- The next goroutine is started. -/
theorem Launching.go {i j : Instance} {g : Goroutine} {left : List Goroutine}
    (launching : i.Launching (g :: left)) (h : i.go g = some j) : j.Launching left where
  order := by
    rw [(Change.go g h).evolves.app]
    exact (List.suffix_cons g left).trans launching.order
  unstarted g' := by
    have fresh : g ∉ left :=
      (List.nodup_cons.mp ((nodup_goroutines i.app).sublist launching.order.sublist)).1
    have before := launching.unstarted g'
    rw [List.mem_cons] at before
    rw [started_of_go h, not_or, ← before]
    constructor
    · intro later
      exact ⟨fun same => fresh (same ▸ later), Or.inr later⟩
    · rintro ⟨other, same | later⟩
      · exact absurd same other
      · exact later
  waiting command past := by
    rw [(Change.go g h).evolves.app] at command
    exact launching.waiting command (pastRemove_of_go h past)

/-- A change that starts nothing and leaves `watch` before the lock leaves the launch as it
is. -/
theorem Launching.change {i j : Instance} {left : List Goroutine} (launching : i.Launching left)
    (change : i.Change j) (starts : ∀ g, j.Started g → i.Started g)
    (past : j.PastRemove → i.PastRemove) : j.Launching left where
  order := by
    rw [change.evolves.app]
    exact launching.order
  unstarted g := by
    rw [launching.unstarted g]
    exact not_congr ⟨change.started, starts g⟩
  waiting command after := by
    rw [change.evolves.app] at command
    exact launching.waiting command (past after)

/-- Whoever has something left to start is a launched app, and `watch` comes first. -/
theorem goroutines_of_cons {app : App} {g : Goroutine} {left : List Goroutine}
    (order : g :: left <:+ goroutines app) : app.command.isSome = true ∧
      (.watch ∈ g :: left → ∀ g', g' ∈ g :: left) := by
  cases command : app.command.isSome with
  | false =>
      rw [goroutines, command] at order
      exact absurd (List.suffix_nil.mp order) (List.cons_ne_nil g left)
  | true =>
      refine ⟨rfl, fun first g' => ?_⟩
      have whole : goroutines app = [.watch, .idle, .restart, .probe] := by
        rw [goroutines, command]
        rfl
      rw [whole] at order
      have all : g :: left = [.watch, .idle, .restart, .probe] := by
        rcases List.suffix_cons_iff.mp order with all | later
        · exact all
        · -- behind `watch` it does not come again
          have again := later.subset first
          cases again
          contradiction
      rw [all]
      cases g' <;> simp

/-- **The tomb is alive at every `t.Go`.** -/
theorem Launching.alive {i : Instance} {g : Goroutine} {left : List Goroutine}
    (launching : i.Launching (g :: left)) : ¬ i.TombDead := by
  rintro ⟨⟨g', started⟩, ended, -⟩
  obtain ⟨command, first⟩ := goroutines_of_cons launching.order
  have held := launching.waiting command
  by_cases watching : i.Started .watch
  · exact held (Or.inr (ended .watch watching))
  · -- nothing at all has been started
    have later := first ((launching.unstarted .watch).mpr watching) g'
    exact (launching.unstarted g').mp later started

end Instance

namespace Pool

variable {T : PrintTable} {hash : GoString → GoString} {s t : Pool} {l : Label}

/-- What the lock protects: an app with a goroutine that has not been started is held by a
lookup, and what a lookup holds is being launched. -/
structure Launching (s : Pool) : Prop where
  held : ∀ id identity left, s.holder = some (.starting id identity left) →
    ∃ i, s.heap[id]? = some i ∧ i.Launching left
  unstarted : ∀ (id : AppId) (i : Instance), s.heap[id]? = some i → ∀ g, ¬ i.Started g →
    ∃ identity left, s.holder = some (.starting id identity left)

/-- While a lookup starts an app, nobody else starts a goroutine, and no `watch` gets past
the lock. -/
theorem launching_of_changed {addr held : AppId} {identity : Identity} {left : List Goroutine}
    {i j : Instance} (starting : s.holder = some (.starting held identity left))
    (h : s.step T hash l = some t) (changed : Changed s l addr i j) (other : l ≠ .go) :
    (∀ g, j.Started g → i.Started g) ∧ (j.PastRemove → i.PastRemove) := by
  have taken : ¬ s.Free := by
    intro free
    rw [Free, starting] at free
    cases free
  cases changed with
  | went => exact absurd rfl other
  | act acted => exact Instance.act_launching acted
  | killRemoved =>
      cases stepsTo_of_step h with
      | killRemoved free => exact absurd free taken
  | watchRemoved =>
      cases stepsTo_of_step h with
      | watchRemoved free => exact absurd free taken
  | watchDone due =>
      refine ⟨fun g => ?_, fun _ => Or.inl due⟩
      cases g with
      | watch =>
          intro _
          show i.watch ≠ .unborn
          rw [due]
          exact WatchPc.noConfusion
      | idle | restart | probe => exact fun started => started
  | idleFired =>
      cases stepsTo_of_step h with
      | idleFired free => exact absurd free taken
      | idleSpared free => exact absurd free taken
  | used | killed => exact ⟨fun g started => by cases g <;> exact started, fun past => past⟩

/-- Where a launch in progress comes from: the app has just been created, its next goroutine
has just been started, or the lookup has done nothing. -/
theorem holder_of_step (h : s.step T hash l = some t) {id : AppId} {identity : Identity}
    {left : List Goroutine} (starting : t.holder = some (.starting id identity left)) :
    (∃ app, id = s.heap.length ∧ left = Instance.goroutines app ∧
      t.heap = s.heap ++ [Instance.create app s.clock]) ∨
    (∃ g i j, s.holder = some (.starting id identity (g :: left)) ∧ s.heap[id]? = some i ∧
      i.go g = some j ∧ t.heap = s.heap.set id j) ∨
    (l ≠ .go ∧ s.holder = some (.starting id identity left)) := by
  cases stepsTo_of_step h with
  | opened | failed | registered => cases starting
  | created =>
      cases starting
      exact Or.inl ⟨_, rfl, rfl, rfl⟩
  | went before here started =>
      cases starting
      exact Or.inr (Or.inl ⟨_, _, _, before, here, started, rfl⟩)
  | _ => exact Or.inr (Or.inr ⟨Label.noConfusion, starting⟩)

/-- **One step.**  A launch goes on, whatever the others do. -/
theorem launching_of_step (inv : s.Launching) (h : s.step T hash l = some t) :
    t.Launching where
  held id identity left starting := by
    rcases holder_of_step h starting with ⟨app, rfl, rfl, heap⟩ |
      ⟨g, i, j, before, here, started, heap⟩ | ⟨other, before⟩
    · exact ⟨.create app s.clock, by rw [heap]; exact List.getElem?_concat_length,
        Instance.launching_create app s.clock⟩
    · obtain ⟨i', here', launching⟩ := inv.held id identity (g :: left) before
      rw [here] at here'
      cases here'
      exact ⟨j, by rw [heap]; exact (getElem?_set_eq_some here).mpr (Or.inl ⟨rfl, rfl⟩),
        launching.go started⟩
    · obtain ⟨i, here, launching⟩ := inv.held id identity left before
      obtain ⟨j, there, next⟩ := after_of_step h here
      refine ⟨j, there, ?_⟩
      rcases next with rfl | change
      · exact launching
      · rcases changed_of_step h here there with rfl | changed
        · exact launching
        · obtain ⟨starts, past⟩ := launching_of_changed before h changed other
          exact launching.change change starts past
  unstarted id j there g unstarted := by
    rcases before_of_step h there with ⟨i, here, next⟩ | ⟨app, creates, rfl, rfl⟩
    · have earlier : ¬ i.Started g := by
        intro started
        rcases next with rfl | change
        · exact unstarted started
        · exact unstarted (change.started started)
      obtain ⟨identity, left, starting⟩ := inv.unstarted id i here g earlier
      obtain ⟨i', here', launching⟩ := inv.held id identity left starting
      rw [here] at here'
      cases here'
      have taken : ¬ s.Free := by
        intro free
        rw [Free, starting] at free
        cases free
      cases stepsTo_of_step h with
      | shared free | opened free | killRemoved free | watchRemoved free | idleFired free
      | purging free => exact absurd free taken
      | failed booting | created booting =>
          rw [starting] at booting
          cases booting
      | went before =>
          rw [starting] at before
          cases before
          exact ⟨_, _, rfl⟩
      | registered before =>
          rw [starting] at before
          cases before
          -- nothing is left to start
          exact absurd ((launching.unstarted g).mpr earlier) List.not_mem_nil
      | _ => exact ⟨identity, left, starting⟩
    · obtain ⟨os, request, -, -, -, holder⟩ := creates.booted
      exact ⟨_, _, holder⟩

theorem launching_empty (dir : Filepath.CleanDir) (idleTime : ℤ) :
    (empty dir idleTime).Launching where
  held id identity left h := by cases h
  unstarted id i h := by simp [empty] at h

theorem launching_of_visited {dir : Filepath.CleanDir} {idleTime : ℤ} (ls : List Label) :
    ∀ s ∈ (poolMachine T hash dir idleTime).visited (poolMachine T hash dir idleTime).init ls,
      s.Launching :=
  (poolMachine T hash dir idleTime).inv_of_step
    (fun _ _ _ inv h => launching_of_step inv h) ls (launching_empty dir idleTime)

/-- **An app is dead exactly if its tomb is**: no tomb dies before all of its goroutines have
been started. -/
theorem dead_iff_tombDead {dir : Filepath.CleanDir} {idleTime : ℤ} (ls : List Label) :
    ∀ s ∈ (poolMachine T hash dir idleTime).visited (poolMachine T hash dir idleTime).init ls,
      ∀ (id : AppId) (i : Instance), s.heap[id]? = some i → (i.Dead ↔ i.TombDead) := by
  intro s visited id i here
  have inv := launching_of_visited ls s visited
  constructor
  · rintro ⟨watch, idle, restart, probe, parked⟩
    have ended : ∀ g, i.Ended g := by
      intro g
      cases g
      exacts [watch, idle, restart, probe]
    have watching : i.Started .watch := Instance.started_of_ended (ended .watch)
    exact ⟨⟨.watch, watching⟩, fun g _ => ended g, parked⟩
  · intro dead
    have started : ∀ g, i.Started g := by
      intro g
      by_contra unstarted
      obtain ⟨identity, left, starting⟩ := inv.unstarted id i here g unstarted
      obtain ⟨i', here', launching⟩ := inv.held id identity left starting
      rw [here] at here'
      cases here'
      cases left with
      | nil => exact absurd ((launching.unstarted g).mpr unstarted) List.not_mem_nil
      | cons next later => exact launching.alive dead
    have ended := fun g => dead.2.1 g (started g)
    exact ⟨ended .watch, ended .idle, ended .restart, ended .probe, dead.2.2⟩

/-- **Launching goes on.**  In every state of every run in which a lookup is about to start a
goroutine of its app, the tomb of the app is alive and the goroutine has not been started;
and `watch` has not passed its last `pool.remove`, which waits for the lookup. -/
theorem launch_goes_on (T : PrintTable) (hash : GoString → GoString) (dir : Filepath.CleanDir)
    (idleTime : ℤ) (ls : List Label) :
    ∀ s ∈ (poolMachine T hash dir idleTime).visited (poolMachine T hash dir idleTime).init ls,
      ∀ id identity g left, s.holder = some (.starting id identity (g :: left)) →
        ∃ i, s.heap[id]? = some i ∧ ¬ i.TombDead ∧ (i.go g).isSome = true ∧ ¬ i.PastRemove := by
  intro s visited id identity g left starting
  obtain ⟨i, here, launching⟩ :=
    (launching_of_visited ls s visited).held id identity (g :: left) starting
  have unstarted := (launching.unstarted g).mp List.mem_cons_self
  exact ⟨i, here, launching.alive, (i.started_iff g).mp unstarted,
    launching.waiting (Instance.goroutines_of_cons launching.order).1⟩

/-- The app that is being started, and the goroutines that are left to start. -/
def startingOf : Holder → Option (AppId × List Goroutine)
  | .booting _ => none
  | .starting id _ left => some (id, left)

theorem eq_starting_of_startingOf {s : Pool} {id : AppId} {left : List Goroutine}
    (held : s.holder.bind startingOf = some (id, left)) :
    ∃ identity, s.holder = some (.starting id identity left) := by
  obtain ⟨holder, here, at_⟩ := Option.bind_eq_some_iff.mp held
  cases holder with
  | booting request => cases at_
  | starting id' identity left' =>
      cases at_
      exact ⟨identity, here⟩

/-- The process exits, its output is closed, and `watch` waits for it, as soon as `watch` has
been started. -/
def diesAtOnce : List Label :=
  [.lookup "blog".toList .everyDirectory, .boot .everyDirectory, .go, .act 0 .exit,
    .act 0 .closeStdout, .act 0 (.watchWake true), .act 0 (.signal .watch false), .act 0 .wait]

/-- With the process gone and `watch` at its last `pool.remove`, three goroutines are still to
be started; the tomb is alive. -/
theorem launch_goes_on_blog : ∃ s ∈ plainPool.visited plainPool.init diesAtOnce,
    ∃ i, s.heap[0]? = some i ∧ i.proc = .reaped ∧ i.watch = .remove ∧ ¬ i.TombDead ∧
      (i.go .idle).isSome = true := by
  have facts : (plainPool.exec plainPool.init diesAtOnce).map
      (fun s => ((s.heap[0]?).map fun i => (i.proc, i.watch), s.holder.bind startingOf)) =
      some (some (.reaped, .remove), some (0, [.idle, .restart, .probe])) := by decide
  obtain ⟨s, visited, found⟩ := plainPool.exists_visited_of_map facts
  simp only [Prod.mk.injEq] at found
  obtain ⟨positions, held⟩ := found
  obtain ⟨identity, starting⟩ := eq_starting_of_startingOf held
  obtain ⟨i, here, alive, unstarted, -⟩ :=
    launch_goes_on _ _ _ _ diesAtOnce s visited 0 identity .idle _ starting
  rw [here] at positions
  obtain ⟨proc, watch⟩ := Prod.mk.inj (Option.some.inj positions)
  exact ⟨s, visited, i, here, proc, watch, alive, unstarted⟩

end Pool

end PumaDev
