import PumaDev.Dev.PoolMachine

/-!
# What holds in every run of the pool

`before_of_step` and `after_of_step` follow one app through a step: it is still
there, changed at most as `Instance.Change` allows, and the only app that was
not there before is the one a lookup has just created.

`Pool.WellFormed` collects what no interleaving can break: every key leads to an
app, the goroutines' positions are in order, and a lookup that holds the lock
holds it for names that are not in the map and for an app that nobody else
knows.  `wellFormed_of_visited` is its induction over the run.
-/

namespace PumaDev

namespace Pool

variable {T : PrintTable} {hash : GoString → GoString} {s t : Pool} {l : Label}

/-! ## One app through one step -/

theorem getElem?_set_eq_some {heap : List Instance} {id k : AppId} {i j x : Instance}
    (here : heap[id]? = some i) :
    (heap.set id j)[k]? = some x ↔ (k = id ∧ x = j) ∨ (k ≠ id ∧ heap[k]? = some x) := by
  have inside : id < heap.length := (List.getElem?_eq_some_iff.mp here).1
  rw [List.getElem?_set]
  by_cases same : id = k
  · subst same
    simp [inside, eq_comm]
  · have apart : k ≠ id := fun h => same h.symm
    simp [same, apart]

/-- The app a lookup creates in this step, at its new address. -/
structure Creates (T : PrintTable) (s : Pool) (l : Label) (t : Pool) (app : App) : Prop where
  booted : ∃ os request, l = .boot os ∧ s.holder = some (.booting request) ∧
    (boot T os request).2 = .ok app ∧
    t.holder = some (.starting s.heap.length request.identity (Instance.goroutines app))
  apps : t.apps = s.apps

/-- **Where an app comes from.** -/
theorem before_of_step (h : s.step T hash l = some t) {k : AppId} {j : Instance}
    (there : t.heap[k]? = some j) :
    (∃ i, s.heap[k]? = some i ∧ i.Next j) ∨
      ∃ app, Creates T s l t app ∧ k = s.heap.length ∧ j = .create app s.clock := by
  have same : t.heap = s.heap → ∃ i, s.heap[k]? = some i ∧ i.Next j := by
    intro heap
    rw [heap] at there
    exact ⟨j, there, Or.inl rfl⟩
  have stepped : ∀ {id i j'}, s.heap[id]? = some i → i.Change j' →
      t.heap = s.heap.set id j' → ∃ i, s.heap[k]? = some i ∧ i.Next j := by
    intro id i j' here change heap
    rw [heap, getElem?_set_eq_some here] at there
    rcases there with ⟨rfl, rfl⟩ | ⟨-, old⟩
    · exact ⟨i, here, Or.inr change⟩
    · exact ⟨j, old, Or.inl rfl⟩
  cases firing : s.fired l with
  | some fired =>
      obtain ⟨-, waiting, here, rfl⟩ := step_of_fired h firing
      exact Or.inl (stepped here (.idleFired waiting) rfl)
  | none =>
      cases move_of_step h firing with
      | created label booting booted apps heap holder =>
          rw [heap, List.getElem?_append] at there
          split at there
          · exact Or.inl ⟨j, there, Or.inl rfl⟩
          · next outside =>
              obtain ⟨last, value⟩ := List.getElem?_eq_some_iff.mp there
              have address : k = s.heap.length :=
                Nat.le_antisymm (Nat.le_of_sub_eq_zero (Nat.lt_one_iff.mp last))
                  (Nat.le_of_not_lt outside)
              subst address
              simp only [Nat.sub_self, List.getElem_cons_zero] at value
              exact Or.inr ⟨_, ⟨⟨_, _, label, booting, booted, holder⟩, apps⟩, rfl, value.symm⟩
      | quiet _ heap _ | shared _ _ _ _ heap _ | opened _ _ _ heap _ | failed _ _ heap _
      | registered _ _ heap _ => exact Or.inl (same heap)
      | went _ here started _ heap _ => exact Or.inl (stepped here (.go _ started) heap)
      | changed here change _ heap _ | removed _ here _ change _ heap _ =>
          exact Or.inl (stepped here change heap)

/-- **Where an app goes.** -/
theorem after_of_step (h : s.step T hash l = some t) {k : AppId} {i : Instance}
    (here : s.heap[k]? = some i) : ∃ j, t.heap[k]? = some j ∧ i.Next j := by
  have same : t.heap = s.heap → ∃ j, t.heap[k]? = some j ∧ i.Next j := by
    intro heap
    exact ⟨i, by rw [heap]; exact here, Or.inl rfl⟩
  have stepped : ∀ {id i' j'}, s.heap[id]? = some i' → i'.Change j' →
      t.heap = s.heap.set id j' → ∃ j, t.heap[k]? = some j ∧ i.Next j := by
    intro id i' j' here' change heap
    rw [heap]
    by_cases address : k = id
    · subst address
      rw [here] at here'
      cases here'
      exact ⟨j', (getElem?_set_eq_some here).mpr (Or.inl ⟨rfl, rfl⟩), Or.inr change⟩
    · exact ⟨i, (getElem?_set_eq_some here').mpr (Or.inr ⟨address, here⟩), Or.inl rfl⟩
  cases firing : s.fired l with
  | some fired =>
      obtain ⟨-, waiting, here', rfl⟩ := step_of_fired h firing
      exact stepped here' (.idleFired waiting) rfl
  | none =>
      cases move_of_step h firing with
      | created label booting booted apps heap holder =>
          refine ⟨i, ?_, Or.inl rfl⟩
          rw [heap, List.getElem?_append_left (List.getElem?_eq_some_iff.mp here).1]
          exact here
      | quiet _ heap _ | shared _ _ _ _ heap _ | opened _ _ _ heap _ | failed _ _ heap _
      | registered _ _ heap _ => exact same heap
      | went _ here started _ heap _ => exact stepped here (.go _ started) heap
      | changed here change _ heap _ | removed _ here _ change _ heap _ =>
          exact stepped here change heap

/-! ## Which step changes an app -/

/-- The steps that change an app, with what they change. -/
inductive Changed (s : Pool) : Label → AppId → Instance → Instance → Prop
  | went {id : AppId} {identity : Identity} {g : Goroutine} {left : List Goroutine}
      {i j : Instance} (starting : s.holder = some (.starting id identity (g :: left)))
      (started : i.go g = some j) : Changed s .go id i j
  | act {id : AppId} {a : Instance.Action} {i j : Instance} (acted : i.act a = some j) :
      Changed s (.act id a) id i j
  | killRemoved {id : AppId} {killer : Killer} {i : Instance}
      (due : i.killPc killer = some .remove) :
      Changed s (.killRemove id killer) id i (i.afterKill killer)
  | watchRemoved {id : AppId} {i : Instance} (due : i.watch = .remove) :
      Changed s (.watchRemove id) id i i.watchRemoved
  | watchDone {id : AppId} {i : Instance} (due : i.watch = .unlink) :
      Changed s (.unlink id) id i i.watchDone
  | idleFired {id : AppId} {i : Instance} (waiting : i.idle = .select) (expired : s.Expired i) :
      Changed s (.maybeIdle id) id i i.idleFired
  | used {id : AppId} {i : Instance} (ready : i.ready = true) (alive : ¬ i.Dying) :
      Changed s (.use id) id i (i.used s.clock)
  | killed {job : ℕ} {id : AppId} {toKill toWait : List AppId} {i : Instance}
      (listed : s.purges[job]? = some ⟨id :: toKill, toWait⟩) :
      Changed s (.purgeKill job) id i i.kill

/-- **What a step does to the apps**: nothing, or one app is new, or one is changed. -/
theorem heap_of_step (h : s.step T hash l = some t) :
    t.heap = s.heap ∨ (∃ app, t.heap = s.heap ++ [Instance.create app s.clock]) ∨
      ∃ id i j, s.heap[id]? = some i ∧ Changed s l id i j ∧ t.heap = s.heap.set id j := by
  have changed : ∀ {id i j}, s.heap[id]? = some i → Changed s l id i j →
      t.heap = s.heap.set id j → t.heap = s.heap ∨
        (∃ app, t.heap = s.heap ++ [Instance.create app s.clock]) ∨
          ∃ id i j, s.heap[id]? = some i ∧ Changed s l id i j ∧ t.heap = s.heap.set id j :=
    fun here change heap => Or.inr (Or.inr ⟨_, _, _, here, change, heap⟩)
  cases stepsTo_of_step h with
  | created => exact Or.inr (Or.inl ⟨_, rfl⟩)
  | went starting here started => exact changed here (.went starting started) rfl
  | acted here acted => exact changed here (.act acted) rfl
  | killRemoved _ here due => exact changed here (.killRemoved due) rfl
  | watchRemoved _ here due => exact changed here (.watchRemoved due) rfl
  | unlinked here due => exact changed here (.watchDone due) rfl
  | idleFired _ here waiting expired => exact changed here (.idleFired waiting expired) rfl
  | used here ready alive => exact changed here (.used ready alive) rfl
  | purgeKilled listed here => exact changed here (.killed listed) rfl
  | _ => exact Or.inl rfl

/-- **What a step does to one app**: nothing, or what its label says. -/
theorem changed_of_step (h : s.step T hash l = some t) {id : AppId} {i j : Instance}
    (here : s.heap[id]? = some i) (there : t.heap[id]? = some j) :
    j = i ∨ Changed s l id i j := by
  rcases heap_of_step h with heap | ⟨app, heap⟩ | ⟨id', i', j', here', changed, heap⟩
  · rw [heap, here] at there
    exact Or.inl (Option.some.inj there).symm
  · rw [heap, List.getElem?_append_left (List.getElem?_eq_some_iff.mp here).1, here] at there
    exact Or.inl (Option.some.inj there).symm
  · rw [heap, getElem?_set_eq_some here'] at there
    rcases there with ⟨rfl, rfl⟩ | ⟨-, old⟩
    · rw [here] at here'
      cases here'
      exact Or.inr changed
    · rw [here] at old
      exact Or.inl (Option.some.inj old).symm

/-! ## The invariant -/

/-- What no interleaving can break. -/
structure WellFormed (s : Pool) : Prop where
  /-- Every key leads to an app. -/
  keys : ∀ k id, s.apps.lookup k = some id → ∃ i, s.heap[id]? = some i
  /-- The positions of all goroutines are in order. -/
  ok : ∀ (id : AppId) (i : Instance), s.heap[id]? = some i → i.Ok
  /-- An app is about to be created under names that lead nowhere. -/
  booting : ∀ request, s.holder = some (.booting request) →
    ∀ k, request.identity.Names k → s.apps.lookup k = none
  /-- An app that is being started has the name it will be registered under; that
  name and its alias lead nowhere, and no key leads to the app. -/
  starting : ∀ id identity left, s.holder = some (.starting id identity left) →
    (∀ k, identity.Names k → s.apps.lookup k = none) ∧
      (∃ i, s.heap[id]? = some i ∧ i.app.name = identity.canonicalName) ∧
      ∀ k, s.apps.lookup k ≠ some id
  /-- An app whose `watch` has not been started is still being started. -/
  unborn : ∀ (id : AppId) (i : Instance), s.heap[id]? = some i → i.watch = .unborn →
    ∃ identity left, s.holder = some (.starting id identity left) ∧ .watch ∈ left

theorem wellFormed_empty (dir : Filepath.CleanDir) (idleTime : ℤ) :
    WellFormed (empty dir idleTime) where
  keys k id h := by simp [empty] at h
  ok id i h := by simp [empty] at h
  booting request h := by cases h
  starting id identity left h := by cases h
  unborn id i h := by simp [empty] at h

/-- Nothing that gets into the map is without an app. -/
theorem keys_of_step (h : s.step T hash l = some t) (inv : WellFormed s) :
    ∀ k id, t.apps.lookup k = some id → ∃ i, t.heap[id]? = some i := by
  have kept : ∀ {id : AppId}, (∃ i, s.heap[id]? = some i) → ∃ j, t.heap[id]? = some j := by
    rintro id ⟨i, here⟩
    obtain ⟨j, there, -⟩ := after_of_step h here
    exact ⟨j, there⟩
  intro k id found
  cases firing : s.fired l with
  | some fired =>
      obtain ⟨-, -, -, rfl⟩ := step_of_fired h firing
      exact kept (inv.keys k id (Registry.lookup_erase_eq_some.mp found).2)
  | none =>
      cases move_of_step h firing with
      | quiet apps _ _ | opened _ _ apps _ _ | failed _ apps _ _ | created _ _ _ apps _ _
      | went _ _ _ apps _ _ | changed _ _ apps _ _ =>
          rw [apps] at found
          exact kept (inv.keys k id found)
      | shared _ canonical _ apps _ _ =>
          rw [apps, lookup_register_eq_some] at found
          rcases found with ⟨-, rfl⟩ | ⟨-, old⟩
          · exact kept (inv.keys _ _ canonical)
          · exact kept (inv.keys k id old)
      | registered starting apps _ _ =>
          rw [apps, lookup_register_eq_some] at found
          rcases found with ⟨-, rfl⟩ | ⟨-, old⟩
          · obtain ⟨-, ⟨i, here, -⟩, -⟩ := inv.starting _ _ _ starting
            exact kept ⟨i, here⟩
          · exact kept (inv.keys k id old)
      | removed _ _ _ _ apps _ _ =>
          rw [apps, Registry.lookup_drop] at found
          exact kept (inv.keys k id found.1)

/-- The lookup that has created an app starts its `watch` before it lets the lock go. -/
theorem unborn_of_step (h : s.step T hash l = some t) (inv : WellFormed s) :
    ∀ (id : AppId) (j : Instance), t.heap[id]? = some j → j.watch = .unborn →
      ∃ identity left, t.holder = some (.starting id identity left) ∧ .watch ∈ left := by
  intro id j there unborn
  rcases before_of_step h there with ⟨i, here, next⟩ | ⟨app, creates, rfl, rfl⟩
  · have before : i.watch = .unborn := by
      by_contra born
      exact next.evolves.born born unborn
    obtain ⟨identity, left, starting, mem⟩ := inv.unborn id i here before
    have held : s.holder ≠ none := by
      rw [starting]
      simp
    cases firing : s.fired l with
    | some fired => exact absurd (step_of_fired h firing).1 held
    | none =>
        cases move_of_step h firing with
        | quiet _ _ holder | changed _ _ _ _ holder =>
            exact ⟨identity, left, holder.trans starting, mem⟩
        | shared free | opened free | removed free => exact absurd free held
        | failed booting | created _ booting =>
            rw [starting] at booting
            cases booting
        | registered starting' =>
            rw [starting] at starting'
            cases starting'
            cases mem
        | went starting' here' started _ heap holder =>
            rw [starting] at starting'
            cases starting'
            rcases List.mem_cons.mp mem with rfl | later
            · rw [heap, getElem?_set_eq_some here'] at there
              rcases there with ⟨-, rfl⟩ | ⟨other, -⟩
              · obtain ⟨-, value⟩ := Option.ite_none_right_eq_some.mp started
                cases value
                cases unborn
              · exact absurd rfl other
            · exact ⟨identity, _, holder, later⟩
  · obtain ⟨os, request, -, -, -, holder⟩ := creates.booted
    refine ⟨_, _, holder, ?_⟩
    cases command : app.command.isSome with
    | true => simp [Instance.goroutines, command]
    | false => simp [Instance.create, command] at unborn

/-- **The invariant is kept by every step.** -/
theorem wellFormed_of_step (h : s.step T hash l = some t) (inv : WellFormed s) :
    WellFormed t := by
  have ok : ∀ (id : AppId) (i : Instance), t.heap[id]? = some i → i.Ok := by
    intro id j there
    rcases before_of_step h there with ⟨i, here, next⟩ | ⟨app, -, -, rfl⟩
    · exact next.ok (inv.ok id i here)
    · exact Instance.ok_create app s.clock
  have names : ∀ {id : AppId} {name : GoString}, (∃ i, s.heap[id]? = some i ∧ i.app.name = name) →
      ∃ j, t.heap[id]? = some j ∧ j.app.name = name := by
    rintro id name ⟨i, here, named⟩
    obtain ⟨j, there, next⟩ := after_of_step h here
    exact ⟨j, there, by rw [next.evolves.app]; exact named⟩
  have keys := keys_of_step h inv
  have unborn := unborn_of_step h inv
  -- while a lookup holds the lock nobody else changes the map
  have held : t.holder = s.holder → t.apps = s.apps → WellFormed t := fun holder apps =>
    { keys := keys
      ok := ok
      booting := fun request booting => by
        rw [apps]
        exact inv.booting request (holder ▸ booting)
      starting := fun id identity left starting => by
        rw [apps]
        obtain ⟨unused, named, unknown⟩ := inv.starting id identity left (holder ▸ starting)
        exact ⟨unused, names named, unknown⟩
      unborn := unborn }
  have released : t.holder = none → WellFormed t := fun holder =>
    { keys := keys
      ok := ok
      booting := fun request booting => by rw [holder] at booting; cases booting
      starting := fun id identity left starting => by rw [holder] at starting; cases starting
      unborn := unborn }
  cases firing : s.fired l with
  | some fired =>
      obtain ⟨free, -, -, rfl⟩ := step_of_fired h firing
      exact released free
  | none =>
      cases move_of_step h firing with
      | quiet apps _ holder | changed _ _ apps _ holder => exact held holder apps
      | shared free _ _ _ _ holder | removed free _ _ _ _ _ holder =>
          exact released (holder.trans free)
      | failed _ _ _ holder | registered _ _ _ holder => exact released holder
      | opened _ unused apps _ holder =>
          refine ⟨keys, ok, fun request booting => ?_, fun id identity left starting => ?_,
            unborn⟩
          · rw [holder] at booting
            cases booting
            rw [apps]
            exact unused
          · rw [holder] at starting
            cases starting
      | went starting _ _ apps _ holder =>
          refine ⟨keys, ok, fun request booting => ?_, fun id identity left starting' => ?_,
            unborn⟩
          · rw [holder] at booting
            cases booting
          · rw [holder] at starting'
            cases starting'
            obtain ⟨unused, named, unknown⟩ := inv.starting _ _ _ starting
            rw [apps]
            exact ⟨unused, names named, unknown⟩
      | @created os request app _ booting booted apps heap holder =>
          refine ⟨keys, ok, fun request' booting' => ?_, fun id identity left starting => ?_,
            unborn⟩
          · rw [holder] at booting'
            cases booting'
          · rw [holder] at starting
            cases starting
            rw [apps]
            refine ⟨inv.booting _ booting, ⟨.create app s.clock, ?_, ?_⟩, fun k found => ?_⟩
            · rw [heap]
              exact List.getElem?_concat_length
            · exact name_of_boot booted
            · -- the address is new
              obtain ⟨i, here⟩ := inv.keys k _ found
              rw [List.getElem?_eq_none (Nat.le_refl _)] at here
              cases here

/-- **The invariant holds in every state of every run.** -/
theorem wellFormed_of_visited {dir : Filepath.CleanDir} {idleTime : ℤ} (ls : List Label) :
    ∀ s ∈ (poolMachine T hash dir idleTime).visited (poolMachine T hash dir idleTime).init ls,
      WellFormed s :=
  (poolMachine T hash dir idleTime).inv_of_step
    (fun _ _ _ inv h => wellFormed_of_step h inv) ls (wellFormed_empty dir idleTime)

end Pool

end PumaDev
