import Mathlib.Algebra.Order.BigOperators.Group.List
import PumaDev.Dev.AppProgress

/-!
# A purge can always come to its end

`Purge` waits for the goroutines of every app it has listed.  These kill their process and
wait for it, and take the lock of the pool for `pool.remove`; the lock may be with a lookup
that is starting an app; and other purges may be waiting for the same apps.  None of this is
a deadlock.

`Pool.Winds` singles out the steps that only wind things up: the lookup that holds the lock
finishes, the goroutines go through their ends, and a process exits, but only if SIGTERM was
delivered to it.  `purge_returns` says that from every state of every run such steps alone
bring every purge to its end: as long as processes end on SIGTERM, no interleaving has made
`Purge` wait for ever.

All this takes a hub.  Every goroutine emits events, `Purge` itself one for each app and a last
one, and without a hub the first of them that can be decoded panics.  So the pool runs together
with the events here (`reportingMachine`), which may be any events at any step.
-/

namespace PumaDev

namespace Pool

variable {T : PrintTable} {hash : GoString → GoString} {s t : Pool} {l : Label}

/-! ## The purges of a run -/

/-- Where the purges of a run are: the apps that one has listed are there, and the tombs of
those that it is past have been killed. -/
structure Purging (s : Pool) : Prop where
  orderly : s.Orderly
  killing : ∀ (job : ℕ) (p : PurgeJob), s.purges[job]? = some p → p.toKill ⊆ p.toWait
  waiting : ∀ (job : ℕ) (p : PurgeJob), s.purges[job]? = some p → ∀ id ∈ p.toWait,
    ∃ i, s.heap[id]? = some i ∧ (id ∈ p.toKill ∨ i.killed = true)

theorem purging_empty (dir : Filepath.CleanDir) (idleTime : ℤ) : (empty dir idleTime).Purging where
  orderly := orderly_empty dir idleTime
  killing job p h := by simp [empty] at h
  waiting job p h := by simp [empty] at h

/-- The jobs of the next state: an old one, with less to do, or a new one. -/
theorem job_of_step (h : s.step T hash l = some t) {job : ℕ} {q : PurgeJob}
    (there : t.purges[job]? = some q) :
    s.purges[job]? = some q ∨ (q = ⟨s.apps.values, s.apps.values⟩ ∧ t.heap = s.heap) ∨
      (∃ id i, s.purges[job]? = some ⟨id :: q.toKill, q.toWait⟩ ∧ s.heap[id]? = some i ∧
        t.heap = s.heap.set id i.kill) ∨
      ∃ id, s.purges[job]? = some ⟨[], id :: q.toWait⟩ ∧ q.toKill = [] := by
  cases stepsTo_of_step h with
  | purging =>
      rw [List.getElem?_append] at there
      split at there
      · exact .inl there
      · exact .inr (.inl ⟨List.mem_singleton.mp (List.mem_of_getElem? there), rfl⟩)
  | @purgeKilled job' id toKill toWait i listed here =>
      by_cases own : job' = job
      · subst own
        rw [List.getElem?_set_self (List.getElem?_eq_some_iff.mp listed).1] at there
        cases there
        exact .inr (.inr (.inl ⟨id, i, listed, here, rfl⟩))
      · rw [List.getElem?_set_ne own] at there
        exact .inl there
  | @purgeWaited job' id toWait i listed here dead =>
      by_cases own : job' = job
      · subst own
        rw [List.getElem?_set_self (List.getElem?_eq_some_iff.mp listed).1] at there
        cases there
        exact .inr (.inr (.inr ⟨id, listed, rfl⟩))
      · rw [List.getElem?_set_ne own] at there
        exact .inl there
  | _ => exact .inl there

/-- **A step keeps it.** -/
theorem Purging.of_step (inv : s.Purging) (h : s.step T hash l = some t) : t.Purging where
  orderly := inv.orderly.of_step h
  killing job q there := by
    rcases job_of_step h there with old | ⟨rfl, -⟩ | ⟨id, i, old, -, -⟩ | ⟨id, old, nothing⟩
    · exact inv.killing job q old
    · exact fun _ => id
    · exact fun x mem => inv.killing job _ old (List.mem_cons_of_mem _ mem)
    · simp [nothing]
  waiting job q there := by
    -- an app that was killed stays so
    have stays : ∀ (id : AppId) (i : Instance), s.heap[id]? = some i → i.killed = true →
        ∃ j, t.heap[id]? = some j ∧ j.killed = true := by
      intro id i here killed
      obtain ⟨j, there, next⟩ := after_of_step h here
      exact ⟨j, there, next.evolves.killed killed⟩
    have carried : ∀ (id : AppId) (i : Instance), s.heap[id]? = some i →
        ∀ toKill : List AppId, (id ∈ toKill ∨ i.killed = true) →
        ∃ j, t.heap[id]? = some j ∧ (id ∈ toKill ∨ j.killed = true) := by
      intro id i here toKill due
      rcases due with listed | killed
      · obtain ⟨j, there, -⟩ := after_of_step h here
        exact ⟨j, there, .inl listed⟩
      · obtain ⟨j, there, killed'⟩ := stays id i here killed
        exact ⟨j, there, .inr killed'⟩
    intro x mem
    rcases job_of_step h there with old | ⟨rfl, heap⟩ | ⟨id, i, old, here, heap⟩ |
      ⟨id, old, nothing⟩
    · obtain ⟨i, here, due⟩ := inv.waiting job q old x mem
      exact carried x i here _ due
    · obtain ⟨k, found⟩ := Registry.mem_values.mp mem
      obtain ⟨i, here⟩ := inv.orderly.wellFormed.keys k x found
      exact ⟨i, by rw [heap]; exact here, .inl mem⟩
    · obtain ⟨i', here', due⟩ := inv.waiting job _ old x mem
      by_cases own : x = id
      · subst own
        exact ⟨i.kill, by rw [heap]; exact (getElem?_set_eq_some here).mpr (.inl ⟨rfl, rfl⟩),
          .inr rfl⟩
      · refine carried x i' here' _ (due.imp_left fun listed => ?_)
        exact (List.mem_cons.mp listed).resolve_left own
    · obtain ⟨i, here, due⟩ := inv.waiting job _ old x (List.mem_cons_of_mem _ mem)
      exact carried x i here _ (.inr (due.resolve_left List.not_mem_nil))

/-! ## What a purge has left -/

/-- How many steps a purge has left, with those of the apps that it waits for. -/
def purgeLeft (s : Pool) (job : ℕ) : ℕ :=
  match s.purges[job]? with
  | none => 0
  | some p => p.toKill.length + p.toWait.length + (p.toWait.map s.leftAt).sum

/-- Where no app has more left, the purges have no more left. -/
theorem purgeLeft_le {job : ℕ} (purges : t.purges = s.purges)
    (fewer : ∀ p, s.purges[job]? = some p → ∀ id ∈ p.toWait, t.leftAt id ≤ s.leftAt id) :
    t.purgeLeft job ≤ s.purgeLeft job := by
  unfold purgeLeft
  rw [purges]
  cases at_ : s.purges[job]? with
  | none => exact le_rfl
  | some p => exact Nat.add_le_add_left (List.sum_le_sum (fewer p at_)) _

/-- All that is left until a purge returns. -/
def left (s : Pool) (job : ℕ) : ℕ := holderLeft s.holder + s.purgeLeft job

/-- The lookup that holds the lock leaves the purges no more to do. -/
theorem Purging.left_lt (inv : s.Purging) (goes : HolderGoes T hash s l t) (job : ℕ) :
    t.left job < s.left job := by
  have fewer := goes.fewer
  have le : t.purgeLeft job ≤ s.purgeLeft job :=
    purgeLeft_le goes.purges fun p listed id mem => by
      obtain ⟨i, here, -⟩ := inv.waiting job p listed id mem
      exact goes.leftAt_le here
  simp only [left]
  omega

/-- **A purge can go on**, once the lock is free. -/
theorem Purging.purge_goes (inv : s.Purging) (free : s.Free) {job : ℕ} {p : PurgeJob}
    (listed : s.purges[job]? = some p) (busy : p ≠ ⟨[], []⟩) :
    ∃ l t, s.step T hash l = some t ∧ s.Winds l ∧ t.left job < s.left job := by
  have inside : job < s.purges.length := (List.getElem?_eq_some_iff.mp listed).1
  obtain ⟨toKill, toWait⟩ := p
  cases toKill with
  | cons id toKill =>
      have mem : id ∈ toWait := inv.killing job _ listed List.mem_cons_self
      obtain ⟨i, here, -⟩ := inv.waiting job _ listed id mem
      refine ⟨.purgeKill job,
        { s with purges := s.purges.set job ⟨toKill, toWait⟩, heap := s.heap.set id i.kill }, ?_,
        trivial, ?_⟩
      · simp only [step, listed]
        exact modify_eq_some.mpr ⟨i, _, here, rfl, rfl⟩
      · have same : ∀ k, ({ s with
            purges := s.purges.set job ⟨toKill, toWait⟩
            heap := s.heap.set id i.kill } : Pool).leftAt k = s.leftAt k := by
          intro k
          rw [leftAt_of_set here rfl]
          split
          · next own =>
              subst own
              simp [leftAt, here]
              rfl
          · rfl
        simp only [left, purgeLeft, listed, List.getElem?_set_self inside, List.length_cons]
        rw [List.map_congr_left fun k _ => same k]
        omega
  | nil =>
      cases toWait with
      | nil => exact absurd rfl busy
      | cons id toWait =>
          obtain ⟨i, here, due⟩ := inv.waiting job _ listed id List.mem_cons_self
          by_cases dead : i.Dead
          · refine ⟨.purgeWait job, { s with purges := s.purges.set job ⟨[], toWait⟩ },
              by simp [step, listed, here, dead], trivial, ?_⟩
            have same : ∀ k, ({ s with purges := s.purges.set job ⟨[], toWait⟩ } : Pool).leftAt k =
                s.leftAt k := fun _ => rfl
            simp only [left, purgeLeft, listed, List.getElem?_set_self inside, List.length_cons,
              List.map_cons, List.sum_cons]
            rw [List.map_congr_left fun k _ => same k]
            omega
          · have killed : i.killed = true := due.resolve_left List.not_mem_nil
            obtain ⟨l, t, nearer⟩ := exists_nearer free here (inv.orderly.settled free here)
              (.inr killed) (.inr (.inr (.inr (.inl killed)))) dead
            obtain ⟨j, heap, fewer⟩ := nearer.heap
            refine ⟨l, t, nearer.step, nearer.winds killed, ?_⟩
            have at_ : ∀ k, t.leftAt k ≤ s.leftAt k := by
              intro k
              rw [leftAt_of_set here heap]
              split
              · next own =>
                  subst own
                  simpa [leftAt, here] using fewer.le
              · exact le_rfl
            have less : t.leftAt id < s.leftAt id := by
              rw [leftAt_of_set here heap, if_pos rfl]
              simpa [leftAt, here] using fewer
            have rest : (toWait.map t.leftAt).sum ≤ (toWait.map s.leftAt).sum :=
              List.sum_le_sum fun k _ => at_ k
            simp only [left, purgeLeft, nearer.holder, nearer.purges, listed, List.map_cons,
              List.sum_cons]
            omega

/-- From here on the purge can return. -/
theorem Purging.returns {dir : Filepath.CleanDir} {idleTime : ℤ} (inv : s.Purging) {job : ℕ}
    (called : job < s.purges.length) : ∃ ls t,
      (poolMachine T hash dir idleTime).exec s ls = some t ∧
        (poolMachine T hash dir idleTime).Guarded Winds s ls ∧ t.PurgeReturned job := by
  have goes : ∀ s : Pool, s.Purging ∧ job < s.purges.length → ¬s.PurgeReturned job →
      ∃ l t, (poolMachine T hash dir idleTime).step s l = some t ∧ s.Winds l ∧
        (t.Purging ∧ job < t.purges.length) ∧ t.left job < s.left job := by
    rintro s ⟨inv, called⟩ busy
    have listed := List.getElem?_eq_getElem called
    obtain ⟨l, t, step, winds, fewer⟩ : ∃ l t, s.step T hash l = some t ∧ s.Winds l ∧
        t.left job < s.left job := by
      cases taken : s.holder with
      | some held =>
          obtain ⟨l, t, goes⟩ := inv.orderly.holder_goes taken
          exact ⟨l, t, goes.step, goes.winds, inv.left_lt goes job⟩
      | none =>
          refine inv.purge_goes taken listed fun done => busy ?_
          rw [PurgeReturned, listed, done]
    obtain ⟨q, there, -⟩ := purge_of_step step listed
    exact ⟨l, t, step, winds, ⟨inv.of_step step, (List.getElem?_eq_some_iff.mp there).1⟩, fewer⟩
  obtain ⟨ls, t, run, winds, -, returned⟩ := (poolMachine T hash dir idleTime).reaches
    (fun s => s.PurgeReturned job) Winds (fun s => s.left job) goes ⟨inv, called⟩
  exact ⟨ls, t, run, winds, returned⟩

/-! ## The events -/

/-- A step of the pool, with the events that are emitted in it and their times. -/
structure ReportedStep where
  label : Label
  events : List (PlainText × EventCall)

/-- The pool, and the events of the process. -/
structure Reporting where
  pool : Pool
  events : EventState

/-- `Events.Add`, one call after the other. -/
def addAll (T : PrintTable) (calls : List (PlainText × EventCall)) (s : EventState) :
    Except EventState EventState :=
  calls.foldlM (fun s call => call.2.await T call.1 s) s

/-- The pool with its events.  An event that panics ends the process: there is no step then. -/
def reportingMachine (T : PrintTable) (hash : GoString → GoString) (dir : Filepath.CleanDir)
    (idleTime : ℤ) (events : EventState) : Machine Reporting ReportedStep where
  init := ⟨.empty dir idleTime, events⟩
  step s l := (s.pool.step T hash l.label).bind fun pool =>
    (addAll T l.events s.events).toOption.map fun events => ⟨pool, events⟩

/-- There is a hub. -/
def HasHub (s : EventState) : Prop := s.rpcService.wsChannel ≠ none

/-- **With a hub every event comes back**, and leaves the hub there. -/
theorem exists_addAll {events : EventState} (hub : HasHub events)
    (calls : List (PlainText × EventCall)) :
    ∃ after, addAll T calls events = .ok after ∧ HasHub after := by
  induction calls generalizing events with
  | nil => exact ⟨events, rfl, hub⟩
  | cons call rest ih =>
      obtain ⟨next, added⟩ := EventCall.await_iff.mpr
        (Or.inl hub : _ ∨ ¬ call.2.WellFormed T call.1)
      have still : HasHub next := by
        rw [HasHub, ← Option.isSome_iff_ne_none, EventCall.isSome_await added]
        exact Option.isSome_iff_ne_none.mpr hub
      obtain ⟨after, rest_, there⟩ := ih still
      refine ⟨after, ?_, there⟩
      rw [addAll, List.foldlM_cons, added]
      exact rest_

/-- **The events hold nothing up**, as long as there is a hub. -/
theorem exists_reported {dir : Filepath.CleanDir} {idleTime : ℤ} {start : EventState}
    {s : Reporting} (hub : HasHub s.events) {reported : List ReportedStep} {t : Pool}
    (run : (poolMachine T hash dir idleTime).exec s.pool (reported.map ReportedStep.label) =
      some t) :
    ∃ u, (reportingMachine T hash dir idleTime start).exec s reported = some u ∧ u.pool = t ∧
      HasHub u.events := by
  induction reported generalizing s with
  | nil =>
      cases run
      exact ⟨s, rfl, rfl, hub⟩
  | cons l rest ih =>
      obtain ⟨pool, step, later⟩ := Option.bind_eq_some_iff.mp run
      obtain ⟨after, added, there⟩ := exists_addAll (T := T) hub l.events
      have stepped : (reportingMachine T hash dir idleTime start).step s l =
          some ⟨pool, after⟩ := by
        have moved : s.pool.step T hash l.label = some pool := step
        simp only [reportingMachine, moved, added, Option.bind_some]
        rfl
      rw [(reportingMachine T hash dir idleTime start).exec_of_step stepped]
      exact ih there later

/-! ## Every purge can return -/

/-- **No purge is stuck**, where there is a hub for the events.  From every state of every run,
for every purge that has been called: there are steps that only wind things up, in which a
process exits only after SIGTERM was delivered to it, and which bring the purge to its last
event; and whatever events are emitted on the way, they all come back, and so does that one. -/
theorem purge_returns {dir : Filepath.CleanDir} {idleTime : ℤ} {events : EventState}
    (hub : HasHub events) (ls : List ReportedStep) :
    ∀ s ∈ (reportingMachine T hash dir idleTime events).visited
        (reportingMachine T hash dir idleTime events).init ls,
      ∀ job < s.pool.purges.length, ∃ ls' t,
        (poolMachine T hash dir idleTime).exec s.pool ls' = some t ∧
          (poolMachine T hash dir idleTime).Guarded Winds s.pool ls' ∧ t.PurgeReturned job ∧
          ∀ reported : List ReportedStep, reported.map ReportedStep.label = ls' →
            ∃ u, (reportingMachine T hash dir idleTime events).exec s reported = some u ∧
              u.pool = t ∧
                ∀ now, ∃ after, EventCall.appsPurged.await T now u.events = .ok after := by
  intro s visited job called
  obtain ⟨inv, there⟩ : s.pool.Purging ∧ HasHub s.events := by
    refine (reportingMachine T hash dir idleTime events).inv_of_step
      (P := fun s => s.pool.Purging ∧ HasHub s.events) (fun s l t inv h => ?_) ls
      ⟨purging_empty dir idleTime, hub⟩ s visited
    obtain ⟨pool, step, rest⟩ := Option.bind_eq_some_iff.mp h
    obtain ⟨after, added, stays⟩ := exists_addAll (T := T) inv.2 l.events
    rw [added] at rest
    cases rest
    exact ⟨inv.1.of_step step, stays⟩
  obtain ⟨ls', t, run, winds, returned⟩ := inv.returns called
  refine ⟨ls', t, run, winds, returned, fun reported same => ?_⟩
  subst same
  obtain ⟨u, reports, arrived, still⟩ := exists_reported there run
  exact ⟨u, reports, arrived, fun now => EventCall.await_iff.mpr (Or.inl still)⟩

/-- One app, and a purge that has only just listed it; the hub has been created, and does not
run yet. -/
theorem purge_returns_blog : ∃ (s : Reporting) (ls : List Label) (t : Pool),
    s.pool.purges[0]? = some ⟨[0], [0]⟩ ∧ plainPool.exec s.pool ls = some t ∧
      plainPool.Guarded Winds s.pool ls ∧ t.PurgeReturned 0 := by
  have created : HasHub ⟨.zero, ⟨some ⟨false, [], []⟩⟩⟩ := Option.some_ne_none _
  have facts : ((reportingMachine .asciiOnly blogDigest .home 900
      ⟨.zero, ⟨some ⟨false, [], []⟩⟩⟩).exec ⟨.empty .home 900, ⟨.zero, ⟨some ⟨false, [], []⟩⟩⟩⟩
        ((startApp "blog".toList .everyDirectory ++ [Label.purge]).map fun l => ⟨l, []⟩)).map
          (fun s => s.pool.purges) = some [⟨[0], [0]⟩] := by decide
  obtain ⟨s, reached, purges⟩ := Machine.exists_visited_of_map _ facts
  obtain ⟨ls, t, run, winds, returned, -⟩ :=
    purge_returns created _ s reached 0 (by rw [purges]; decide)
  exact ⟨s, ls, t, by rw [purges]; rfl, run, winds, returned⟩

end Pool

end PumaDev
