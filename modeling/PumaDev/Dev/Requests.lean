import PumaDev.Dev.PoolProcesses
import PumaDev.Lib.Tomb

/-!
# Requests that wait for their app

A request looks its app up, and then waits in `WaitTilReady` until the app is ready or
dying.  The pool's machine has the lookup; here every app that a lookup hands out opens
a **visit**, which goes through `WaitTilReady` step by step, while the pool and all
other visits move on.

Two things are added to the pool for that.  Each app has its tomb, since the reason a
tomb was killed for is what `WaitTilReady` returns once it has found the app dying.
And a visit keeps a history: when its app was handed out, what it saw at its last
check, and the time it has stored in `lastUse`.

`a.lastUse = time.Now()` is two steps: the clock is read, and then the result is
stored.
-/

namespace PumaDev

/-- The errors that the goroutines of an app return to its tomb. -/
inductive Cause where
  /-- `watch` was woken by the end of the output: `ErrUnexpectedExit`. -/
  | unexpectedExit
  /-- The probe was woken by the tomb: `app died before booting`. -/
  | diedBeforeBooting
  /-- `restartMonitor` could not watch its file. -/
  | notWatching
  deriving DecidableEq

/-- What a visit sees of its app in a `select`. -/
structure Check where
  /-- `readyChan` is closed. -/
  ready : Bool
  /-- `t.Dying()` is closed. -/
  dying : Bool
  deriving DecidableEq

/-- The points of `WaitTilReady`. -/
inductive VisitPc where
  /-- Before the outer `select`. -/
  | waiting
  /-- `readyChan` was closed: before the inner `select`. -/
  | recheck
  /-- Before `time.Now()`. -/
  | reading
  /-- Before `a.lastUse` is assigned. -/
  | storing (now : ℤ)
  /-- `t.Dying()` was closed: before `a.t.Err()`. -/
  | failing
  | returned (err : Option (Tomb.Err Cause))
  deriving DecidableEq

/-- A request, from the moment it has its app. -/
structure Visit where
  app : AppId
  /-- When `lookupApp` returned the app. -/
  obtained : ℤ
  pc : VisitPc
  /-- The last `select` it went through. -/
  lastCheck : Option Check
  /-- The time it has stored in `lastUse`. -/
  stored : Option ℤ
  deriving DecidableEq

/-- A pool and its requests. -/
structure Requests where
  pool : Pool
  tombs : AppId → Tomb Cause
  /-- The errors that goroutines have returned, with their apps. -/
  reported : List (AppId × Cause)
  /-- Every visit, by its address. -/
  visits : List Visit

/-- A step of the pool, or of a visit. -/
inductive RequestLabel where
  | pool (l : Label)
  /-- The outer `select`, with the case it takes. -/
  | select (n : ℕ) (ready : Bool)
  | recheck (n : ℕ)
  /-- `time.Now()`. -/
  | now (n : ℕ)
  /-- `a.lastUse` is assigned, and nil returned. -/
  | store (n : ℕ)
  /-- `a.t.Err()` is returned. -/
  | readErr (n : ℕ)

/-- The visit a label is about. -/
def RequestLabel.visit : RequestLabel → Option ℕ
  | select n _ | recheck n | now n | store n | readErr n => some n
  | pool _ => none

namespace Pool

/-- `t.Dying()` is closed for the app. -/
def dying (s : Pool) (id : AppId) : Bool := s.heap[id]?.any fun i => decide i.Dying

/-- The error that a goroutine returns to its tomb in this step. -/
def errorOf (s : Pool) : Label → Option (AppId × Cause)
  | .act id .restartFails => some (id, .notWatching)
  | .act id .probeDying => some (id, .diedBeforeBooting)
  | .unlink id =>
      match s.heap[id]? with
      | some i => if i.watchErr then some (id, .unexpectedExit) else none
      | none => none
  | _ => none

end Pool

namespace Requests

/-- The tombs after a step of the pool.  A goroutine that returns an error kills its
tomb with it; `Purge`, and the last goroutine if it returns nil, kill it with nil. -/
def tombsAfter (s : Requests) (l : Label) (p : Pool) (id : AppId) : Tomb Cause :=
  match s.pool.errorOf l with
  | some (failed, cause) =>
      if id = failed then (s.tombs id).kill (some cause) else s.tombs id
  | none =>
      if p.dying id ∧ ¬ s.pool.dying id then (s.tombs id).kill none else s.tombs id

/-- A step of the pool; an app that is handed out opens a visit. -/
def moved (hash : GoString → GoString) (s : Requests) (l : Label) (p : Pool) : Requests where
  pool := p
  tombs := s.tombsAfter l p
  reported := s.reported ++ (s.pool.errorOf l).toList
  visits := s.visits ++
    (s.pool.returned hash l).toList.map fun id => ⟨id, s.pool.clock, .waiting, none, none⟩

/-- The visit under an address moves on. -/
def setVisit (s : Requests) (n : ℕ) (v : Visit) : Requests :=
  { s with visits := s.visits.set n v }

/-- What a visit sees of its app. -/
def look (i : Instance) : Check := ⟨i.ready, decide i.Dying⟩

/-- One step of the `n`-th visit. -/
def visitStep (s : Requests) (n : ℕ) (v : Visit) (i : Instance) :
    RequestLabel → Option Requests
  | .select _ ready =>
      if v.pc = .waiting ∧ (if ready then i.ready = true else i.Dying) then
        some (s.setVisit n { v with
          pc := if ready then .recheck else .failing, lastCheck := some (look i) })
      else none
  | .recheck _ =>
      if v.pc = .recheck then
        some (s.setVisit n { v with
          pc := if i.Dying then .failing else .reading, lastCheck := some (look i) })
      else none
  | .now _ =>
      if v.pc = .reading then some (s.setVisit n { v with pc := .storing s.pool.clock })
      else none
  | .store _ =>
      match v.pc with
      | .storing now =>
          (s.pool.modify v.app fun i => some (i.used now)).map fun p =>
            ({ s with pool := p }).setVisit n { v with pc := .returned none, stored := some now }
      | _ => none
  | .readErr _ =>
      if v.pc = .failing then
        some (s.setVisit n { v with pc := .returned (s.tombs v.app).err })
      else none
  | .pool _ => none

/-- One step; `none` when it is not enabled.  What the pool's machine does in one step
when a request succeeds is done by the visits here. -/
def step (T : PrintTable) (hash : GoString → GoString) (s : Requests) (l : RequestLabel) :
    Option Requests :=
  match l with
  | .pool (.use _) => none
  | .pool l => (s.pool.step T hash l).map (s.moved hash l)
  | l => l.visit.bind fun n => s.visits[n]?.bind fun v => s.pool.heap[v.app]?.bind fun i =>
      s.visitStep n v i l

end Requests

/-- A puma-dev process, from its start, with its requests. -/
def requestMachine (T : PrintTable) (hash : GoString → GoString) (dir : Filepath.CleanDir)
    (idleTime : ℤ) : Machine Requests RequestLabel where
  init := ⟨.empty dir idleTime, fun _ => .alive, [], []⟩
  step := Requests.step T hash

/-! ## Facts about the pool's steps -/

namespace Pool

variable {T : PrintTable} {hash : GoString → GoString} {s t : Pool} {l : Label}

/-- Time does not run backwards. -/
theorem clock_of_step (h : s.step T hash l = some t) : s.clock ≤ t.clock := by
  cases stepsTo_of_step h with
  | @ticked d => exact le_add_of_nonneg_right (Int.natCast_nonneg d)
  | _ => exact le_rfl

/-- `maybeIdle` returns true for an app that it was called for, and that has expired. -/
theorem maybeIdle_of_fired {id : AppId} {i : Instance} (h : s.fired l = some (id, i)) :
    l = .maybeIdle id ∧ s.heap[id]? = some i ∧ s.Expired i := by
  cases l with
  | maybeIdle id' =>
      simp only [fired] at h
      split at h
      · next here =>
          obtain ⟨⟨-, -, expired⟩, value⟩ := Option.ite_none_right_eq_some.mp h
          cases value
          exact ⟨rfl, here, expired⟩
      · cases h
  | _ => cases h

theorem dying_eq_true_iff {id : AppId} :
    s.dying id = true ↔ ∃ i, s.heap[id]? = some i ∧ i.Dying := by
  simp [dying, Option.any_eq_true]

/-- `readyChan` is closed for the app. -/
def Ready (s : Pool) (id : AppId) : Prop := ∃ i, s.heap[id]? = some i ∧ i.ready = true

/-- **A tomb that is dying stays so.** -/
theorem dying_of_step (h : s.step T hash l = some t) {id : AppId} (dying : s.dying id = true) :
    t.dying id = true := by
  obtain ⟨i, here, isDying⟩ := dying_eq_true_iff.mp dying
  obtain ⟨j, there, next⟩ := after_of_step h here
  exact dying_eq_true_iff.mpr ⟨j, there, next.dying isDying⟩

/-- **`readyChan` stays closed.** -/
theorem Ready.of_step {id : AppId} (ready : s.Ready id) (h : s.step T hash l = some t) :
    t.Ready id := by
  obtain ⟨i, here, isReady⟩ := ready
  obtain ⟨j, there, next⟩ := after_of_step h here
  exact ⟨j, there, next.ready isReady⟩

theorem dying_of_killed {id : AppId} {i j : Instance} (here : s.heap[id]? = some i)
    (heap : t.heap = s.heap.set id j) (killed : j.killed = true) : t.dying id = true := by
  refine dying_eq_true_iff.mpr ⟨j, ?_, Or.inl killed⟩
  rw [heap]
  exact (getElem?_set_eq_some here).mpr (Or.inl ⟨rfl, rfl⟩)

/-- A goroutine that returns an error leaves its tomb dying. -/
theorem dying_of_errorOf (h : s.step T hash l = some t) {id : AppId} {e : Cause}
    (failed : s.errorOf l = some (id, e)) : t.dying id = true := by
  cases stepsTo_of_step h with
  | acted here acted =>
      cases Instance.acts_of_act acted with
      | restartFailed | probeDied =>
          cases failed
          exact dying_of_killed here rfl rfl
      | _ => cases failed
  | unlinked here _ =>
      simp only [errorOf, here] at failed
      obtain ⟨error, value⟩ := Option.ite_none_right_eq_some.mp failed
      cases value
      exact dying_of_killed here rfl (by simp [Instance.watchDone, error])
  | _ => cases failed

/-- The error is that of the only app the step is about. -/
theorem dying_of_errorOf_of_ne (h : s.step T hash l = some t) {id id' : AppId} {e : Cause}
    (failed : s.errorOf l = some (id', e)) (other : id ≠ id') : t.dying id = s.dying id := by
  have apart : ∀ i j, ¬ Changed s l id i j := by
    intro i j changed
    cases changed with
    | @act _ action _ _ _ =>
        cases action with
        | restartFails | probeDying =>
            cases failed
            exact other rfl
        | _ => cases failed
    | watchDone =>
        simp only [errorOf] at failed
        split at failed
        · obtain ⟨-, value⟩ := Option.ite_none_right_eq_some.mp failed
          cases value
          exact other rfl
        · cases failed
    | _ => cases failed
  cases here : s.heap[id]? with
  | some i =>
      obtain ⟨j, there, -⟩ := after_of_step h here
      rcases changed_of_step h here there with rfl | changed
      · rw [dying, dying, here, there]
      · exact absurd changed (apart i j)
  | none =>
      cases there : t.heap[id]? with
      | none => rw [dying, dying, here, there]
      | some j =>
          -- the app would be new, but the step is not the one that creates apps
          rcases before_of_step h there with ⟨i, here', -⟩ | ⟨app, creates, -, -⟩
          · rw [here] at here'
            cases here'
          · obtain ⟨os, request, rfl, -⟩ := creates.booted
            cases failed

end Pool

namespace Requests

variable {T : PrintTable} {hash : GoString → GoString} {s t : Requests}

/-! ## What holds in every run of requests -/

/-- What the point a visit is at says about its app, and its history about its times. -/
structure Fits (p : Pool) (v : Visit) : Prop where
  recheck : v.pc = .recheck → p.Ready v.app
  passed : v.pc = .reading ∨ (∃ now, v.pc = .storing now) → v.lastCheck = some ⟨true, false⟩
  failing : v.pc = .failing → p.dying v.app = true ∧ ∃ c ∈ v.lastCheck, c.dying = true
  obtained : v.obtained ≤ p.clock
  storing : ∀ now, v.pc = .storing now → v.obtained ≤ now
  stored : ∀ now ∈ v.stored, v.obtained ≤ now

/-- What no interleaving of the pool and its requests can break. -/
structure Ok (s : Requests) : Prop where
  pool : s.pool.WellFormed
  /-- The tombs are dying when the pool says so. -/
  dying : ∀ id, (s.tombs id).isDying = s.pool.dying id
  /-- They have failed when a goroutine has returned an error. -/
  failed : ∀ id, (s.tombs id).isFailed = true ↔ ∃ e, (id, e) ∈ s.reported
  visits : ∀ v ∈ s.visits, Fits s.pool v

/-- What a visit says of its app stays true. -/
theorem Fits.mono {p q : Pool} {v : Visit} (fits : Fits p v)
    (ready : p.Ready v.app → q.Ready v.app)
    (dying : p.dying v.app = true → q.dying v.app = true) (clock : p.clock ≤ q.clock) :
    Fits q v where
  recheck at_ := ready (fits.recheck at_)
  passed := fits.passed
  failing at_ := ⟨dying (fits.failing at_).1, (fits.failing at_).2⟩
  obtained := fits.obtained.trans clock
  storing := fits.storing
  stored := fits.stored

/-- The tombs keep in step with the pool. -/
theorem isDying_tombsAfter (ok : s.Ok) {l : Label} {p : Pool}
    (h : s.pool.step T hash l = some p) (id : AppId) :
    (s.tombsAfter l p id).isDying = p.dying id := by
  unfold tombsAfter
  cases failed : s.pool.errorOf l with
  | some failure =>
      obtain ⟨id', e⟩ := failure
      by_cases own : id = id'
      · subst own
        simp [Pool.dying_of_errorOf h failed]
      · simp [own, ok.dying, Pool.dying_of_errorOf_of_ne h failed own]
  | none =>
      have stays : s.pool.dying id = true → p.dying id = true := Pool.dying_of_step h
      cases before : s.pool.dying id <;> cases after : p.dying id <;>
        simp_all [ok.dying]

/-- A tomb fails with the errors that are returned to it. -/
theorem isFailed_tombsAfter (ok : s.Ok) (l : Label) (p : Pool) (id : AppId) :
    (s.tombsAfter l p id).isFailed = true ↔
      ∃ e, (id, e) ∈ s.reported ++ (s.pool.errorOf l).toList := by
  unfold tombsAfter
  cases failed : s.pool.errorOf l with
  | some failure =>
      obtain ⟨id', e⟩ := failure
      by_cases own : id = id'
      · subst own
        simp only [if_true, Tomb.isFailed_kill, Option.isSome_some, Bool.or_true, true_iff]
        exact ⟨e, by simp⟩
      · simp [own, ok.failed]
  | none =>
      simp only [Option.toList_none, List.append_nil, ← ok.failed]
      split <;> simp

/-- What a visit can do. -/
inductive Advanced (s : Requests) (n : ℕ) (v : Visit) (i : Instance) :
    RequestLabel → Requests → Prop
  | readySeen (at_ : v.pc = .waiting) (ready : i.ready = true) : Advanced s n v i (.select n true)
      (s.setVisit n { v with pc := .recheck, lastCheck := some (look i) })
  | dyingSeen (at_ : v.pc = .waiting) (dying : i.Dying) : Advanced s n v i (.select n false)
      (s.setVisit n { v with pc := .failing, lastCheck := some (look i) })
  | dyingAfterAll (at_ : v.pc = .recheck) (dying : i.Dying) : Advanced s n v i (.recheck n)
      (s.setVisit n { v with pc := .failing, lastCheck := some (look i) })
  | passed (at_ : v.pc = .recheck) (alive : ¬ i.Dying) : Advanced s n v i (.recheck n)
      (s.setVisit n { v with pc := .reading, lastCheck := some (look i) })
  | read (at_ : v.pc = .reading) : Advanced s n v i (.now n)
      (s.setVisit n { v with pc := .storing s.pool.clock })
  | stored {now : ℤ} (at_ : v.pc = .storing now) : Advanced s n v i (.store n)
      (({ s with pool := { s.pool with heap := s.pool.heap.set v.app (i.used now) } }).setVisit n
        { v with pc := .returned none, stored := some now })
  | failed (at_ : v.pc = .failing) : Advanced s n v i (.readErr n)
      (s.setVisit n { v with pc := .returned (s.tombs v.app).err })

/-- **What a step can do**: it is a step of the pool, or a visit moves on. -/
theorem step_cases {l : RequestLabel} (h : s.step T hash l = some t) :
    (∃ l' p, l = .pool l' ∧ s.pool.step T hash l' = some p ∧ t = s.moved hash l' p) ∨
      ∃ n v i, s.visits[n]? = some v ∧ s.pool.heap[v.app]? = some i ∧ Advanced s n v i l t := by
  have advance : ∀ {n}, l.visit = some n → s.step T hash l = (s.visits[n]?.bind fun v =>
      s.pool.heap[v.app]?.bind fun i => s.visitStep n v i l) →
      (∀ v i, s.visits[n]? = some v → s.pool.heap[v.app]? = some i →
        s.visitStep n v i l = some t → Advanced s n v i l t) →
      ∃ n v i, s.visits[n]? = some v ∧ s.pool.heap[v.app]? = some i ∧ Advanced s n v i l t := by
    intro n _ same advances
    rw [same] at h
    obtain ⟨v, visit, rest⟩ := Option.bind_eq_some_iff.mp h
    obtain ⟨i, here, moves⟩ := Option.bind_eq_some_iff.mp rest
    exact ⟨n, v, i, visit, here, advances v i visit here moves⟩
  cases l with
  | pool l' =>
      have lifts : (∃ id, l' = .use id) ∨
          s.step T hash (.pool l') = (s.pool.step T hash l').map (s.moved hash l') := by
        cases l' with
        | use id => exact Or.inl ⟨id, rfl⟩
        | _ => exact Or.inr rfl
      rcases lifts with ⟨id, rfl⟩ | lifts
      · cases h
      · rw [lifts] at h
        obtain ⟨p, moves, rfl⟩ := Option.map_eq_some_iff.mp h
        exact Or.inl ⟨l', p, rfl, moves, rfl⟩
  | select n ready =>
      refine Or.inr (advance rfl rfl fun v i _ _ moves => ?_)
      obtain ⟨⟨at_, chosen⟩, value⟩ := Option.ite_none_right_eq_some.mp moves
      cases value
      cases ready with
      | true => exact .readySeen at_ chosen
      | false => exact .dyingSeen at_ (by simpa using chosen)
  | recheck n =>
      refine Or.inr (advance rfl rfl fun v i _ _ moves => ?_)
      obtain ⟨at_, value⟩ := Option.ite_none_right_eq_some.mp moves
      cases value
      by_cases dying : i.Dying
      · simpa [dying] using Advanced.dyingAfterAll at_ dying
      · simpa [dying] using Advanced.passed at_ dying
  | now n =>
      refine Or.inr (advance rfl rfl fun v i _ _ moves => ?_)
      obtain ⟨at_, value⟩ := Option.ite_none_right_eq_some.mp moves
      cases value
      exact .read at_
  | store n =>
      refine Or.inr (advance rfl rfl fun v i _ here moves => ?_)
      simp only [visitStep] at moves
      split at moves
      · next now at_ =>
          obtain ⟨p, stores, rfl⟩ := Option.map_eq_some_iff.mp moves
          obtain ⟨i', j, here', value, rfl⟩ := Pool.modify_eq_some.mp stores
          rw [here] at here'
          cases here'
          cases value
          exact .stored at_
      · cases moves
  | readErr n =>
      refine Or.inr (advance rfl rfl fun v i _ _ moves => ?_)
      obtain ⟨at_, value⟩ := Option.ite_none_right_eq_some.mp moves
      cases value
      exact .failed at_

/-- Storing a time in an app keeps the pool in order. -/
theorem wellFormed_used {p : Pool} (inv : p.WellFormed) {id : AppId} {i : Instance}
    (here : p.heap[id]? = some i) (now : ℤ) :
    Pool.WellFormed { p with heap := p.heap.set id (i.used now) } where
  keys k v found := by
    obtain ⟨j, there⟩ := inv.keys k v found
    by_cases own : v = id
    · exact ⟨_, (Pool.getElem?_set_eq_some here).mpr (Or.inl ⟨own, rfl⟩)⟩
    · exact ⟨j, (Pool.getElem?_set_eq_some here).mpr (Or.inr ⟨own, there⟩)⟩
  ok v j there := by
    rcases (Pool.getElem?_set_eq_some here).mp there with ⟨rfl, rfl⟩ | ⟨-, old⟩
    · exact (Instance.Change.used now).ok (inv.ok v i here)
    · exact inv.ok v j old
  booting := inv.booting
  starting v identity left starting := by
    obtain ⟨unused, ⟨j, there, named⟩, unknown⟩ := inv.starting v identity left starting
    refine ⟨unused, ?_, unknown⟩
    by_cases own : v = id
    · subst own
      rw [here] at there
      cases there
      exact ⟨_, (Pool.getElem?_set_eq_some here).mpr (Or.inl ⟨rfl, rfl⟩), named⟩
    · exact ⟨j, (Pool.getElem?_set_eq_some here).mpr (Or.inr ⟨own, there⟩), named⟩
  unborn v j there unborn := by
    rcases (Pool.getElem?_set_eq_some here).mp there with ⟨rfl, rfl⟩ | ⟨-, old⟩
    · exact inv.unborn v i here unborn
    · exact inv.unborn v j old unborn

/-- It changes neither what is ready nor what is dying. -/
theorem same_used {p : Pool} {id : AppId} {i : Instance} (here : p.heap[id]? = some i)
    (now : ℤ) (v : AppId) :
    Pool.dying { p with heap := p.heap.set id (i.used now) } v = p.dying v ∧
      (p.Ready v → Pool.Ready { p with heap := p.heap.set id (i.used now) } v) := by
  by_cases own : v = id
  · subst own
    have inside := (List.getElem?_eq_some_iff.mp here).1
    refine ⟨?_, ?_⟩
    · simp only [Pool.dying, here, List.getElem?_set_self inside]
      rfl
    · rintro ⟨j, there, ready⟩
      rw [here] at there
      cases there
      exact ⟨_, List.getElem?_set_self inside, ready⟩
  · have apart : id ≠ v := fun same => own same.symm
    refine ⟨?_, ?_⟩
    · simp only [Pool.dying, List.getElem?_set_ne apart]
    · rintro ⟨j, there, ready⟩
      exact ⟨j, (List.getElem?_set_ne apart).trans there, ready⟩

/-- The visits after one of them has moved on. -/
theorem mem_setVisit {n : ℕ} {v w : Visit} (mem : w ∈ (s.setVisit n v).visits) :
    w = v ∨ w ∈ s.visits :=
  (List.mem_or_eq_of_mem_set mem).symm

/-- What a visit moves on to fits its app. -/
theorem Advanced.fits {n : ℕ} {v : Visit} {i : Instance} {l : RequestLabel}
    (h : Advanced s n v i l t) (fits : Fits s.pool v) (here : s.pool.heap[v.app]? = some i) :
    ∀ w ∈ t.visits, w ∈ s.visits ∨ Fits s.pool w := by
  intro w mem
  have obtained := fits.obtained
  have stored := fits.stored
  have dyingHere : i.Dying → s.pool.dying v.app = true := fun dying =>
    Pool.dying_eq_true_iff.mpr ⟨i, here, dying⟩
  cases h with
  | readySeen at_ ready =>
      rcases mem_setVisit mem with rfl | old
      · exact Or.inr ⟨fun _ => ⟨i, here, ready⟩, by simp, by simp, obtained, by simp, stored⟩
      · exact Or.inl old
  | dyingSeen at_ dying | dyingAfterAll at_ dying =>
      rcases mem_setVisit mem with rfl | old
      · exact Or.inr ⟨by simp, by simp, fun _ => ⟨dyingHere dying, by simp [look, dying]⟩,
          obtained, by simp, stored⟩
      · exact Or.inl old
  | passed at_ alive =>
      rcases mem_setVisit mem with rfl | old
      · refine Or.inr ⟨by simp, fun _ => ?_, by simp, obtained, by simp, stored⟩
        obtain ⟨j, there, ready⟩ := fits.recheck at_
        rw [here] at there
        cases there
        simp [look, ready, alive]
      · exact Or.inl old
  | read at_ =>
      rcases mem_setVisit mem with rfl | old
      · refine Or.inr ⟨by simp, fun _ => fits.passed (Or.inl at_), by simp, obtained, ?_, stored⟩
        rintro now same
        cases same
        exact obtained
      · exact Or.inl old
  | @stored now at_ =>
      rcases mem_setVisit mem with rfl | old
      · refine Or.inr ⟨by simp, by simp, by simp, obtained, by simp, ?_⟩
        rintro now' same
        cases same
        exact fits.storing now at_
      · exact Or.inl old
  | failed at_ =>
      rcases mem_setVisit mem with rfl | old
      · exact Or.inr ⟨by simp, by simp, by simp, obtained, by simp, stored⟩
      · exact Or.inl old

/-- The pool, the tombs and the reports after a visit has moved on. -/
theorem Advanced.frame {n : ℕ} {v : Visit} {i : Instance} {l : RequestLabel}
    (h : Advanced s n v i l t) (here : s.pool.heap[v.app]? = some i) (inv : s.pool.WellFormed) :
    t.tombs = s.tombs ∧ t.reported = s.reported ∧ t.pool.clock = s.pool.clock ∧
      t.pool.WellFormed ∧ (∀ id, t.pool.dying id = s.pool.dying id) ∧
      ∀ id, s.pool.Ready id → t.pool.Ready id := by
  cases h with
  | stored => exact ⟨rfl, rfl, rfl, wellFormed_used inv here _,
      fun id => (same_used here _ id).1, fun id => (same_used here _ id).2⟩
  | _ => exact ⟨rfl, rfl, rfl, inv, fun _ => rfl, fun _ => id⟩

/-- **The invariant is kept by every step.** -/
theorem Ok.of_step (ok : s.Ok) {l : RequestLabel} (h : s.step T hash l = some t) : t.Ok := by
  rcases step_cases h with ⟨l', p, rfl, moves, rfl⟩ | ⟨n, v, i, visit, here, advanced⟩
  · refine ⟨Pool.wellFormed_of_step moves ok.pool, isDying_tombsAfter ok moves,
      isFailed_tombsAfter ok l' p, fun w mem => ?_⟩
    rcases List.mem_append.mp mem with old | new
    · exact (ok.visits w old).mono (·.of_step moves) (Pool.dying_of_step moves)
        (Pool.clock_of_step moves)
    · -- a visit that has just been opened
      obtain ⟨id, -, rfl⟩ := List.mem_map.mp new
      exact ⟨by simp, by simp, by simp, Pool.clock_of_step moves, by simp, by simp⟩
  · obtain ⟨tombs, reported, clock, inv, dying, ready⟩ := advanced.frame here ok.pool
    refine ⟨inv, fun id => ?_, fun id => ?_, fun w mem => ?_⟩
    · rw [tombs, dying]
      exact ok.dying id
    · rw [tombs, reported]
      exact ok.failed id
    · have fits : Fits s.pool w := by
        rcases advanced.fits (ok.visits v (List.mem_of_getElem? visit)) here w mem with old | fits
        · exact ok.visits w old
        · exact fits
      exact fits.mono (ready w.app) (fun dies => (dying w.app).trans dies) clock.ge

theorem ok_init (dir : Filepath.CleanDir) (idleTime : ℤ) :
    (requestMachine T hash dir idleTime).init.Ok where
  pool := Pool.wellFormed_empty dir idleTime
  dying id := by simp [requestMachine, Pool.dying, Pool.empty]
  failed id := by simp [requestMachine]
  visits := by simp [requestMachine]

end Requests

end PumaDev
