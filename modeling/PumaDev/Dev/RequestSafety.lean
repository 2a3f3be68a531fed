import PumaDev.Dev.Requests

/-!
# What a request can rely on

Two questions about a request that has been handed an app.

**Is the app ready when `WaitTilReady` returns nil?**  It returns nil after its own two
checks, and it returns what the tomb reports once it has found the app dying; a tomb
that was killed with nil reports nil as well.  `truthful_iff` is exact: the answer is
truthful in a run if and only if, each time a request asks the tomb, a goroutine of the
app has returned an error before.

**Is the app left alone for the idle time?**  `maybeIdle` goes by `lastUse`, and a
request sets it at the very end of `WaitTilReady`.  `leavesAlone_of_run`: no app is taken
for idle that was handed out within the idle time, as long as `maybeIdle` is never called
while one of these requests is not on record, having not stored its time yet, or having had
an older one stored over it.
-/

namespace PumaDev

namespace Requests

variable {T : PrintTable} {hash : GoString → GoString} {s t : Requests} {l : RequestLabel}

/-! ## Readiness -/

/-- Every visit of the app that returned nil found it ready, and not dying, at its last
check. -/
def Truthful (id : AppId) (s : Requests) : Prop :=
  ∀ v ∈ s.visits, v.app = id → v.pc = .returned none → v.lastCheck = some ⟨true, false⟩

/-- If a visit of the app asks the tomb in this step, a goroutine of the app has returned
an error. -/
def ErrorReported (id : AppId) (s : Requests) : RequestLabel → Prop
  | .readErr n => ∀ v ∈ s.visits[n]?, v.app = id → ∃ e, (id, e) ∈ s.reported
  | _ => True

/-- A visit that moves on without asking the tomb does no harm. -/
theorem Truthful.setVisit {id : AppId} {n : ℕ} {v : Visit} (truthful : s.Truthful id)
    (passed : v.pc = .returned none → v.lastCheck = some ⟨true, false⟩) :
    (s.setVisit n v).Truthful id := by
  intro w mem own returned
  rcases mem_setVisit mem with rfl | old
  · exact passed returned
  · exact truthful w old own returned

/-- What a visit returns when it asks the tomb. -/
theorem err_eq_none_iff (ok : s.Ok) {v : Visit} (fits : Fits s.pool v) (at_ : v.pc = .failing) :
    (s.tombs v.app).err = none ↔ ¬ ∃ e, (v.app, e) ∈ s.reported := by
  have dying : (s.tombs v.app).isDying = true := (ok.dying v.app).trans (fits.failing at_).1
  rw [Tomb.err_eq_none_iff dying, ← ok.failed, Bool.not_eq_true]

/-- **One step.**  The answers stay truthful exactly when no tomb without an error is
asked. -/
theorem truthful_step {id : AppId} (ok : s.Ok) (truthful : s.Truthful id)
    (h : s.step T hash l = some t) : t.Truthful id ↔ s.ErrorReported id l := by
  rcases step_cases h with ⟨l', p, rfl, -, rfl⟩ | ⟨n, v, i, visit, here, advanced⟩
  · refine iff_of_true (fun w mem own returned => ?_) trivial
    rcases List.mem_append.mp mem with old | new
    · exact truthful w old own returned
    · -- a visit that has just been opened has returned nothing
      obtain ⟨id', -, rfl⟩ := List.mem_map.mp new
      cases returned
  · have fits := ok.visits v (List.mem_of_getElem? visit)
    cases advanced with
    | readySeen | dyingSeen | dyingAfterAll | passed | read =>
        exact iff_of_true (truthful.setVisit nofun) trivial
    | @stored now at_ =>
        have kept : Truthful id { s with
            pool := { s.pool with heap := s.pool.heap.set v.app (i.used now) } } := truthful
        exact iff_of_true (kept.setVisit fun _ => fits.passed (Or.inr ⟨_, at_⟩)) trivial
    | failed at_ =>
        constructor
        · intro truthful' v' same own
          rw [visit] at same
          cases same
          subst own
          by_contra unreported
          have returned := (err_eq_none_iff ok fits at_).mpr unreported
          have mem : { v with pc := .returned (s.tombs v.app).err } ∈
              (s.setVisit n { v with pc := .returned (s.tombs v.app).err }).visits :=
            List.mem_set (List.getElem?_eq_some_iff.mp visit).1 _
          have last := truthful' _ mem rfl (by rw [returned])
          obtain ⟨c, seen, dying⟩ := (fits.failing at_).2
          have last : v.lastCheck = some ⟨true, false⟩ := last
          rw [last] at seen
          cases seen
          cases dying
        · intro reported w mem own returned
          rcases mem_setVisit mem with rfl | old
          · have none_ : (s.tombs v.app).err = none := VisitPc.returned.inj returned
            have own : v.app = id := own
            have cause := reported v visit own
            rw [← own] at cause
            exact absurd cause ((err_eq_none_iff ok fits at_).mp none_)
          · exact truthful w old own returned

/-- **When `WaitTilReady` tells the truth.**  In every state of a run each request for
the app that got nil had found it ready and not dying at its last check, if and only if
each time a request for it asks the tomb a goroutine of the app has returned an
error. -/
theorem truthful_iff (T : PrintTable) (hash : GoString → GoString) (dir : Filepath.CleanDir)
    (idleTime : ℤ) (id : AppId) (ls : List RequestLabel) :
    (∀ s ∈ (requestMachine T hash dir idleTime).visited
        (requestMachine T hash dir idleTime).init ls, s.Truthful id) ↔
      (requestMachine T hash dir idleTime).Guarded (Requests.ErrorReported id)
        (requestMachine T hash dir idleTime).init ls :=
  (requestMachine T hash dir idleTime).visited_iff_guarded (J := Requests.Ok)
    (fun _ _ _ ok h => ok.of_step h) (fun _ _ _ ok truthful h => truthful_step ok truthful h) ls
    (ok_init dir idleTime) (by simp [Truthful, requestMachine])

/-- The pool of a world in which every entry is a directory, with its requests. -/
def plainRequests : Machine Requests RequestLabel :=
  requestMachine .asciiOnly Pool.blogDigest .home 900

/-- A request looks up an app that has to be started. -/
def firstRequest (name : GoString) : List RequestLabel :=
  (Pool.startApp name .everyDirectory).map .pool

/-- The app is still booting when it is purged: the request finds it dying, and is told
nil. -/
theorem untruthful_purge : ∃ id, ∃ s ∈ plainRequests.visited plainRequests.init
    (firstRequest "blog".toList ++
      [.pool .purge, .pool (.purgeKill 0), .select 0 false, .readErr 0]), ¬ s.Truthful id := by
  have facts : (plainRequests.exec plainRequests.init (firstRequest "blog".toList ++
      [.pool .purge, .pool (.purgeKill 0), .select 0 false, .readErr 0])).map Requests.visits =
        some [⟨0, 0, .returned none, some ⟨false, true⟩, none⟩] := by decide
  obtain ⟨s, visited, visits⟩ := plainRequests.exists_visited_of_map facts
  refine ⟨0, s, visited, fun truthful => ?_⟩
  have last := truthful _ (by rw [visits]; exact List.mem_singleton_self _) rfl rfl
  cases last

/-! ## Idleness -/

/-- The visit got its app within the idle time. -/
def Recent (s : Requests) (v : Visit) : Prop :=
  s.pool.clock - s.pool.idleTime ≤ v.obtained ∧ v.obtained ≤ s.pool.clock

/-- If `maybeIdle` returns true for an app in this step, no request got the app within
the idle time. -/
def LeavesAlone (s : Requests) : RequestLabel → Prop
  | .pool l => ∀ id i, s.pool.fired l = some (id, i) → ∀ v ∈ s.visits, v.app = id →
      ¬ s.Recent v
  | _ => True

/-- The request is on record in the time that its app carries: it has stored its time, and
nobody an older one since; or it got the app no later than the time that is there, be it
another request's or that of the app's creation. -/
def OnRecord (i : Instance) (v : Visit) : Prop :=
  (∃ now ∈ v.stored, now ≤ i.lastUse) ∨ v.obtained ≤ i.lastUse

/-- The app that `maybeIdle` is called for. -/
def asked : RequestLabel → Option AppId
  | .pool (.maybeIdle id) => some id
  | _ => none

/-- If `maybeIdle` is called for an app in this step, every request that got the app within
the idle time is on record. -/
def Recorded (s : Requests) (l : RequestLabel) : Prop :=
  ∀ id ∈ asked l, ∀ i ∈ s.pool.heap[id]?, ∀ v ∈ s.visits, v.app = id → s.Recent v → OnRecord i v

instance (i : Instance) (v : Visit) : Decidable (OnRecord i v) :=
  inferInstanceAs (Decidable (_ ∨ _))

instance (s : Requests) (v : Visit) : Decidable (s.Recent v) :=
  inferInstanceAs (Decidable (_ ∧ _))

instance (s : Requests) (l : RequestLabel) : Decidable (s.Recorded l) :=
  inferInstanceAs (Decidable (∀ id ∈ asked l, ∀ i ∈ s.pool.heap[id]?, ∀ v ∈ s.visits,
    v.app = id → s.Recent v → OnRecord i v))

/-- A request is not on record before it got its app. -/
theorem obtained_le_of_onRecord (ok : s.Ok) {v : Visit} (mem : v ∈ s.visits) {i : Instance}
    (recorded : OnRecord i v) : v.obtained ≤ i.lastUse := by
  rcases recorded with ⟨now, stored, notOlder⟩ | used
  · exact ((ok.visits v mem).stored now stored).trans notOlder
  · exact used

/-- **One step.**  An app that carries the time of its latest request is not taken for
idle. -/
theorem leavesAlone_of_recorded (ok : s.Ok) (recorded : s.Recorded l) : s.LeavesAlone l := by
  cases l with
  | pool l =>
      intro id i fires v mem own recent
      obtain ⟨rfl, here, expired⟩ := Pool.maybeIdle_of_fired fires
      have idle : s.pool.idleTime < s.pool.clock - i.lastUse := expired
      have used := obtained_le_of_onRecord ok mem (recorded id rfl i here v mem own recent)
      have start : s.pool.clock - s.pool.idleTime ≤ v.obtained := recent.1
      omega
  | _ => trivial

/-- **When `maybeIdle` leaves an app alone that has just been handed out.**  In a run in
which `maybeIdle` is never called for an app while a request that got it within the idle
time is not on record, no app is taken for idle that a request got within the idle time. -/
theorem leavesAlone_of_run (T : PrintTable) (hash : GoString → GoString)
    (dir : Filepath.CleanDir) (idleTime : ℤ) (ls : List RequestLabel)
    (recorded : (requestMachine T hash dir idleTime).Guarded Requests.Recorded
      (requestMachine T hash dir idleTime).init ls) :
    (requestMachine T hash dir idleTime).Guarded Requests.LeavesAlone
      (requestMachine T hash dir idleTime).init ls :=
  (requestMachine T hash dir idleTime).guarded_mono (J := Requests.Ok)
    (fun _ _ _ ok h => ok.of_step h)
    (fun _ _ _ ok recorded _ => leavesAlone_of_recorded ok recorded) ls (ok_init dir idleTime)
    recorded

/-- The request that started the app is served. -/
def servedFirst : List RequestLabel :=
  [.pool (.act 0 .probeReady), .select 0 true, .recheck 0, .now 0, .store 0]

/-- A second request comes, with a question of the monitor before and after it; later the app
is idle. -/
def usedTwice : List RequestLabel :=
  firstRequest "blog".toList ++ servedFirst ++
    [.pool (.tick 500), .pool (.maybeIdle 0), .pool (.lookup "blog".toList .everyDirectory),
      .select 1 true, .recheck 1, .now 1, .store 1, .pool (.tick 500), .pool (.maybeIdle 0),
      .pool (.tick 500), .pool (.maybeIdle 0)]

/-- The last question, and only this one, deletes the app. -/
theorem leavesAlone_usedTwice : plainRequests.Guarded Requests.LeavesAlone plainRequests.init
      usedTwice ∧
    (plainRequests.exec plainRequests.init usedTwice).map (fun s =>
      (s.pool.clock, s.pool.apps.lookup "blog".toList, s.visits.map Visit.obtained)) =
        some (1500, none, [0, 500]) :=
  ⟨leavesAlone_of_run .asciiOnly Pool.blogDigest .home 900 usedTwice (by decide), by decide⟩

/-- The app is handed out once more after a long pause; before the request gets around to
storing its time, the monitor ticks. -/
theorem idle_handedOut : ¬ plainRequests.Guarded Requests.LeavesAlone plainRequests.init
    (firstRequest "blog".toList ++ servedFirst ++
      [.pool (.tick 901), .pool (.lookup "blog".toList .everyDirectory)] ++
      [.pool (.maybeIdle 0)]) := by
  intro alone
  have facts : (plainRequests.exec plainRequests.init (firstRequest "blog".toList ++
      servedFirst ++ [.pool (.tick 901), .pool (.lookup "blog".toList .everyDirectory)])).map
        (fun s => (s.visits[1]?, s.pool.clock, s.pool.idleTime,
          (s.pool.fired (.maybeIdle 0)).map Prod.fst,
          (plainRequests.step s (.pool (.maybeIdle 0))).isSome)) =
      some (some ⟨0, 901, .waiting, none, none⟩, 901, 900, some 0, true) := by decide
  obtain ⟨s, reached, found⟩ := Option.map_eq_some_iff.mp facts
  simp only [Prod.mk.injEq] at found
  obtain ⟨visit, clock, idleTime, fires, enabled⟩ := found
  obtain ⟨t, h⟩ := Option.isSome_iff_exists.mp enabled
  obtain ⟨⟨id, i⟩, fires, rfl⟩ := Option.map_eq_some_iff.mp fires
  have spared : s.LeavesAlone (.pool (.maybeIdle 0)) :=
    plainRequests.ok_of_guarded alone reached h
  refine spared 0 i fires _ (List.mem_of_getElem? visit) rfl ⟨?_, ?_⟩
  · rw [clock, idleTime]
    decide
  · rw [clock]

end Requests

end PumaDev
