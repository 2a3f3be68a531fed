import PumaDev.Dev.PoolInvariants

/-!
# The status of an app

`App.Status` looks at two channels, one after the other: whether the tomb is
dying, and then whether `readyChan` is closed.  It has three constants to
answer with, and the status page a text for each; but where the app is neither
dying nor ready it answers `Dead`.

A `Life` is a run of one app from its creation, any of its goroutines moving at
any time; an `Observation` is a call of `Status`, with the moments of its two
selects.  `Instance.phase` is the status the life is in.

`Follows` says that observations follow the life: each answers with a phase the
app was in while it was made, and observations made one after another read
`Booting* Running* Dead*`.  `follows_iff_timely` is the exact condition.
-/

namespace PumaDev

/-- The constants of `Status`. -/
inductive AppStatus where
  | booting
  | running
  | dead
  deriving DecidableEq

namespace AppStatus

/-- Their values. -/
def iota : AppStatus → ℕ
  | booting => 0
  | running => 1
  | dead => 2

/-- Statuses in the order of their values come in three phases. -/
theorem phases_of_pairwise {l : List AppStatus} (sorted : l.Pairwise fun a b => a.iota ≤ b.iota) :
    ∃ b r d, l = List.replicate b booting ++ List.replicate r running ++ List.replicate d dead := by
  induction l with
  | nil => exact ⟨0, 0, 0, rfl⟩
  | cons a rest ih =>
      obtain ⟨least, later⟩ := List.pairwise_cons.mp sorted
      obtain ⟨b, r, d, split⟩ := ih later
      cases a with
      | booting => exact ⟨b + 1, r, d, by simp [split, List.replicate_succ]⟩
      | running =>
          have none_ : b = 0 := by
            by_contra some_
            have mem : booting ∈ rest := by simp [split, some_]
            exact absurd (least booting mem) (by decide)
          exact ⟨0, r + 1, d, by simp [split, none_, List.replicate_succ]⟩
      | dead =>
          have none_ : b = 0 := by
            by_contra some_
            have mem : booting ∈ rest := by simp [split, some_]
            exact absurd (least booting mem) (by decide)
          have none' : r = 0 := by
            by_contra some_
            have mem : running ∈ rest := by simp [split, some_]
            exact absurd (least running mem) (by decide)
          exact ⟨0, 0, d + 1, by simp [split, none_, none', List.replicate_succ]⟩

end AppStatus

namespace Instance

/-- `App.Status`, with the app as its two selects find it. -/
def status (first second : Instance) : AppStatus :=
  if first.Dying then .dead
  else if second.ready = true then .running
  else .dead

/-- The phase an app is in: it boots until `readyChan` is closed, and runs from then
until its tomb is dying. -/
def phase (i : Instance) : AppStatus :=
  if i.Dying then .dead
  else if i.ready = true then .running
  else .booting

/-- Where `watch` stands in an app that is not dying: it has not been woken, or it
was woken by the end of the output and has still to return its error. -/
structure Watched (i : Instance) : Prop where
  woken : i.watch = .unborn ∨ i.watch = .select ∨ i.watchErr = true
  going : i.watch ≠ .done

theorem Change.watched {i j : Instance} (h : i.Change j) (alive : ¬ j.Dying)
    (watched : i.Watched) : j.Watched := by
  obtain ⟨woken, going⟩ := watched
  have before : ¬ i.Dying := mt h.dying alive
  cases h with
  | act a h =>
      cases acts_of_act h with
      | @sent killer | @unsent killer =>
          cases killer <;> constructor <;> simp_all [signalled, afterKill]
      | eof => exact ⟨.inr (.inr rfl), by simp⟩
      | woken _ dying => exact absurd dying before
      | _ => constructor <;> simp_all
  | go g h => cases goes_of_go h <;> constructor <;> simp_all
  | killRemoved killer h => cases killer <;> constructor <;> simp_all [afterKill]
  | watchRemoved h => constructor <;> simp_all [Instance.watchRemoved]
  | watchDone h =>
      -- the error it returns kills the tomb
      have failed : i.watchErr = true := by simpa [h] using woken
      exact absurd (Or.inl (by simp [Instance.watchDone, failed])) alive
  | idleFired | kill | used => exact ⟨woken, going⟩

/-- No step both closes `readyChan` and starts the dying of the tomb. -/
theorem Change.not_dying_of_ready {i j : Instance} (h : i.Change j) (watched : i.Watched)
    (before : i.ready = false) (after : j.ready = true) (alive : ¬ i.Dying) : ¬ j.Dying := by
  cases h with
  | act a h =>
      cases acts_of_act h with
      | @sent killer | @unsent killer =>
          cases killer <;> simp [signalled, afterKill, before] at after
      | reached =>
          rintro (killed | dead)
          · exact alive (Or.inl killed)
          · exact watched.going dead.1
      | _ => exact absurd after (by simp [before])
  | go g h => cases goes_of_go h <;> exact absurd after (by simp [before])
  | killRemoved killer => cases killer <;> exact absurd after (by simp [before, afterKill])
  | idleFired | watchRemoved | watchDone | kill | used =>
      exact absurd (before.symm.trans after) (by simp)

end Instance

/-! ## Lives -/

/-- A run of one app: its states from its creation on, any number of steps between
those in which it changes. -/
structure Life where
  state : ℕ → Instance
  created : ∃ app now, state 0 = .create app now
  steps : ∀ n, (state n).Next (state (n + 1))

/-- A call of `Status`, with the moments of its two selects. -/
structure Observation where
  first : ℕ
  second : ℕ
  ordered : first ≤ second

namespace Life

variable (life : Life)

/-- The tomb of the app is dying at the moment `n`. -/
def DyingAt (n : ℕ) : Prop := (life.state n).Dying

/-- `readyChan` is closed at the moment `n`. -/
def ReadyAt (n : ℕ) : Prop := (life.state n).ready = true

/-- What the observation sees. -/
def observe (o : Observation) : AppStatus := (life.state o.first).status (life.state o.second)

/-- The phase of the life at the moment `n`. -/
def phase (n : ℕ) : AppStatus := (life.state n).phase

variable {life}

theorem dyingAt_mono {m n : ℕ} (le : m ≤ n) (dying : life.DyingAt m) : life.DyingAt n := by
  induction le with
  | refl => exact dying
  | step _ ih => exact (life.steps _).dying ih

theorem readyAt_mono {m n : ℕ} (le : m ≤ n) (ready : life.ReadyAt m) : life.ReadyAt n := by
  induction le with
  | refl => exact ready
  | step _ ih => exact (life.steps _).ready ih

/-- While an app boots, nothing has ended `watch`. -/
theorem watched {n : ℕ} (booting : ¬ life.ReadyAt n) (alive : ¬ life.DyingAt n) :
    (life.state n).Watched := by
  induction n with
  | zero =>
      obtain ⟨app, now, start⟩ := life.created
      rw [ReadyAt, start] at booting
      have launched : app.command.isSome = true :=
        Option.isSome_iff_ne_none.mpr (by simpa [Instance.create] using booting)
      rw [start]
      exact ⟨.inl (by simp [Instance.create, launched]), by simp [Instance.create, launched]⟩
  | succ n ih =>
      have before := ih (mt (readyAt_mono (Nat.le_succ n)) booting)
        (mt (dyingAt_mono (Nat.le_succ n)) alive)
      rcases life.steps n with same | change
      · rwa [same]
      · exact change.watched alive before

/-- An app that becomes ready becomes so while it is not dying, or when it has been
dying before. -/
theorem dyingAt_of_ready_succ {n : ℕ} (before : ¬ life.ReadyAt n) (after : life.ReadyAt (n + 1))
    (dying : life.DyingAt (n + 1)) : life.DyingAt n := by
  by_contra alive
  rcases life.steps n with same | change
  · rw [ReadyAt, same] at after
    exact before after
  · exact change.not_dying_of_ready (watched before alive)
      (Bool.eq_false_iff.mpr before) after alive dying

/-! ### The phase at a moment -/

theorem phase_of_dying {n : ℕ} (dying : life.DyingAt n) : life.phase n = .dead :=
  if_pos dying

theorem phase_of_ready {n : ℕ} (alive : ¬ life.DyingAt n) (ready : life.ReadyAt n) :
    life.phase n = .running := (if_neg alive).trans (if_pos ready)

theorem phase_of_booting {n : ℕ} (alive : ¬ life.DyingAt n) (booting : ¬ life.ReadyAt n) :
    life.phase n = .booting := (if_neg alive).trans (if_neg booting)

/-- **The phases of a life come in order.** -/
theorem phase_mono {m n : ℕ} (le : m ≤ n) : (life.phase m).iota ≤ (life.phase n).iota := by
  by_cases dying : life.DyingAt m
  · rw [phase_of_dying dying, phase_of_dying (dyingAt_mono le dying)]
  by_cases ready : life.ReadyAt m
  · rw [phase_of_ready dying ready]
    by_cases later : life.DyingAt n
    · rw [phase_of_dying later]
      decide
    · rw [phase_of_ready later (readyAt_mono le ready)]
  · rw [phase_of_booting dying ready]
    exact Nat.zero_le _

/-! ### What an observation sees -/

theorem observe_of_dying {o : Observation} (dying : life.DyingAt o.first) :
    life.observe o = .dead := if_pos dying

theorem observe_of_ready {o : Observation} (alive : ¬ life.DyingAt o.first)
    (ready : life.ReadyAt o.second) : life.observe o = .running :=
  (if_neg alive).trans (if_pos ready)

theorem observe_of_booting {o : Observation} (booting : ¬ life.ReadyAt o.second) :
    life.observe o = .dead := by
  have unready : ¬ (life.state o.second).ready = true := booting
  rw [observe, Instance.status, if_neg unready, ite_self]

/-! ## Following the life -/

variable (life)

/-- The observation answers with a phase the app was in while it was made. -/
def Sound (o : Observation) : Prop :=
  ∃ n, o.first ≤ n ∧ n ≤ o.second ∧ life.observe o = life.phase n

/-- The second select finds the app ready, or dying; and if the tomb began to die
between the two, `readyChan` was not closed behind it. -/
def Timely (o : Observation) : Prop :=
  (life.DyingAt o.second ∨ life.ReadyAt o.second) ∧
    ¬ (¬ life.DyingAt o.first ∧ life.ReadyAt o.second ∧
      ∃ n, o.first < n ∧ n ≤ o.second ∧ life.DyingAt n ∧ ¬ life.ReadyAt n)

/-- **The observations follow the life.** -/
structure Follows (obs : List Observation) : Prop where
  sound : ∀ o ∈ obs, life.Sound o
  /-- One after another they read `Booting* Running* Dead*`. -/
  phases : (obs.Pairwise fun o p => o.second ≤ p.first) →
    ∃ b r d, obs.map life.observe =
      List.replicate b .booting ++ List.replicate r .running ++ List.replicate d .dead

variable {life}

/-- An app that has become ready between two moments was seen running in between,
unless it was seen dying and not ready. -/
theorem exists_running {m n : ℕ} (le : m ≤ n) (alive : ¬ life.DyingAt m)
    (ready : life.ReadyAt n)
    (inTime : ¬ ∃ k, m < k ∧ k ≤ n ∧ life.DyingAt k ∧ ¬ life.ReadyAt k) :
    ∃ k, m ≤ k ∧ k ≤ n ∧ ¬ life.DyingAt k ∧ life.ReadyAt k := by
  induction n, le using Nat.le_induction with
  | base => exact ⟨m, le_rfl, le_rfl, alive, ready⟩
  | succ n le ih =>
      have inTime' : ¬ ∃ k, m < k ∧ k ≤ n ∧ life.DyingAt k ∧ ¬ life.ReadyAt k := by
        rintro ⟨k, above, below, late⟩
        exact inTime ⟨k, above, Nat.le_succ_of_le below, late⟩
      by_cases before : life.ReadyAt n
      · obtain ⟨k, above, below, running⟩ := ih before inTime'
        exact ⟨k, above, Nat.le_succ_of_le below, running⟩
      · -- it becomes ready now, so it is not dying yet
        refine ⟨n + 1, Nat.le_succ_of_le le, le_rfl, fun dying => ?_, ready⟩
        have earlier := dyingAt_of_ready_succ before ready dying
        rcases Nat.eq_or_lt_of_le le with rfl | above
        · exact alive earlier
        · exact inTime ⟨n, above, Nat.le_succ n, earlier, before⟩

/-- **An observation is sound exactly when it is timely.** -/
theorem sound_iff_timely (o : Observation) : life.Sound o ↔ life.Timely o := by
  by_cases dying : life.DyingAt o.first
  · -- the first select answers
    have sound : life.Sound o :=
      ⟨o.first, le_rfl, o.ordered, (observe_of_dying dying).trans (phase_of_dying dying).symm⟩
    exact iff_of_true sound ⟨.inl (dyingAt_mono o.ordered dying), fun late => late.1 dying⟩
  by_cases ready : life.ReadyAt o.second
  · have running := observe_of_ready dying ready
    constructor
    · rintro ⟨n, above, below, seen⟩
      rw [running] at seen
      refine ⟨.inr ready, ?_⟩
      rintro ⟨-, -, k, -, -, dyingK, booting⟩
      -- before `k` the app was not ready, and from `k` on it was dying
      by_cases dyingN : life.DyingAt n
      · rw [phase_of_dying dyingN] at seen
        cases seen
      · have early : n ≤ k := (Nat.le_total n k).resolve_right fun late =>
          dyingN (dyingAt_mono late dyingK)
        rw [phase_of_booting dyingN (mt (readyAt_mono early) booting)] at seen
        cases seen
    · rintro ⟨-, inTime⟩
      obtain ⟨n, above, below, alive, readyN⟩ :=
        exists_running o.ordered dying ready fun late => inTime ⟨dying, ready, late⟩
      exact ⟨n, above, below, running.trans (phase_of_ready alive readyN).symm⟩
  · have dead := observe_of_booting ready
    constructor
    · rintro ⟨n, -, below, seen⟩
      refine ⟨.inl ?_, fun late => ready late.2.1⟩
      by_contra alive
      rw [dead, phase_of_booting (mt (dyingAt_mono below) alive)
        (mt (readyAt_mono below) ready)] at seen
      cases seen
    · rintro ⟨dyingOrReady, -⟩
      have late := dyingOrReady.resolve_right ready
      exact ⟨o.second, o.ordered, le_rfl, dead.trans (phase_of_dying late).symm⟩

/-- Sound observations one after another come in order. -/
theorem phases_of_sound {obs : List Observation} (sound : ∀ o ∈ obs, life.Sound o)
    (sequential : obs.Pairwise fun o p => o.second ≤ p.first) :
    ∃ b r d, obs.map life.observe =
      List.replicate b .booting ++ List.replicate r .running ++ List.replicate d .dead := by
  apply AppStatus.phases_of_pairwise
  rw [List.pairwise_map]
  refine sequential.imp_of_mem fun {o p} memO memP before => ?_
  obtain ⟨m, -, early, seenO⟩ := sound o memO
  obtain ⟨n, late, -, seenP⟩ := sound p memP
  rw [seenO, seenP]
  exact phase_mono (early.trans (before.trans late))

/-- **When the status follows the lifecycle.**  In every life, observations placed
anywhere follow it exactly when each of them is timely. -/
theorem follows_iff_timely (life : Life) (obs : List Observation) :
    life.Follows obs ↔ ∀ o ∈ obs, life.Timely o := by
  constructor
  · intro follows o mem
    exact (sound_iff_timely o).mp (follows.sound o mem)
  · intro timely
    have sound : ∀ o ∈ obs, life.Sound o := fun o mem => (sound_iff_timely o).mpr (timely o mem)
    exact ⟨sound, phases_of_sound sound⟩

/-! ### Every app of the pool has a life -/

/-- The life that goes on from the moment `n` with `j`, and stays there. -/
def extend (life : Life) (n : ℕ) (j : Instance) (next : (life.state n).Next j) : Life where
  state m := if m ≤ n then life.state m else j
  created := by
    obtain ⟨app, now, start⟩ := life.created
    exact ⟨app, now, by rw [if_pos (Nat.zero_le n), start]⟩
  steps m := by
    rcases Nat.lt_trichotomy m n with before | now | after
    · rw [if_pos before.le, if_pos (Nat.succ_le_of_lt before)]
      exact life.steps m
    · subst now
      rw [if_pos le_rfl, if_neg (Nat.not_succ_le_self m)]
      exact next
    · rw [if_neg (Nat.not_le_of_lt after), if_neg (by omega)]
      exact .inl rfl

/-- **Every app in every run of the pool** is a moment of a life. -/
theorem exists_of_exec {T : PrintTable} {hash : GoString → GoString} {dir : Filepath.CleanDir}
    {idleTime : ℤ} {ls : List Label} {t : Pool}
    (run : (poolMachine T hash dir idleTime).exec (.empty dir idleTime) ls = some t)
    {k : AppId} {j : Instance} (there : t.heap[k]? = some j) :
    ∃ (life : Life) (n : ℕ), life.state n = j := by
  have all : ∀ (k : AppId) j, t.heap[k]? = some j → ∃ (life : Life) (n : ℕ), life.state n = j := by
    refine (poolMachine T hash dir idleTime).exec_induction
      (P := fun _ u => ∀ (k : AppId) j, u.heap[k]? = some j → ∃ (life : Life) (n : ℕ), life.state n = j)
      (fun k j there => by simp [Pool.empty] at there) ?_ run
    intro past u l t before step k j there
    rcases Pool.before_of_step step there with ⟨i, here, next⟩ | ⟨app, -, -, rfl⟩
    · obtain ⟨life, n, state⟩ := before k i here
      refine ⟨life.extend n j (state ▸ next), n + 1, ?_⟩
      exact if_neg (Nat.not_succ_le_self n)
    · exact ⟨⟨fun _ => .create app u.clock, ⟨app, u.clock, rfl⟩, fun _ => .inl rfl⟩, 0, rfl⟩
  exact all k j there

/-- An app whose goroutines have been started and whose socket never answers. -/
def bootingApp : App where
  name := "blog".toList
  scheme := "httpu".toList
  host := "/home/u/blog/tmp/puma-dev-7.sock".toList
  port := 0
  command := some ⟨"/bin/bash".toList, ["-l".toList, "-i".toList, "-c".toList],
    "/home/u/blog".toList, [], 8⟩
  isPublic := false
  dir := "/home/u/blog".toList

/-- Its states: one goroutine after the other is started, and then nothing moves. -/
def bootingState : ℕ → Instance
  | 0 => .create bootingApp 0
  | 1 => { Instance.create bootingApp 0 with watch := .select }
  | 2 => { Instance.create bootingApp 0 with watch := .select, idle := .select }
  | 3 => { Instance.create bootingApp 0 with
      watch := .select, idle := .select, restart := .select }
  | _ => { Instance.create bootingApp 0 with
      watch := .select, idle := .select, restart := .select, probe := .select }

def booting : Life where
  state := bootingState
  created := ⟨bootingApp, 0, rfl⟩
  steps
    | 0 => .inr (.go .watch rfl)
    | 1 => .inr (.go .idle rfl)
    | 2 => .inr (.go .restart rfl)
    | 3 => .inr (.go .probe rfl)
    | _ + 4 => .inl rfl

/-- An app that boots is reported as dead. -/
theorem booting_reported_dead :
    ¬ ∀ (life : Life) (obs : List Observation), life.Follows obs := by
  intro always
  obtain ⟨n, above, below, seen⟩ :=
    (always booting [⟨4, 4, le_rfl⟩]).sound ⟨4, 4, le_rfl⟩ (List.mem_singleton_self _)
  have now : n = 4 := Nat.le_antisymm below above
  rw [now] at seen
  exact absurd seen (by decide)

end Life

end PumaDev
