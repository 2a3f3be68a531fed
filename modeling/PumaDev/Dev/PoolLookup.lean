import PumaDev.Dev.PoolMachine

/-!
# A lookup that nobody interrupts

`lookupApp` is one function, and in the machine of the pool it is several steps with
the steps of other goroutines in between.  The two are connected here: if nothing else
moves, the steps of a lookup lead to the state that the function computes
(`exec_undisturbed`).  `Pool.view` is what the function knows of the machine's state.
-/

namespace PumaDev

namespace Instance

/-- Start the goroutines one after the other. -/
def goAll (i : Instance) : List Goroutine → Option Instance
  | [] => some i
  | g :: left => (i.go g).bind fun j => j.goAll left

/-- All goroutines of a new app can be started, and it stays the app it is. -/
theorem goAll_create (app : App) (now : ℤ) :
    ∃ i, (create app now).goAll (goroutines app) = some i ∧ i.app = app ∧
      i.proc = (create app now).proc := by
  cases command : app.command with
  | none => exact ⟨create app now, by simp [goroutines, command, goAll], rfl, rfl⟩
  | some cmd => simp [goroutines, command, goAll, go, create]

end Instance

namespace Pool

variable {T : PrintTable} {hash : GoString → GoString} {dir : Filepath.CleanDir} {idleTime : ℤ}
  {s : Pool}

/-- The pool as `lookupApp` sees it. -/
def view (s : Pool) : AppPool := ⟨s.dir, s.apps, s.heap.map Instance.app⟩

/-- The steps of a lookup, with none of anybody else in between. -/
def undisturbed (T : PrintTable) (hash : GoString → GoString) (s : Pool) (name : GoString)
    (os : Os) : List Label :=
  match (decideLookup hash os s.dir.text s.apps name).2 with
  | .start request =>
      match (boot T os request).2 with
      | .error _ => [.lookup name os, .boot os]
      | .ok app =>
          .lookup name os :: .boot os ::
            ((Instance.goroutines app).map (fun _ => .go) ++ [.register])
  | _ => [.lookup name os]

/-- A run begins with its first step. -/
theorem exec_cons {l : Label} {t : Pool} (h : s.step T hash l = some t) (rest : List Label) :
    (poolMachine T hash dir idleTime).exec s (l :: rest) =
      (poolMachine T hash dir idleTime).exec t rest :=
  have step : (poolMachine T hash dir idleTime).step s l = some t := h
  (poolMachine T hash dir idleTime).exec_of_step step rest

/-- The goroutines are started, then the map is written. -/
theorem exec_go {id : AppId} {identity : Identity} {left : List Goroutine} {i j : Instance}
    (starting : s.holder = some (.starting id identity left)) (here : s.heap[id]? = some i)
    (all : i.goAll left = some j) :
    (poolMachine T hash dir idleTime).exec s (left.map (fun _ => .go) ++ [.register]) =
      some { s with
        apps := register s.apps identity id
        heap := s.heap.set id j
        holder := none } := by
  induction left generalizing s i with
  | nil =>
      cases all
      have same : s.heap.set id j = s.heap := by
        obtain ⟨inside, self⟩ := List.getElem?_eq_some_iff.mp here
        rw [← self]
        exact List.set_getElem_self inside
      rw [same]
      apply exec_cons
      simp [step, starting]
  | cons g left ih =>
      obtain ⟨next, went, rest⟩ := Option.bind_eq_some_iff.mp all
      have first : s.step T hash .go = some { s with
          holder := some (.starting id identity left), heap := s.heap.set id next } := by
        simp [step, starting, modify, here, went]
      have inside := (List.getElem?_eq_some_iff.mp here).1
      rw [List.map_cons, List.cons_append, exec_cons first, ih rfl (by simp [inside]) rest]
      simp

/-- An app is created, its goroutines are started, and the map is written. -/
theorem exec_boot {request : Request} {os : Os} {app : App}
    (booting : s.holder = some (.booting request))
    (booted : (boot T os request).2 = .ok app) :
    ∃ i, i.app = app ∧ i.proc = (Instance.create app s.clock).proc ∧
      (poolMachine T hash dir idleTime).exec s
          (.boot os :: ((Instance.goroutines app).map (fun _ => .go) ++ [.register])) =
        some { s with
          apps := register s.apps request.identity s.heap.length
          heap := s.heap ++ [i]
          holder := none } := by
  have created : s.step T hash (.boot os) = some { s with
      heap := s.heap ++ [Instance.create app s.clock]
      holder := some
        (.starting s.heap.length request.identity (Instance.goroutines app)) } := by
    simp [step, booting, booted]
  obtain ⟨i, all, same, process⟩ := Instance.goAll_create app s.clock
  refine ⟨i, same, process, ?_⟩
  rw [exec_cons created, exec_go rfl (by simp) all]
  simp

/-- **An undisturbed lookup** ends where `lookupApp` ends. -/
theorem exec_undisturbed (free : s.Free) (name : GoString) (os : Os) :
    ∃ t, (poolMachine T hash dir idleTime).exec s (s.undisturbed T hash name os) = some t ∧
      t.Free ∧ t.view = (lookupApp T hash os s.view name).2.1 := by
  rcases decided : decideLookup hash os s.dir.text s.apps name with ⟨asked, decision⟩
  have viewed : decideLookup hash os s.view.dir.text s.view.apps name = (asked, decision) :=
    decided
  rw [undisturbed, lookupApp, decided, viewed]
  cases decision with
  | hit id => exact ⟨s, exec_cons (by simp [step, free, decided]) [], free, rfl⟩
  | fail err => exact ⟨s, exec_cons (by simp [step, free, decided]) [], free, rfl⟩
  | share id identity =>
      have shared : s.step T hash (.lookup name os) =
          some { s with apps := register s.apps identity id } := by
        simp [step, free, decided]
      exact ⟨_, exec_cons shared [], free, rfl⟩
  | start request =>
      have opened : s.step T hash (.lookup name os) =
          some { s with holder := some (.booting request) } := by
        simp [step, free, decided]
      rcases booted : boot T os request with ⟨effect, err | app⟩
      · have failed : ({ s with holder := some (.booting request) } : Pool).step T hash
            (.boot os) = some { s with holder := none } := by
          simp [step, booted]
        dsimp only
        rw [booted]
        exact ⟨_, (exec_cons opened _).trans (exec_cons failed []), rfl, rfl⟩
      · have booting : ({ s with holder := some (.booting request) } : Pool).holder =
            some (.booting request) := rfl
        obtain ⟨i, same, -, runs⟩ :=
          @exec_boot T hash dir idleTime _ _ os _ booting (congrArg Prod.snd booted)
        dsimp only
        rw [booted]
        refine ⟨_, (exec_cons opened _).trans runs, rfl, ?_⟩
        simp [view, same]

end Pool

end PumaDev
