import PumaDev.Dev.RpcFind

/-!
# The console endpoints

`POST /apps/{id}/console` creates a console program for an app and keeps it in
`spAppConsole`, the one slot that all apps share; `DELETE /apps/{id}/console` kills
the program in the slot, if it belongs to the app.  Between two requests the rest of
the process may do anything to the pool.

What a program is created from is computed as `InitConsoleApp` does it.  It does not
start the process, and nothing else does (`unstarted_of_step`): so `Kill` has no
process to signal, and `consoleWorks_iff` says what is left of a start/stop machine.
-/

namespace PumaDev

/-! ## Console programs -/

/-- What `truthy.ValueAny` answers. -/
class Truthy (α : Type) where
  truthy : α → Bool

instance : Truthy GoString := ⟨fun s => !s.isEmpty⟩

instance : Truthy Bool := ⟨id⟩

namespace Maybe

variable {α : Type} [Truthy α]

/-- `Maybe.Set`: a value that is not truthy is no value. -/
def set (value : α) : Option α := if Truthy.truthy value then some value else none

/-- `Maybe.ApplyDefault`. -/
def applyDefault (m : Option α) (value : α) : Option α :=
  match m with
  | some value => some value
  | none => set value

end Maybe

/-- The options of a console program that its creation looks at. -/
structure RpcConsoleProgOpts where
  key : Option GoString
  dir : Option GoString
  env : List (GoString × GoString)
  argv : List GoString
  useShell : Option Bool
  shellArgs : List GoString
  persist : Option Bool
  interactive : Option Bool
  allocPty : Option Bool

/-- `NewRpcConsoleProgOpts`. -/
def newRpcConsoleProgOpts : RpcConsoleProgOpts where
  key := none
  dir := none
  env := []
  argv := []
  useShell := none
  shellArgs := []
  persist := none
  interactive := none
  allocPty := none

/-- A console program. -/
structure RpcConsoleProg where
  app : AppId
  key : Option GoString
  label : GoString
  cmdline : GoString
  /-- `Command.Args`. -/
  args : List GoString
  /-- `Command.Dir`. -/
  dir : GoString
  /-- `Command.Env`. -/
  env : List GoString
  /-- `Command.Process`, by its id; nil until the command is started. -/
  process : Option ℕ
  tmpDir : GoString

/-- The world during one request. -/
structure ConsoleOs where
  /-- `os.LookupEnv("SHELL")`. -/
  shell : Option GoString
  environ : List GoString
  /-- `which.Which`; empty where there is no such executable. -/
  which : GoString → GoString
  /-- `shellquote.Join`. -/
  shellquoteJoin : List GoString → GoString
  /-- `os.MkdirTemp("", pattern)`, with the message of its error. -/
  mkdirTemp : GoString → Except GoString GoString
  /-- `errors.Context`. -/
  errorsContext : GoString → GoString → GoString
  /-- The message of the error of `proc.Signal(syscall.SIGTERM)`. -/
  signal : ℕ → Option GoString

/-- `DefaultShell`. -/
def defaultShell : GoString := "/bin/bash".toList

/-- `RpcConsoleProg.ComputeShellArgs`. -/
def computeShellArgs (os : ConsoleOs) (opts : RpcConsoleProgOpts) : List GoString :=
  if opts.useShell = none then []
  else
    let shellCmd := match opts.env.lookup "SHELL".toList with
      | some shellCmd => shellCmd
      | none => os.shell.getD defaultShell
    shellCmd :: opts.shellArgs ++
      if opts.interactive.getD false then ["-l".toList, "-i".toList] else []

/-- `path.Base`. -/
def pathBase (p : GoString) : GoString := if p = [] then ['.'] else Filepath.base p

/-- The arguments of a program, with what `fullCmdArgs` sets of the program. -/
structure CmdArgs where
  fullArgs : List GoString
  key : Option GoString
  cmdline : GoString

/-- `RpcConsoleProg.fullCmdArgs`, for a program of an app that has the key `key`; the
label is set before most of what can fail. -/
def fullCmdArgs (os : ConsoleOs) (name : GoString) (key : Option GoString)
    (opts : RpcConsoleProgOpts) : GoString × Except GoString CmdArgs :=
  match computeShellArgs os opts ++ if opts.argv = [] then [] else "-c".toList :: opts.argv with
  | [] => ([], .error "No args given to launch non-shell program".toList)
  | command :: rest =>
      let key := Maybe.applyDefault key (pathBase command)
      let label := Strings.join (name :: key.toList) '-'
      if Filepath.isAbs command then
        (label, .ok ⟨command :: rest, key, os.shellquoteJoin (command :: rest)⟩)
      else
        let whichResult := os.which command
        if whichResult = [] then
          (label, .error ("Could not find executable in PATH for command ".toList ++ command))
        else (label, .ok ⟨whichResult :: rest, key, os.shellquoteJoin (whichResult :: rest)⟩)

/-- `App.InitConsoleApp`: a program is created and initialized, and not started. -/
def initConsoleApp (os : ConsoleOs) (id : AppId) (a : App) (opts : RpcConsoleProgOpts) :
    Except GoString RpcConsoleProg :=
  let opts := { opts with
    dir := Maybe.applyDefault opts.dir a.dir
    persist := Maybe.applyDefault opts.persist opts.key.isSome }
  if opts.persist = none then .error "key not given for persistent RpcConsoleProg".toList
  else
    let opts := { opts with
      useShell := Maybe.applyDefault opts.useShell true
      allocPty := Maybe.applyDefault opts.allocPty true }
    match fullCmdArgs os a.name opts.key opts with
    | (label, .error err) =>
        .error (os.errorsContext err
          ("Generating arguments for command in console prog ".toList ++ label))
    | (label, .ok cmd) =>
        match os.mkdirTemp (label ++ ".tmp-*".toList) with
        | .error err => .error err
        | .ok tmpDir => .ok
            { app := id
              key := cmd.key
              label := label
              cmdline := cmd.cmdline
              args := cmd.fullArgs
              dir := opts.dir.getD a.dir
              env := os.environ ++ opts.env.map fun v => v.1 ++ '=' :: v.2
              process := none
              tmpDir := tmpDir }

/-- `RpcConsoleProg.Kill`: the message of its error, if there is one; `none` when it
asks a process that is nil for its `Pid`. -/
def RpcConsoleProg.kill (os : ConsoleOs) (prog : RpcConsoleProg) : Option (Option GoString) :=
  prog.process.map os.signal

/-! ## The handlers -/

/-- How a handler ends: with a status and perhaps an error, or in a panic. -/
inductive ConsoleAnswer where
  | answered (status : ℕ) (err : Option GoString)
  | panics
  deriving DecidableEq

/-- `NotFoundErr`. -/
def notFoundErr : GoString := "Path does not exist".toList

/-- The pool, and `spAppConsole`. -/
structure Console where
  pool : AppPool
  spAppConsole : Option RpcConsoleProg

/-- The options of the console that `rpcStartAppConsole` asks for. -/
def railsConsole : RpcConsoleProgOpts :=
  { newRpcConsoleProgOpts with
    key := Maybe.set "rails console".toList
    argv := ["bundle".toList, "exec".toList, "rails".toList, "console".toList]
    interactive := Maybe.set true
    allocPty := Maybe.set true }

/-- `RpcService.rpcStartAppConsole`, with what `findAppByRequest` returns. -/
def rpcStartAppConsole (os : ConsoleOs) (found : AppPool × Option AppId) (s : Console) :
    Console × ConsoleAnswer :=
  match s.spAppConsole with
  | some _ => (s, .answered 423 (some "Already started".toList))
  | none =>
      match found.2.bind fun id => (found.1.heap[id]?).map fun app => (id, app) with
      | none => ({ s with pool := found.1 }, .answered 404 (some notFoundErr))
      | some (id, app) =>
          match initConsoleApp os id app railsConsole with
          | .error err => (⟨found.1, none⟩, .answered 500 (some err))
          | .ok prog => (⟨found.1, some prog⟩, .answered 201 none)

/-- `RpcService.rpcStopAppConsole`, with what `findAppByRequest` returns. -/
def rpcStopAppConsole (os : ConsoleOs) (found : AppPool × Option AppId) (s : Console) :
    Console × ConsoleAnswer :=
  match s.spAppConsole with
  | none => (s, .answered 400 (some "Console not started for app".toList))
  | some prog =>
      let s := { s with pool := found.1 }
      if found.2 ≠ some prog.app then (s, .answered 404 (some notFoundErr))
      else
        match prog.kill os with
        | none => (s, .panics)
        | some (some err) => (s, .answered 500 (some err))
        | some none => (s, .answered 202 none)

/-- The methods of `/apps/{id}/console`. -/
inductive ConsoleMethod where
  | post
  | delete
  deriving DecidableEq

/-- A request to `/apps/{id}/console`, and the world while it is served. -/
structure ConsoleRequest where
  method : ConsoleMethod
  item : ItemRequest
  rpc : RpcOs
  os : ConsoleOs
  /-- The orders in which `findAppByKey` goes through the map. -/
  first : (apps : Apps) → Registry.Iteration apps
  second : (apps : Apps) → Registry.Iteration apps

/-- What happens, as far as consoles are concerned. -/
inductive ConsoleLabel where
  | request (r : ConsoleRequest)
  /-- Other goroutines change the pool. -/
  | pool (pool : AppPool)

namespace Console

variable (domains : List GoString) (T : PrintTable) (hash : GoString → GoString)

/-- What `findAppByRequest` returns. -/
def found (s : Console) (r : ConsoleRequest) : AppPool × Option AppId :=
  findAppByRequest domains T hash r.rpc s.pool (r.first _) (r.second _) r.item

/-- A request is served. -/
def serve (s : Console) (r : ConsoleRequest) : Console × ConsoleAnswer :=
  match r.method with
  | .post => rpcStartAppConsole r.os (s.found domains T hash r) s
  | .delete => rpcStopAppConsole r.os (s.found domains T hash r) s

/-- Requests, one after the other, and the pool in between. -/
def consoleMachine (pool : AppPool) : Machine Console ConsoleLabel where
  init := ⟨pool, none⟩
  step s
    | .request r => some (s.serve domains T hash r).1
    | .pool pool => some { s with pool := pool }

/-- A condition on requests, in the state they are served in. -/
def OnRequests (P : Console → ConsoleRequest → Prop) (s : Console) : ConsoleLabel → Prop
  | .request r => P s r
  | .pool _ => True

/-- The request is served without a panic; and if it is a `DELETE` answered 202, the slot
is free again, and no `POST` that comes next is answered 423. -/
structure Works (s : Console) (r : ConsoleRequest) : Prop where
  completes : (s.serve domains T hash r).2 ≠ .panics
  frees : r.method = .delete → ∀ err, (s.serve domains T hash r).2 = .answered 202 err →
    (s.serve domains T hash r).1.spAppConsole = none ∧
      ∀ next : ConsoleRequest, next.method = .post → ∀ err',
        ((s.serve domains T hash r).1.serve domains T hash next).2 ≠ .answered 423 err'

/-- The request is no `DELETE` that finds the app whose console is in the slot. -/
def SparesConsole (s : Console) (r : ConsoleRequest) : Prop :=
  r.method = .delete → ∀ prog, s.spAppConsole = some prog →
    (s.found domains T hash r).2 ≠ some prog.app

/-! ## No program is ever started -/

/-- What is in the slot has no process. -/
def Unstarted (s : Console) : Prop := ∀ prog, s.spAppConsole = some prog → prog.process = none

variable {domains T hash}

/-- `InitConsoleApp` starts nothing. -/
theorem process_of_initConsoleApp {os : ConsoleOs} {id : AppId} {a : App}
    {opts : RpcConsoleProgOpts} {prog : RpcConsoleProg}
    (h : initConsoleApp os id a opts = .ok prog) : prog.process = none := by
  unfold initConsoleApp at h
  dsimp only at h
  split at h
  · cases h
  · split at h
    · cases h
    · split at h
      · cases h
      · cases h
        rfl

/-- A `POST` with the slot taken. -/
theorem start_of_taken {os : ConsoleOs} {found : AppPool × Option AppId} {s : Console}
    {prog : RpcConsoleProg} (taken : s.spAppConsole = some prog) :
    rpcStartAppConsole os found s = (s, .answered 423 (some "Already started".toList)) := by
  simp [rpcStartAppConsole, taken]

/-- A `POST` with the slot free: it completes, is not answered 423, and what it puts into
the slot has no process. -/
theorem start_of_free (os : ConsoleOs) (found : AppPool × Option AppId) {s : Console}
    (free : s.spAppConsole = none) :
    (rpcStartAppConsole os found s).1.Unstarted ∧
      ∃ status err, (rpcStartAppConsole os found s).2 = .answered status err ∧ status ≠ 423 := by
  unfold rpcStartAppConsole
  rw [free]
  dsimp only
  split
  · exact ⟨fun prog taken => (by cases taken), _, _, rfl, by decide⟩
  · split
    · exact ⟨fun prog taken => (by cases taken), _, _, rfl, by decide⟩
    · next made =>
        refine ⟨fun prog taken => ?_, _, _, rfl, by decide⟩
        cases taken
        exact process_of_initConsoleApp made

/-- A `POST` always completes. -/
theorem start_completes (os : ConsoleOs) (found : AppPool × Option AppId) (s : Console) :
    (rpcStartAppConsole os found s).2 ≠ .panics := by
  cases slot : s.spAppConsole with
  | some prog => simp [start_of_taken slot]
  | none =>
      obtain ⟨-, status, err, answer, -⟩ := start_of_free os found slot
      simp [answer]

/-- A `DELETE` leaves the slot as it is. -/
@[simp] theorem slot_stop (os : ConsoleOs) (found : AppPool × Option AppId) (s : Console) :
    (rpcStopAppConsole os found s).1.spAppConsole = s.spAppConsole := by
  unfold rpcStopAppConsole
  split
  · rfl
  · dsimp only
    split
    · rfl
    · split <;> rfl

/-- **A `DELETE` with an unstarted program in the slot** panics if it finds the app of the
program, and else is answered 404 or 400. -/
theorem stop_of_unstarted (os : ConsoleOs) (found : AppPool × Option AppId) {s : Console}
    (unstarted : s.Unstarted) :
    (rpcStopAppConsole os found s).2 =
      match s.spAppConsole with
      | none => .answered 400 (some "Console not started for app".toList)
      | some prog => if found.2 = some prog.app then .panics
          else .answered 404 (some notFoundErr) := by
  unfold rpcStopAppConsole
  cases slot : s.spAppConsole with
  | none => rfl
  | some prog =>
      have process := unstarted prog slot
      by_cases same : found.2 = some prog.app
      · simp [same, RpcConsoleProg.kill, process]
      · simp [same]

/-- **Nothing is ever started.** -/
theorem unstarted_of_step {pool : AppPool} {s t : Console} {l : ConsoleLabel}
    (unstarted : s.Unstarted)
    (h : (consoleMachine domains T hash pool).step s l = some t) : t.Unstarted := by
  cases l with
  | pool pool' =>
      cases h
      exact unstarted
  | request r =>
      cases h
      unfold serve
      cases r.method with
      | post =>
          cases slot : s.spAppConsole with
          | some prog =>
              simp only [start_of_taken slot]
              exact unstarted
          | none => exact (start_of_free _ _ slot).1
      | delete =>
          intro prog taken
          exact unstarted prog (by simpa using taken)

/-! ## What works -/

/-- One request works exactly when it spares the console. -/
theorem works_iff_spares {s : Console} (unstarted : s.Unstarted) (r : ConsoleRequest) :
    s.Works domains T hash r ↔ s.SparesConsole domains T hash r := by
  cases method : r.method with
  | post =>
      have works : s.Works domains T hash r := by
        refine ⟨?_, fun delete => ?_⟩
        · simp only [serve, method]
          exact start_completes _ _ _
        · rw [method] at delete
          cases delete
      refine iff_of_true works fun delete => ?_
      rw [method] at delete
      cases delete
  | delete =>
      have answer := stop_of_unstarted r.os (s.found domains T hash r) unstarted
      have served : s.serve domains T hash r =
          rpcStopAppConsole r.os (s.found domains T hash r) s := by simp only [serve, method]
      rw [← served] at answer
      constructor
      · intro works _ prog taken same
        rw [taken] at answer
        simp only [same, if_true] at answer
        exact works.completes answer
      · intro spares
        have other : ∀ err, (s.serve domains T hash r).2 ≠ .answered 202 err := by
          intro err
          rw [answer]
          split
          · simp
          · split <;> simp
        refine ⟨?_, fun _ err accepted => absurd accepted (other err)⟩
        rw [answer]
        split
        · simp
        · next prog taken => simp [spares method prog taken]

/-- **When the endpoints work.**  For every pool, every finite sequence of `POST` and
`DELETE` requests over any apps, and whatever happens to the pool in between: every
request is served without a panic and a `DELETE` answered 202 frees the slot, if and
only if no `DELETE` of the sequence finds the app whose console is in the slot. -/
theorem consoleWorks_iff_sparesConsole (domains : List GoString) (T : PrintTable)
    (hash : GoString → GoString) (pool : AppPool) (ls : List ConsoleLabel) :
    (consoleMachine domains T hash pool).Guarded (OnRequests (Works domains T hash))
        (consoleMachine domains T hash pool).init ls ↔
      (consoleMachine domains T hash pool).Guarded (OnRequests (SparesConsole domains T hash))
        (consoleMachine domains T hash pool).init ls := by
  refine (consoleMachine domains T hash pool).guarded_congr (J := Unstarted)
    (fun _ _ _ unstarted h => unstarted_of_step unstarted h) ?_ ls ?_
  · intro s l t unstarted _
    cases l with
    | request r => exact works_iff_spares unstarted r
    | pool _ => exact Iff.rfl
  · intro prog taken
    cases taken

/-! ## The slot stays taken -/

/-- Once a console has been created, every later `POST` is answered 423, whatever `DELETE`s
come before it. -/
theorem locked_for_good {pool : AppPool} {s : Console} {prog : RpcConsoleProg}
    (taken : s.spAppConsole = some prog) (ls : List ConsoleLabel) :
    ∀ t ∈ (consoleMachine domains T hash pool).visited s ls,
      t.spAppConsole = some prog ∧
        ∀ r : ConsoleRequest, r.method = .post →
          (t.serve domains T hash r).2 = .answered 423 (some "Already started".toList) := by
  have stays : ∀ t ∈ (consoleMachine domains T hash pool).visited s ls,
      t.spAppConsole = some prog := by
    refine (consoleMachine domains T hash pool).inv_of_step (fun u l v taken h => ?_) ls taken
    cases l with
    | pool _ =>
        cases h
        exact taken
    | request r =>
        cases h
        unfold serve
        cases r.method with
        | post =>
            simp only [start_of_taken taken]
            exact taken
        | delete => simp [taken]
  intro t mem
  refine ⟨stays t mem, fun r post => ?_⟩
  simp [serve, post, start_of_taken (stays t mem)]

/-! ## A console and its end -/

/-- A world in which a console program can be created. -/
def shellOs : ConsoleOs where
  shell := some "/bin/zsh".toList
  environ := []
  which _ := []
  shellquoteJoin args := Strings.join args ' '
  mkdirTemp pattern := .ok ("/tmp/".toList ++ pattern)
  errorsContext err context := context ++ ": ".toList ++ err
  signal _ := none

/-- A request for `blog`. -/
def forBlog (method : ConsoleMethod) : ConsoleRequest where
  method := method
  item := ⟨"blog".toList, []⟩
  rpc := Pool.rpcOs .everyDirectory
  os := shellOs
  first := .entries
  second := .entries

/-- The console endpoints of a process that has not looked up any app. -/
def freshConsole : Machine Console ConsoleLabel :=
  consoleMachine [] .asciiOnly Pool.blogDigest ⟨.home, ∅, []⟩

/-- A console is started for `blog` and is to be stopped: the handler panics. -/
theorem stop_panics : ¬ freshConsole.Guarded (OnRequests (Works [] .asciiOnly Pool.blogDigest))
    freshConsole.init [.request (forBlog .post), .request (forBlog .delete)] := by
  intro guarded
  have split : freshConsole.Guarded (OnRequests (Works [] .asciiOnly Pool.blogDigest))
      freshConsole.init ([.request (forBlog .post)] ++ .request (forBlog .delete) :: []) :=
    guarded
  have works : Works _ _ _ _ (forBlog .delete) := freshConsole.ok_of_guarded split rfl rfl
  exact works.completes (by decide)

end Console

end PumaDev
