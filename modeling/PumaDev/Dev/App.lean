import PumaDev.Dev.RpcEvents
import PumaDev.Go.Os

/-!
# Apps and how they come to be

An **app** is either a process that `LaunchApp` starts in a directory, or a
proxy to an address that `readProxy` reads from a file.  Both functions are
here as the code computes them, with every way they can fail; what an app does
once it exists is a matter of the pool.
-/

namespace PumaDev

/-- An error, as the pool hands it on. -/
inductive GoError where
  /-- `ErrUnknownApp`, which callers recognise. -/
  | unknownApp
  /-- Any other, by its message. -/
  | other (text : GoString)
  deriving DecidableEq

/-- `err.Error()`. -/
def GoError.text : GoError → GoString
  | unknownApp => "unknown app".toList
  | other text => text

/-- What `exec.Command` was built from, and the process it became. -/
structure Command where
  shell : GoString
  args : List GoString
  dir : GoString
  env : List GoString
  pid : ℕ
  deriving DecidableEq

/-- The part of `App` that is fixed when the app is created. -/
structure App where
  name : GoString
  scheme : GoString
  host : GoString
  port : ℤ
  /-- `none` for a proxy. -/
  command : Option Command
  /-- There is a `public` directory to serve files from. -/
  isPublic : Bool
  dir : GoString
  deriving DecidableEq

namespace App

/-- `App.SetAddress`. -/
def setAddress (app : App) (scheme host : GoString) (port : ℤ) : App :=
  { app with scheme := scheme, host := host, port := port }

/-- `App.Address`. -/
def address (app : App) : GoString :=
  if app.port = 0 then app.host else app.host ++ ':' :: Strconv.itoa app.port

end App

/-- `DefaultThreads`. -/
def defaultThreads : ℤ := 5

/-- `executionShell`, with its directory, name, socket, name and socket. -/
def executionShell (dir name socket : GoString) : GoString :=
  "exec bash -c '\ncd ".toList ++ dir ++
    ("\n\nif test -e ~/.powconfig && [ \"$PUMADEV_SOURCE_POWCONFIG\" != \"0\" ]; then\n" ++
      "\tsource ~/.powconfig\nfi\n\n" ++
      "if test -e .env && [ \"$PUMADEV_SOURCE_ENV\" != \"0\" ]; then\n\tsource .env\nfi\n\n" ++
      "if test -e .powrc && [ \"$PUMADEV_SOURCE_POWRC\" != \"0\" ]; then\n" ++
      "\tsource .powrc\nfi\n\n" ++
      "if test -e .powenv && [ \"$PUMADEV_SOURCE_POWENV\" != \"0\" ]; then\n" ++
      "\tsource .powenv\nfi\n\n" ++
      "if test -e .pumaenv && [ \"$PUMADEV_SOURCE_PUMAENV\" != \"0\" ]; then\n" ++
      "\tsource .pumaenv\nfi\n\n" ++
      "if test -e Gemfile && bundle exec puma -V &>/dev/null; then\n" ++
      "\texec bundle exec puma -C $CONFIG --tag puma-dev:").toList ++ name ++
    " -w $WORKERS -t 0:$THREADS -b unix:".toList ++ socket ++
    "\nfi\n\nexec puma -C $CONFIG --tag puma-dev:".toList ++ name ++
    " -w $WORKERS -t 0:$THREADS -b unix:".toList ++ socket ++ "'\n".toList

/-- The directory an app keeps its socket and its restart file in. -/
def tmpDir (dir : GoString) : GoString := Filepath.join [dir, "tmp".toList]

/-- The socket of the app in a directory, for one puma-dev process. -/
def socketPath (pid : ℕ) (dir : GoString) : GoString :=
  Filepath.join [tmpDir dir, "puma-dev-".toList ++ Strconv.itoa pid ++ ".sock".toList]

/-- The variables `LaunchApp` adds to the environment. -/
def launchEnv : List GoString :=
  ["THREADS=".toList ++ Strconv.itoa defaultThreads, "WORKERS=0".toList, "CONFIG=-".toList]

/-- `AppPool.LaunchApp`, up to the goroutines it starts: the process is running
when it returns. -/
def launchApp (os : Os) (name dir : GoString) : Except GoError App :=
  match os.mkdirAll (tmpDir dir) with
  | some err => .error (.other err)
  | none =>
      let socket := socketPath os.getpid dir
      let shell := if os.shell = [] then "/bin/bash".toList else os.shell
      match os.stdoutPipe with
      | some err => .error (.other err)
      | none =>
          match os.start with
          | .error err => .error (.other (os.errorsContext err "starting app".toList))
          | .ok pid =>
              let app : App :=
                { name := name
                  scheme := []
                  host := []
                  port := 0
                  command := some
                    { shell := shell
                      args := ["-l".toList, "-i".toList, "-c".toList,
                        executionShell dir name socket]
                      dir := dir
                      env := launchEnv
                      pid := pid }
                  isPublic :=
                    match os.statAt .publicDir (Filepath.join [dir, "public".toList]) with
                    | .ok info => info.isDir
                    | .error _ => false
                  dir := dir }
              .ok (app.setAddress "httpu".toList socket 0)

/-- `AppPool.readProxy`. -/
def readProxy (T : PrintTable) (os : Os) (name path : GoString) : Except GoError App :=
  match os.readFile path with
  | .error err => .error (.other err)
  | .ok raw =>
      let app : App :=
        { name := name, scheme := [], host := [], port := 0, command := none
          isPublic := false, dir := [] }
      let data := Strings.trimSpace raw
      match Strconv.atoi data with
      | .ok port => .ok (app.setAddress "http".toList "127.0.0.1".toList port)
      | .error _ =>
          match os.urlParse data with
          | .error err => .error (.other err)
          | .ok (scheme, urlHost) =>
              match Net.splitHostPort urlHost with
              | none => .ok (app.setAddress scheme urlHost 0)
              | some (host, sport) =>
                  match Strconv.atoi sport with
                  | .error err => .error (.other (err.text T sport))
                  | .ok port => .ok (app.setAddress scheme host port)

/-! ## What a new app is -/

/-- A launched app: its name, its directory and its socket are what it was
launched with. -/
theorem launchApp_eq_ok {os : Os} {name dir : GoString} {app : App}
    (h : launchApp os name dir = .ok app) :
    app.name = name ∧ app.dir = dir ∧ app.command.isSome ∧
      app.scheme = "httpu".toList ∧ app.address = socketPath os.getpid dir := by
  unfold launchApp at h
  split at h
  · cases h
  · dsimp only at h
    split at h
    · cases h
    · split at h
      · cases h
      · cases h
        exact ⟨rfl, rfl, rfl, rfl, rfl⟩

/-- A proxy: it has its name, and no process. -/
theorem readProxy_eq_ok {T : PrintTable} {os : Os} {name path : GoString} {app : App}
    (h : readProxy T os name path = .ok app) :
    app.name = name ∧ app.command = none := by
  unfold readProxy at h
  split at h
  · cases h
  · dsimp only at h
    split at h
    · cases h
      exact ⟨rfl, rfl⟩
    · split at h
      · cases h
      · split at h
        · cases h
          exact ⟨rfl, rfl⟩
        · split at h
          · cases h
          · cases h
            exact ⟨rfl, rfl⟩

end PumaDev
