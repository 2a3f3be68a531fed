import PumaDev.Dev.App
import PumaDev.Go.Duration
import PumaDev.Go.Flag
import PumaDev.Lib.Plist

/-!
# The launch agent

`InstallIntoSystem` writes a property list whose `ProgramArguments` start puma-dev with the
settings it has been given.  The values are put into the text as they are.

`LaunchAgent.Survives` is what this is for: the text says a property list, and puma-dev, started
with the arguments in it, has these settings.  `main` takes its arguments as they are, so all
depends on the text.
-/

namespace PumaDev

/-! ## The flags of `main` -/

/-- The settings that the launch agent passes on. -/
structure MainFlags where
  launchd : Bool
  dir : GoString
  domains : GoString
  timeout : ℤ
  noServePublicPaths : GoString
  deriving DecidableEq

namespace MainFlags

/-- The flags with their defaults. -/
def defaults : MainFlags where
  launchd := false
  dir := "~/.puma-dev".toList
  domains := "test".toList
  timeout := 15 * 60 * 1000000000
  noServePublicPaths := []

/-- `strconv.ParseBool`. -/
def parseBool (s : GoString) : Option Bool :=
  if ["1", "t", "T", "TRUE", "true", "True"].any fun t => t.toList = s then some true
  else if ["0", "f", "F", "FALSE", "false", "False"].any fun t => t.toList = s then some false
  else none

/-- The flags of `main` for these settings. -/
def formal (name : GoString) : Option (Flag MainFlags) :=
  if name = "launchd".toList then
    some ⟨true, fun s value => (parseBool value).map fun b => { s with launchd := b }⟩
  else if name = "dir".toList then some ⟨false, fun s value => some { s with dir := value }⟩
  else if name = "d".toList then some ⟨false, fun s value => some { s with domains := value }⟩
  else if name = "timeout".toList then
    some ⟨false, fun s value => (Time.parseDuration value).toOption.map fun d =>
      { s with timeout := d }⟩
  else if name = "no-serve-public-paths".toList then
    some ⟨false, fun s value => some { s with noServePublicPaths := value }⟩
  else none

/-- `flag.Parse`, of the arguments behind the name of the program. -/
def parse (args : List GoString) : Option MainFlags :=
  (Flag.parse formal defaults args).map Prod.fst

end MainFlags

/-! ## Installing -/

/-- `InstallIntoSystemArgs`. -/
structure InstallIntoSystemArgs where
  listenPort : ℤ
  tlsPort : ℤ
  logfilePath : GoString
  applinkDirPath : GoString
  launchAgentDirPath : GoString
  domains : GoString
  timeout : GoString
  noServePublicPaths : GoString

/-- What `InstallIntoSystem` asks of the system. -/
structure InstallOs where
  /-- `os.Getenv("SUDO_USER")`. -/
  sudoUser : GoString
  /-- The error of `SetupOurCert`, from which nothing else is used. -/
  setupOurCert : Option GoError
  /-- `osext.Executable`. -/
  executable : Except GoError GoString
  /-- `homedir.Dir`. -/
  homeDir : Except GoError GoString
  mkdirAll : GoString → Option GoError
  writeFile : GoString → Option GoError
  /-- `launchctl load`. -/
  launchctlLoad : GoString → Option GoError
  /-- `errors.Context`. -/
  errorsContext : GoError → GoString → GoError

/-- `homedir.Expand`, in this home directory. -/
def Homedir.expand (dir : Except GoError GoString) (path : GoString) :
    Except GoError GoString :=
  match path with
  | '~' :: rest =>
      if rest.head?.any fun c => c ≠ '/' && c ≠ '\\' then
        .error (.other "cannot expand user-specific home dir".toList)
      else dir.map fun d => Filepath.join [d, rest]
  | _ => .ok path

/-- A text by its lines. -/
def lines (ls : List String) : GoString := ls.flatMap String.toList

/-- A line is written character by character. -/
theorem lines_ofList (l : List Char) (ls : List String) :
    lines (String.ofList l :: ls) = l ++ lines ls := by
  rw [lines, List.flatMap_cons, String.toList_ofList]
  rfl

/-- `userTemplate`, with its values. -/
def userTemplate (binPath dir domains timeout noServePublicPaths : GoString)
    (listenPort tlsPort : ℤ) (stdoutPath stderrPath : GoString) : GoString :=
  lines ["<?xml version=\"1.0\" encoding=\"UTF-8\"?>\n",
    "<!DOCTYPE plist PUBLIC \"-//Apple//DTD PLIST 1.0//EN\" ",
    "\"http://www.apple.com/DTDs/PropertyList-1.0.dtd\">\n",
    "<plist version=\"1.0\">\n",
    "<dict>\n",
    "   <key>Label</key>\n",
    "   <string>io.puma.dev</string>\n",
    "   <key>ProgramArguments</key>\n",
    "   <array>\n",
    "     <string>"] ++ binPath ++
  lines ["</string>\n",
    "     <string>-launchd</string>\n",
    "     <string>-dir</string>\n",
    "     <string>"] ++ dir ++
  lines ["</string>\n",
    "     <string>-d</string>\n",
    "     <string>"] ++ domains ++
  lines ["</string>\n",
    "     <string>-timeout</string>\n",
    "     <string>"] ++ timeout ++
  lines ["</string>\n",
    "     <string>-no-serve-public-paths</string>\n",
    "     <string>"] ++ noServePublicPaths ++
  lines ["</string>\n",
    "   </array>\n",
    "   <key>KeepAlive</key>\n",
    "   <true/>\n",
    "   <key>RunAtLoad</key>\n",
    "   <true/>\n",
    "   <key>Sockets</key>\n",
    "   <dict>\n",
    "       <key>Socket</key>\n",
    "       <dict>\n",
    "           <key>SockNodeName</key>\n",
    "           <string>0.0.0.0</string>\n",
    "           <key>SockServiceName</key>\n",
    "           <string>"] ++ Strconv.itoa listenPort ++
  lines ["</string>\n",
    "       </dict>\n",
    "       <key>SocketTLS</key>\n",
    "       <dict>\n",
    "           <key>SockNodeName</key>\n",
    "           <string>0.0.0.0</string>\n",
    "           <key>SockServiceName</key>\n",
    "           <string>"] ++ Strconv.itoa tlsPort ++
  lines ["</string>\n",
    "       </dict>\n",
    "   </dict>\n",
    "   <key>StandardOutPath</key>\n",
    "   <string>"] ++ stdoutPath ++
  lines ["</string>\n",
    "   <key>StandardErrorPath</key>\n",
    "   <string>"] ++ stderrPath ++
  lines ["</string>\n",
    "</dict>\n",
    "</plist>\n"]

/-- `InstallIntoSystem`: its error and the file it has written, or the error of
`homedir.MustExpand`, with which it panics. -/
def installIntoSystem (os : InstallOs) (config : InstallIntoSystemArgs) :
    Except GoError (Option GoError × Option (GoString × GoString)) :=
  if os.sudoUser ≠ [] then .ok (some (.other "cannot run as superuser".toList), none)
  else match os.setupOurCert with
    | some err => .ok (some err, none)
    | none =>
        match os.executable with
        | .error err =>
            .ok (some (os.errorsContext err "calculating executable path".toList), none)
        | .ok binPath => do
            let logPath ← Homedir.expand os.homeDir config.logfilePath
            let plistDir ← Homedir.expand os.homeDir config.launchAgentDirPath
            let plist := Filepath.join [plistDir, "io.puma.dev.plist".toList]
            let dir := config.applinkDirPath
            match os.mkdirAll plistDir with
            | some err =>
                .ok (some (os.errorsContext err "creating LaunchAgent directory".toList), none)
            | none =>
                match os.writeFile plist with
                | some err =>
                    .ok (some (os.errorsContext err "writing LaunchAgent plist".toList), none)
                | none =>
                    let text := userTemplate binPath dir config.domains config.timeout
                      config.noServePublicPaths config.listenPort config.tlsPort logPath logPath
                    match os.launchctlLoad plist with
                    | some err =>
                        .ok (some (os.errorsContext err "loading plist into launchctl".toList),
                          some (plist, text))
                    | none => .ok (none, some (plist, text))

/-- What `main` installs with these settings; `timeout` is the text of the duration. -/
def installArgs (s : MainFlags) (timeout : GoString) (installPort installTLS : ℤ) :
    InstallIntoSystemArgs where
  listenPort := installPort
  tlsPort := installTLS
  logfilePath := "~/Library/Logs/puma-dev.log".toList
  applinkDirPath := s.dir
  launchAgentDirPath := "~/Library/LaunchAgents".toList
  domains := s.domains
  timeout := timeout
  noServePublicPaths := s.noServePublicPaths

/-! ## What it is for -/

open Xml Plist

/-- The values that `InstallIntoSystem` writes. -/
structure LaunchAgent where
  binPath : GoString
  dir : GoString
  domains : GoString
  timeout : GoString
  noServePublicPaths : GoString
  listenPort : ℤ
  tlsPort : ℤ
  logPath : GoString

namespace LaunchAgent

/-- The values of `InstallIntoSystem`. -/
def ofConfig (config : InstallIntoSystemArgs) (binPath logPath : GoString) : LaunchAgent where
  binPath := binPath
  dir := config.applinkDirPath
  domains := config.domains
  timeout := config.timeout
  noServePublicPaths := config.noServePublicPaths
  listenPort := config.listenPort
  tlsPort := config.tlsPort
  logPath := logPath

/-- The text. -/
def text (a : LaunchAgent) : GoString :=
  userTemplate a.binPath a.dir a.domains a.timeout a.noServePublicPaths a.listenPort a.tlsPort
    a.logPath a.logPath

/-- The arguments puma-dev is meant to be started with. -/
def programArguments (a : LaunchAgent) : List GoString :=
  [a.binPath, "-launchd".toList, "-dir".toList, a.dir, "-d".toList, a.domains,
    "-timeout".toList, a.timeout, "-no-serve-public-paths".toList, a.noServePublicPaths]

/-- The settings puma-dev is meant to have; `none` if the timeout is no duration. -/
def settings (a : LaunchAgent) : Option MainFlags :=
  (Time.parseDuration a.timeout).toOption.map fun d =>
    { launchd := true
      dir := a.dir
      domains := a.domains
      timeout := d
      noServePublicPaths := a.noServePublicPaths }

/-- The entries of a property list that starts puma-dev as it is meant to be started. -/
structure Starts (a : LaunchAgent) (entries : List (GoString × Plist)) : Prop where
  arguments : entries.lookup "ProgramArguments".toList =
    some (.array (a.programArguments.map .string))
  /-- What `main` makes of the arguments. -/
  settings : ∀ argv : List GoString, entries.lookup "ProgramArguments".toList =
    some (.array (argv.map .string)) → MainFlags.parse argv.tail = a.settings
  stdoutPath : entries.lookup "StandardOutPath".toList = some (.string a.logPath)
  stderrPath : entries.lookup "StandardErrorPath".toList = some (.string a.logPath)

/-- The settings survive the text. -/
def Survives (a : LaunchAgent) (t : GoString) : Prop :=
  WellFormed t ∧ ∃ entries, Says t (.dict entries) ∧ a.Starts entries

/-- What survives is all that the text says. -/
theorem Survives.starts {a : LaunchAgent} {t : GoString} (survives : a.Survives t)
    {entries : List (GoString × Plist)} (said : Says t (.dict entries)) : a.Starts entries := by
  obtain ⟨-, entries', said', starts⟩ := survives
  obtain rfl := Plist.dict.inj (said.unique said')
  exact starts

/-- **`main` takes its arguments as they are**, whatever is in them. -/
theorem parse_programArguments (a : LaunchAgent) :
    MainFlags.parse a.programArguments.tail = a.settings := by
  have launchd : Flag.readArg "-launchd".toList = .flag "launchd".toList none := rfl
  have dir : Flag.readArg "-dir".toList = .flag "dir".toList none := rfl
  have domains : Flag.readArg "-d".toList = .flag "d".toList none := rfl
  have timeout : Flag.readArg "-timeout".toList = .flag "timeout".toList none := rfl
  have paths : Flag.readArg "-no-serve-public-paths".toList =
    .flag "no-serve-public-paths".toList none := rfl
  show (Flag.parse MainFlags.formal MainFlags.defaults
    ["-launchd".toList, "-dir".toList, a.dir, "-d".toList, a.domains, "-timeout".toList,
      a.timeout, "-no-serve-public-paths".toList, a.noServePublicPaths]).map Prod.fst = a.settings
  rw [Flag.parse_bool launchd rfl rfl]
  show (Flag.parse MainFlags.formal ⟨true, _, _, _, []⟩ _).map Prod.fst = _
  rw [Flag.parse_value dir rfl rfl]
  show (Flag.parse MainFlags.formal ⟨true, a.dir, _, _, []⟩ _).map Prod.fst = _
  rw [Flag.parse_value domains rfl rfl]
  show (Flag.parse MainFlags.formal ⟨true, a.dir, a.domains, _, []⟩ _).map Prod.fst = _
  rw [Flag.parse_value timeout rfl rfl]
  show (((Time.parseDuration a.timeout).toOption.map fun d =>
    (⟨true, a.dir, a.domains, d, []⟩ : MainFlags)).bind _).map Prod.fst = _
  unfold settings
  cases (Time.parseDuration a.timeout).toOption with
  | none => rfl
  | some d =>
      rw [Option.map_some, Option.bind_some, Flag.parse_value paths rfl rfl]
      rfl

/-- The settings are those of the user, if the text of the timeout is read as the timeout. -/
theorem settings_installArgs {s : MainFlags} {timeout : GoString}
    (duration : Time.parseDuration timeout = .ok s.timeout) (installPort installTLS : ℤ)
    (binPath logPath : GoString) :
    (ofConfig (installArgs s timeout installPort installTLS) binPath logPath).settings =
      some { s with launchd := true } := by
  show (Time.parseDuration timeout).toOption.map _ = _
  rw [duration]
  rfl

/-- What `InstallIntoSystem` has written is the text of these values. -/
theorem text_of_installed {os : InstallOs} {config : InstallIntoSystemArgs}
    {binPath logPath plist text : GoString} {err : Option GoError}
    (executable : os.executable = .ok binPath)
    (expanded : Homedir.expand os.homeDir config.logfilePath = .ok logPath)
    (wrote : installIntoSystem os config = .ok (err, some (plist, text))) :
    text = (ofConfig config binPath logPath).text := by
  unfold installIntoSystem at wrote
  split_ifs at wrote
  · cases wrote
  cases cert : os.setupOurCert with
  | some err =>
      rw [cert] at wrote
      cases wrote
  | none =>
      rw [cert, executable, expanded] at wrote
      cases agents : Homedir.expand os.homeDir config.launchAgentDirPath with
      | error err =>
          rw [agents] at wrote
          cases wrote
      | ok plistDir =>
          rw [agents] at wrote
          simp only [bind, Except.bind] at wrote
          -- an error before the file is written leaves none
          split at wrote
          · cases wrote
          · split at wrote
            · cases wrote
            · split at wrote <;> cases wrote <;> rfl

end LaunchAgent

end PumaDev
