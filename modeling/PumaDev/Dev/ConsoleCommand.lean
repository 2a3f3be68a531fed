import PumaDev.Dev.RpcConsole
import PumaDev.Lib.ShellCommand

/-!
# What a console runs

`fullCmdArgs` puts `-c` in front of the arguments it is asked to run, with a shell and
without one, and the arguments behind it as they are.  A shell takes only the first of them
as its command; and without a shell `-c` itself is the program.  `runsRequested_iff` says
which commands are run as they are given all the same.
-/

namespace PumaDev

namespace RpcConsoleProgOpts

variable (os : ConsoleOs) (opts : RpcConsoleProgOpts)

/-- The program that is looked for: a shell, or what is given instead of one. -/
def program : GoString := (computeShellArgs os opts).head?.getD "-c".toList

/-- The program is there. -/
def Found : Prop := Filepath.isAbs (opts.program os) ∨ os.which (opts.program os) ≠ []

/-- Executing these arguments runs the program that is the first of `opts.Argv`, or what it is
found as, with the others as its arguments. -/
def RunsDirectly (args : List GoString) : Prop :=
  ∃ command rest, opts.argv = command :: rest ∧
    (args = command :: rest ∨ args = os.which command :: rest)

/-- Executing these arguments calls a shell, whose command string runs `opts.Argv`. -/
def RunsByShell (args : List GoString) : Prop :=
  ∃ shell rest t, args = shell :: rest ∧ Shell.commandString rest = some t ∧
    Shell.RunsCommand t opts.argv

/-- What `fullCmdArgs` returns runs what it is asked to run. -/
def RunsRequested (name : GoString) (key : Option GoString) : Prop :=
  ∀ label cmd, fullCmdArgs os name key opts = (label, .ok cmd) →
    if opts.useShell = none then opts.RunsDirectly os cmd.fullArgs
    else opts.RunsByShell cmd.fullArgs

variable {opts}

/-- **What `fullCmdArgs` returns**: the program as it is found, and the rest as it is. -/
theorem fullCmdArgs_ok_iff (asked : opts.argv ≠ []) (name : GoString) (key : Option GoString)
    (args : List GoString) :
    (∃ label cmd, fullCmdArgs os name key opts = (label, .ok cmd) ∧ cmd.fullArgs = args) ↔
      opts.Found os ∧
        args = (if Filepath.isAbs (opts.program os) then opts.program os
          else os.which (opts.program os)) ::
            ((computeShellArgs os opts ++ "-c".toList :: opts.argv).tail) := by
  have first : ∃ rest, computeShellArgs os opts ++ "-c".toList :: opts.argv =
      opts.program os :: rest := by
    unfold program
    cases computeShellArgs os opts with
    | nil => exact ⟨_, rfl⟩
    | cons shell flags => exact ⟨_, rfl⟩
  obtain ⟨rest, split⟩ := first
  unfold fullCmdArgs Found
  rw [if_neg asked, split]
  dsimp only [List.tail_cons]
  by_cases abs : Filepath.isAbs (opts.program os) = true
  · rw [if_pos abs, if_pos abs]
    constructor
    · rintro ⟨label, cmd, same, rfl⟩
      cases same
      exact ⟨Or.inl abs, rfl⟩
    · rintro ⟨-, rfl⟩
      exact ⟨_, _, rfl, rfl⟩
  · rw [if_neg abs, if_neg abs]
    by_cases missing : os.which (opts.program os) = []
    · rw [if_pos missing]
      constructor
      · rintro ⟨label, cmd, same, -⟩
        cases same
      · rintro ⟨found | found, -⟩
        · exact absurd found abs
        · exact absurd missing found
    · rw [if_neg missing]
      constructor
      · rintro ⟨label, cmd, same, rfl⟩
        cases same
        exact ⟨Or.inr missing, rfl⟩
      · rintro ⟨-, rfl⟩
        exact ⟨_, _, rfl, rfl⟩

/-- So what it returns runs what it is asked to run if the program is missing, or these
arguments do. -/
theorem runsRequested_iff_of_found (asked : opts.argv ≠ []) (name : GoString)
    (key : Option GoString) :
    opts.RunsRequested os name key ↔
      (opts.Found os →
        if opts.useShell = none then
          opts.RunsDirectly os ((if Filepath.isAbs (opts.program os) then opts.program os
            else os.which (opts.program os)) ::
              ((computeShellArgs os opts ++ "-c".toList :: opts.argv).tail))
        else opts.RunsByShell ((if Filepath.isAbs (opts.program os) then opts.program os
            else os.which (opts.program os)) ::
              ((computeShellArgs os opts ++ "-c".toList :: opts.argv).tail))) := by
  constructor
  · intro runs found
    obtain ⟨label, cmd, ok, full⟩ :=
      (fullCmdArgs_ok_iff os asked name key _).mpr ⟨found, rfl⟩
    rw [← full]
    exact runs label cmd ok
  · intro runs label cmd ok
    obtain ⟨found, full⟩ := (fullCmdArgs_ok_iff os asked name key _).mp ⟨label, cmd, ok, rfl⟩
    rw [full]
    exact runs found

/-- The flags that an interactive shell gets. -/
theorem isFlag_interactive : ∀ a ∈ ["-l".toList, "-i".toList], Shell.IsFlag a := by
  intro a mem
  have which : a = ['-', 'l'] ∨ a = ['-', 'i'] := by simpa using mem
  rcases which with rfl | rfl
  · exact ⟨⟨'-', ['l'], rfl, Or.inl rfl, nofun⟩, by simp⟩
  · exact ⟨⟨'-', ['i'], rfl, Or.inl rfl, nofun⟩, by simp⟩

/-- A shell is called with flags. -/
theorem computeShellArgs_of_useShell (useShell : opts.useShell ≠ none)
    (plain : ∀ a ∈ opts.shellArgs, Shell.IsFlag a) :
    ∃ shell flags, computeShellArgs os opts = shell :: flags ∧ ∀ a ∈ flags, Shell.IsFlag a := by
  unfold computeShellArgs
  rw [if_neg useShell]
  refine ⟨_, _, rfl, ?_⟩
  refine List.forall_mem_append.mpr ⟨plain, ?_⟩
  split
  · exact isFlag_interactive
  · simp

/-- Without a shell, nothing but `-c` is run. -/
theorem not_runsDirectly (program : GoString) :
    ¬ opts.RunsDirectly os (program :: opts.argv) := by
  rintro ⟨command, rest, argv, direct | found⟩
  · have longer := congrArg List.length direct
    simp [argv] at longer
  · have longer := congrArg List.length found
    simp [argv] at longer

/-- **When a console runs what it is asked to run.**  For every list of arguments that is not
empty, every list of flags for the shell and every setting of the other options: what
`fullCmdArgs` returns without an error runs the first argument as the command and the others
as its arguments, if and only if it returns an error, as the shell, or without a shell a
program `-c`, is not found, or there is a shell and one argument, which the shell reads as a
command word. -/
theorem runsRequested_iff (os : ConsoleOs) (opts : RpcConsoleProgOpts) (name : GoString)
    (key : Option GoString) (asked : opts.argv ≠ [])
    (plain : ∀ a ∈ opts.shellArgs, Shell.IsFlag a) :
    opts.RunsRequested os name key ↔
      ¬ opts.Found os ∨ opts.useShell ≠ none ∧
        ∃ t, opts.argv = [t] ∧ Shell.isOption t = false ∧ Shell.IsCommandWord t := by
  rw [runsRequested_iff_of_found os asked]
  by_cases useShell : opts.useShell = none
  · have none_ : computeShellArgs os opts = [] := by rw [computeShellArgs, if_pos useShell]
    rw [if_pos useShell, none_, List.nil_append, List.tail_cons]
    constructor
    · exact fun runs => Or.inl fun found => not_runsDirectly os _ (runs found)
    · rintro (missing | ⟨shell, -⟩) found
      · exact absurd found missing
      · exact absurd useShell shell
  · obtain ⟨shell, flags, args, each⟩ := computeShellArgs_of_useShell os useShell plain
    rw [if_neg useShell, args, List.cons_append, List.tail_cons]
    have runs : ∀ program, opts.RunsByShell (program :: (flags ++ "-c".toList :: opts.argv)) ↔
        ∃ t, opts.argv = [t] ∧ Shell.isOption t = false ∧ Shell.IsCommandWord t := by
      intro program
      rw [← Shell.commandString_runs_iff each]
      constructor
      · rintro ⟨_, _, t, same, command, runs⟩
        cases same
        exact ⟨t, command, runs⟩
      · rintro ⟨t, command, runs⟩
        exact ⟨_, _, t, rfl, command, runs⟩
    rw [runs]
    constructor
    · intro works
      by_cases found : opts.Found os
      · exact Or.inr ⟨useShell, works found⟩
      · exact Or.inl found
    · rintro (missing | ⟨-, word⟩) found
      · exact absurd found missing
      · exact word

/-- `irb`, by a shell. -/
theorem runsRequested_irb :
    ({ newRpcConsoleProgOpts with useShell := some true, argv := ["irb".toList] } :
      RpcConsoleProgOpts).RunsRequested Console.shellOs "blog".toList none := by
  refine (runsRequested_iff _ _ _ _ (by decide) (by simp [newRpcConsoleProgOpts])).mpr
    (Or.inr ⟨by decide, ?_⟩)
  exact ⟨_, rfl, rfl, by decide, by decide, by decide, by decide⟩

/-- What `rpcStartAppConsole` asks for, with a shell as `Init` gives it one: the command that is
run is `bundle`, without arguments. -/
theorem not_runsRequested_rails :
    ¬ ({ railsConsole with useShell := some true } : RpcConsoleProgOpts).RunsRequested
      Console.shellOs "blog".toList railsConsole.key := by
  intro runs
  obtain ⟨shell, rest, t, full, first, words⟩ := runs _ _ rfl
  have bundle : t = "bundle".toList := by
    cases full
    exact Option.some.inj (first.symm.trans rfl)
  subst bundle
  have alone := ((Shell.runsCommand_iff List.mem_cons_self).mp words).1
  exact absurd (congrArg List.length alone) (by decide)

end RpcConsoleProgOpts

end PumaDev
