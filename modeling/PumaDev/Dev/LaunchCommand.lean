import PumaDev.Dev.App
import PumaDev.Lib.Shell

/-!
# What the launch command says

`LaunchApp` hands the shell a command that runs `bash -c` on a script in single quotes,
and both are put together from a template: the directory, the name and the socket are
pasted into the script without quotes.  This module reads the command as a POSIX shell
does, first the outer command and then the script, and asks whether the directory, the
tag and the socket come out as they went in.  They do exactly when neither the directory
nor the name has a character that means something to the shell.
-/

namespace PumaDev

open Shell

/-- The string that `LaunchApp` hands to the shell after `-c`. -/
theorem launchApp_command {os : Os} {name dir : GoString} {app : App}
    (launched : launchApp os name dir = .ok app) :
    app.command.map Command.args = some ["-l".toList, "-i".toList, "-c".toList,
      executionShell dir name (socketPath os.getpid dir)] := by
  unfold launchApp at launched
  split at launched
  · cases launched
  · dsimp only at launched
    split at launched
    · cases launched
    · split at launched
      · cases launched
      · cases launched
        rfl

/-! ## The script -/

/-- From the directory to the first name. -/
def scriptMiddle : GoString :=
  ("\n\nif test -e ~/.powconfig && [ \"$PUMADEV_SOURCE_POWCONFIG\" != \"0\" ]; then\n" ++
    "\tsource ~/.powconfig\nfi\n\n" ++
    "if test -e .env && [ \"$PUMADEV_SOURCE_ENV\" != \"0\" ]; then\n\tsource .env\nfi\n\n" ++
    "if test -e .powrc && [ \"$PUMADEV_SOURCE_POWRC\" != \"0\" ]; then\n" ++
    "\tsource .powrc\nfi\n\n" ++
    "if test -e .powenv && [ \"$PUMADEV_SOURCE_POWENV\" != \"0\" ]; then\n" ++
    "\tsource .powenv\nfi\n\n" ++
    "if test -e .pumaenv && [ \"$PUMADEV_SOURCE_PUMAENV\" != \"0\" ]; then\n" ++
    "\tsource .pumaenv\nfi\n\n" ++
    "if test -e Gemfile && bundle exec puma -V &>/dev/null; then\n" ++
    "\texec bundle exec puma -C $CONFIG --tag puma-dev:").toList

/-- `if test -e file && [ "$name" != "0" ]; then source file; fi`, over three lines. -/
def sourceIf (file name : GoString) : GoString :=
  "if test -e ".toList ++ (file ++ (" && [ \"$".toList ++ (name ++
    ("\" != \"0\" ]; then\n\tsource ".toList ++ (file ++ "\nfi\n\n".toList)))))

/-- The test for a Gemfile, and the command that is run with it. -/
def bundleExec : GoString :=
  "if test -e Gemfile && bundle exec puma -V &>/dev/null; then\n".toList ++
    "\texec bundle exec puma -C $CONFIG --tag puma-dev:".toList

theorem scriptMiddle_eq :
    scriptMiddle = "\n\n".toList ++
      (sourceIf "~/.powconfig".toList "PUMADEV_SOURCE_POWCONFIG".toList ++
      (sourceIf ".env".toList "PUMADEV_SOURCE_ENV".toList ++
      (sourceIf ".powrc".toList "PUMADEV_SOURCE_POWRC".toList ++
      (sourceIf ".powenv".toList "PUMADEV_SOURCE_POWENV".toList ++
      (sourceIf ".pumaenv".toList "PUMADEV_SOURCE_PUMAENV".toList ++ bundleExec))))) := by
  have powconfig :
      "\n\n".toList ++ sourceIf "~/.powconfig".toList "PUMADEV_SOURCE_POWCONFIG".toList =
      "\n\nif test -e ~/.powconfig && [ \"$PUMADEV_SOURCE_POWCONFIG\" != \"0\" ]; then\n".toList ++
        "\tsource ~/.powconfig\nfi\n\n".toList := by
    delta sourceIf
    repeat rewrite [String.toList_ofList]
    decide +kernel
  have env : sourceIf ".env".toList "PUMADEV_SOURCE_ENV".toList = String.toList
      "if test -e .env && [ \"$PUMADEV_SOURCE_ENV\" != \"0\" ]; then\n\tsource .env\nfi\n\n" := by
    delta sourceIf
    repeat rewrite [String.toList_ofList]
    decide +kernel
  have powrc : sourceIf ".powrc".toList "PUMADEV_SOURCE_POWRC".toList =
      "if test -e .powrc && [ \"$PUMADEV_SOURCE_POWRC\" != \"0\" ]; then\n".toList ++
        "\tsource .powrc\nfi\n\n".toList := by
    delta sourceIf
    repeat rewrite [String.toList_ofList]
    decide +kernel
  have powenv : sourceIf ".powenv".toList "PUMADEV_SOURCE_POWENV".toList =
      "if test -e .powenv && [ \"$PUMADEV_SOURCE_POWENV\" != \"0\" ]; then\n".toList ++
        "\tsource .powenv\nfi\n\n".toList := by
    delta sourceIf
    repeat rewrite [String.toList_ofList]
    decide +kernel
  have pumaenv : sourceIf ".pumaenv".toList "PUMADEV_SOURCE_PUMAENV".toList =
      "if test -e .pumaenv && [ \"$PUMADEV_SOURCE_PUMAENV\" != \"0\" ]; then\n".toList ++
        "\tsource .pumaenv\nfi\n\n".toList := by
    delta sourceIf
    repeat rewrite [String.toList_ofList]
    decide +kernel
  rw [← List.append_assoc, powconfig, env, powrc, powenv, pumaenv]
  delta scriptMiddle bundleExec
  simp only [String.toList_append, List.append_assoc, -String.reduceAppend, -String.reduceToList]

/-- From a name to its socket. -/
def scriptOptions : GoString := " -w $WORKERS -t 0:$THREADS -b unix:".toList

/-- From the first socket to the second name. -/
def scriptElse : GoString := "\nfi\n\nexec puma -C $CONFIG --tag puma-dev:".toList

/-- What `executionShell` has between the single quotes. -/
def script (dir name socket : GoString) : GoString :=
  "\ncd ".toList ++ (dir ++ (scriptMiddle ++ (name ++ (scriptOptions ++ (socket ++
    (scriptElse ++ (name ++ (scriptOptions ++ socket))))))))

theorem executionShell_eq (dir name socket : GoString) :
    executionShell dir name socket =
      "exec bash -c '".toList ++ (script dir name socket ++ ['\'', '\n']) := by
  have front : "exec bash -c '\ncd ".toList = "exec bash -c '".toList ++ "\ncd ".toList := by
    decide
  have back : "'\n".toList = ['\'', '\n'] := by decide
  calc executionShell dir name socket
      = "exec bash -c '\ncd ".toList ++ dir ++ scriptMiddle ++ name ++ scriptOptions ++ socket ++
          scriptElse ++ name ++ scriptOptions ++ socket ++ "'\n".toList := rfl
    _ = "exec bash -c '".toList ++ (script dir name socket ++ ['\'', '\n']) := by
      rw [front, back]
      simp only [script, List.append_assoc, -String.reduceToList]

/-! ## What it is meant to say -/

/-- A word of the template. -/
def say (s : String) : Token := .word (bare s.toList)

/-- What `sourceIf` says. -/
def sourceIfTokens (file : Word) (name : GoString) : List Token :=
  [say "if", say "test", say "-e", .word file, .operator '&', .operator '&', say "[",
    .word (.active '$' :: lits name), say "!=", .word (lits "0".toList), say "]", .operator ';',
    say "then", .newline, say "source", .word file, .newline, say "fi", .newline, .newline]

/-- What `bundleExec` says, up to the tag. -/
def bundleExecTokens : List Token :=
  [say "if", say "test", say "-e", say "Gemfile", .operator '&', .operator '&', say "bundle",
    say "exec", say "puma", say "-V", .operator '&', .operator '>', say "/dev/null",
    .operator ';', say "then", .newline, say "exec", say "bundle", say "exec", say "puma",
    say "-C", say "$CONFIG", say "--tag"]

/-- What is said between the directory and the first tag. -/
def middleTokens : List Token :=
  .newline :: .newline ::
    (sourceIfTokens (.active '~' :: bare "/.powconfig".toList)
        "PUMADEV_SOURCE_POWCONFIG".toList ++
      (sourceIfTokens (bare ".env".toList) "PUMADEV_SOURCE_ENV".toList ++
      (sourceIfTokens (bare ".powrc".toList) "PUMADEV_SOURCE_POWRC".toList ++
      (sourceIfTokens (bare ".powenv".toList) "PUMADEV_SOURCE_POWENV".toList ++
      (sourceIfTokens (bare ".pumaenv".toList) "PUMADEV_SOURCE_PUMAENV".toList ++
        bundleExecTokens)))))

/-- What is said between a tag and its socket. -/
def optionTokens : List Token :=
  [say "-w", say "$WORKERS", say "-t", say "0:$THREADS", say "-b"]

/-- What is said between the first socket and the second tag. -/
def elseTokens : List Token :=
  [.newline, say "fi", .newline, .newline, say "exec", say "puma", say "-C", say "$CONFIG",
    say "--tag"]

/-- The script, with one word for the directory and one for each tag and socket. -/
def scriptTokens (dir tag bind tag' bind' : Word) : List Token :=
  [.newline, say "cd", .word dir] ++ (middleTokens ++ (.word tag :: (optionTokens ++
    (.word bind :: (elseTokens ++ (.word tag' :: (optionTokens ++ [.word bind'])))))))

/-- **The launch command means what it says.**  The shell reads it as `exec bash -c` with
one more argument, the script; and bash reads the script as the template is meant, where
`cd` has the directory as its one argument, and the options `--tag` and `-b` have the
name and the socket. -/
structure MeansWhatItSays (dir name socket : GoString) : Prop where
  outer : ∃ w, tokens (executionShell dir name socket) =
      some [say "exec", say "bash", say "-c", .word w, .newline] ∧
    Denotes w (script dir name socket)
  inner : ∃ cd tag bind tag' bind',
    tokens (script dir name socket) = some (scriptTokens cd tag bind tag' bind') ∧
      Denotes cd dir ∧
      (Denotes tag ("puma-dev:".toList ++ name) ∧ Denotes bind ("unix:".toList ++ socket)) ∧
      Denotes tag' ("puma-dev:".toList ++ name) ∧ Denotes bind' ("unix:".toList ++ socket)

/-! ## Reading the template -/

/-- A piece of the template that begins with a delimiter ends the word in front of it. -/
theorem run_piece (w : Word) {piece : GoString} {c : Char} {s : State} {ts : List Token}
    (first : piece = c :: piece.tail) (delimiter : isDelimiter c = true)
    (rest : run ⟨.between, []⟩ piece.tail = (s, ts)) :
    run ⟨.word, w⟩ piece = (s, .word w :: (delimiterTokens c ++ ts)) := by
  rw [first]
  exact run_delimiter w delimiter rest

/-- **Each `sourceIf` is read as it is meant**, if its file is one word and the name of the
variable means nothing in double quotes. -/
theorem run_sourceIf {file name : GoString} {w : Word}
    (reads : run ⟨.between, []⟩ file = (⟨.word, w⟩, []))
    (inert : ∀ c ∈ name, c ∉ "\"\\$`".toList) :
    run ⟨.between, []⟩ (sourceIf file name) = (⟨.between, []⟩, sourceIfTokens w name) := by
  have opens : run ⟨.between, []⟩ "if test -e ".toList =
      (⟨.between, []⟩, [say "if", say "test", say "-e"]) := by decide +kernel
  have tests : run ⟨.word, w⟩ " && [ \"$".toList =
      (⟨.double, [.active '$']⟩, [.word w, .operator '&', .operator '&', say "["]) :=
    run_piece w (c := ' ') (by decide) rfl (by decide +kernel)
  have quoted := run_double [.active '$'] inert
  have compares : run ⟨.double, .active '$' :: lits name⟩
      "\" != \"0\" ]; then\n\tsource ".toList =
      (⟨.between, []⟩, [.word (.active '$' :: lits name), say "!=", .word (lits "0".toList),
        say "]", .operator ';', say "then", .newline, say "source"]) := by
    have closes : run ⟨.double, .active '$' :: lits name⟩ ['"'] =
        (⟨.word, .active '$' :: lits name⟩, []) := rfl
    have split : "\" != \"0\" ]; then\n\tsource ".toList =
        ['"'] ++ " != \"0\" ]; then\n\tsource ".toList := by decide +kernel
    have rest : run ⟨.word, .active '$' :: lits name⟩ " != \"0\" ]; then\n\tsource ".toList =
        (⟨.between, []⟩, [.word (.active '$' :: lits name), say "!=", .word (lits "0".toList),
          say "]", .operator ';', say "then", .newline, say "source"]) :=
      run_piece _ (c := ' ') (by decide) rfl (by decide +kernel)
    rw [split]
    exact run_seq closes rest
  have ends : run ⟨.word, w⟩ "\nfi\n\n".toList =
      (⟨.between, []⟩, [.word w, .newline, say "fi", .newline, .newline]) :=
    run_piece w (c := '\n') (by decide) rfl (by decide +kernel)
  have whole := run_seq opens (run_seq reads (run_seq tests (run_seq quoted (run_seq compares
    (run_seq reads ends)))))
  exact whole

theorem run_bundleExec :
    run ⟨.between, []⟩ bundleExec = (⟨.word, bare "puma-dev:".toList⟩, bundleExecTokens) := by
  delta bundleExec
  repeat rewrite [String.toList_ofList]
  decide +kernel

theorem run_middle (w : Word) :
    run ⟨.word, w⟩ scriptMiddle =
      (⟨.word, bare "puma-dev:".toList⟩, .word w :: middleTokens) := by
  have lines : run ⟨.word, w⟩ "\n\n".toList =
      (⟨.between, []⟩, [.word w, .newline, .newline]) := rfl
  -- the tilde is the one that is replaced, as it should be
  have home : run ⟨.between, []⟩ "~/.powconfig".toList =
      (⟨.word, .active '~' :: bare "/.powconfig".toList⟩, []) := by decide
  have powconfig := run_sourceIf home
    (by decide : ∀ c ∈ "PUMADEV_SOURCE_POWCONFIG".toList, c ∉ "\"\\$`".toList)
  have env := run_sourceIf (run_begin (t := ".env".toList) (by decide) (by decide))
    (by decide : ∀ c ∈ "PUMADEV_SOURCE_ENV".toList, c ∉ "\"\\$`".toList)
  have powrc := run_sourceIf (run_begin (t := ".powrc".toList) (by decide) (by decide))
    (by decide : ∀ c ∈ "PUMADEV_SOURCE_POWRC".toList, c ∉ "\"\\$`".toList)
  have powenv := run_sourceIf (run_begin (t := ".powenv".toList) (by decide) (by decide))
    (by decide : ∀ c ∈ "PUMADEV_SOURCE_POWENV".toList, c ∉ "\"\\$`".toList)
  have pumaenv := run_sourceIf (run_begin (t := ".pumaenv".toList) (by decide) (by decide))
    (by decide : ∀ c ∈ "PUMADEV_SOURCE_PUMAENV".toList, c ∉ "\"\\$`".toList)
  rw [scriptMiddle_eq]
  have whole := run_seq lines (run_seq powconfig (run_seq env (run_seq powrc (run_seq powenv
    (run_seq pumaenv run_bundleExec)))))
  exact whole

theorem run_options (w : Word) :
    run ⟨.word, w⟩ scriptOptions = (⟨.word, bare "unix:".toList⟩, .word w :: optionTokens) := by
  have rest : run ⟨.between, []⟩ scriptOptions.tail =
      (⟨.word, bare "unix:".toList⟩, optionTokens) := by
    delta scriptOptions
    repeat rewrite [String.toList_ofList]
    decide +kernel
  have first : scriptOptions = ' ' :: scriptOptions.tail := by
    delta scriptOptions
    repeat rewrite [String.toList_ofList]
    rfl
  exact run_piece w first rfl rest

theorem run_else (w : Word) :
    run ⟨.word, w⟩ scriptElse = (⟨.word, bare "puma-dev:".toList⟩, .word w :: elseTokens) := by
  have rest : run ⟨.between, []⟩ scriptElse.tail =
      (⟨.word, bare "puma-dev:".toList⟩, elseTokens.tail) := by
    delta scriptElse
    repeat rewrite [String.toList_ofList]
    decide +kernel
  have first : scriptElse = '\n' :: scriptElse.tail := by
    delta scriptElse
    repeat rewrite [String.toList_ofList]
    rfl
  have same : delimiterTokens '\n' ++ elseTokens.tail = elseTokens := by decide +kernel
  rw [run_piece w first rfl rest, same]

/-! ## The socket of a plain directory -/

theorem isPlain_join {comps : List GoString} :
    IsPlain (Strings.join comps Filepath.sep) ↔ ∀ c ∈ comps, IsPlain c := by
  induction comps with
  | nil => exact iff_of_true (by decide) (by simp)
  | cons c comps ih =>
      cases comps with
      | nil => simp
      | cons d comps =>
          rw [Strings.join_cons_cons, Filepath.sep, isPlain_append_slash, List.forall_mem_cons]
          exact and_congr_right' ih

/-- What cleaning keeps of a path is plain if the path is. -/
theorem isPlain_clean {p : GoString} (plain : IsPlain p) : IsPlain (Filepath.clean p) := by
  have comps : ∀ c ∈ Strings.split p Filepath.sep, IsPlain c := by
    rw [← isPlain_join, Strings.join, Strings.split, List.intercalate_splitOn]
    exact plain
  have down : ∀ c ∈ (Filepath.descent p).down, IsPlain c := by
    intro c mem
    obtain ⟨d, inside, into⟩ := List.mem_map.mp (Descent.mem_of_mem_down mem)
    obtain ⟨-, -, -, rfl⟩ := Filepath.moveOf_eq_into_iff.mp into
    exact comps d inside
  unfold Filepath.clean
  split
  · exact (isPlain_append_slash (a := [])).mpr ⟨by decide, isPlain_join.mpr down⟩
  · split
    · decide
    · apply isPlain_join.mpr
      intro c mem
      rcases List.mem_append.mp mem with up | mem
      · rw [List.eq_of_mem_replicate up]
        decide
      · exact down c mem

theorem isPlain_filepath_join {elems : List GoString} (plain : ∀ c ∈ elems, IsPlain c) :
    IsPlain (Filepath.join elems) := by
  induction elems with
  | nil => decide
  | cons elem elems ih =>
      cases elem with
      | nil => exact ih (List.forall_mem_cons.mp plain).2
      | cons c elem => exact isPlain_clean (isPlain_join.mpr plain)

theorem isOrdinary_of_isDigit {c : Char} (digit : Json.isDigit c = true) :
    isOrdinary c = true ∧ c ≠ '[' := by
  have apart : ∀ d ∈ " \t\n&|;<>()'\"\\$`*?[".toList, c ≠ d := by
    rintro d mem rfl
    have none_ : ∀ d ∈ " \t\n&|;<>()'\"\\$`*?[".toList, Json.isDigit d = false := by decide
    rw [none_ c mem] at digit
    cases digit
  simpa [isOrdinary, isDelimiter, isBlank, isOperator, isQuote, isExpansion, and_assoc]
    using apart

/-- **The socket of a plain directory is plain.** -/
theorem isPlain_socketPath (pid : ℕ) {dir : GoString} (plain : IsPlain dir) :
    IsPlain (socketPath pid dir) := by
  have file : IsPlain ("puma-dev-".toList ++ Strconv.itoa pid ++ ".sock".toList) := by
    have digits : ∀ c ∈ Strconv.itoa pid, isOrdinary c = true ∧ c ≠ '[' := fun c mem =>
      isOrdinary_of_isDigit (Strconv.isDigit_of_mem_itoa mem)
    rw [List.append_assoc, isPlain_append (by decide) (by decide),
      isPlain_append (fun c mem => (digits c mem).1) fun mem => (digits '[' mem).2 rfl]
    decide
  have tmp : IsPlain (tmpDir dir) :=
    isPlain_filepath_join (List.forall_mem_cons.mpr ⟨plain, by decide⟩)
  exact isPlain_filepath_join
    (List.forall_mem_cons.mpr ⟨tmp, List.forall_mem_singleton.mpr file⟩)

/-! ## When the command means what it says -/

/-- Neither the directory nor the name has anything in it that the shell reads. -/
structure IsPlainCommand (dir name : GoString) : Prop where
  begins : beginsWord dir = true
  dir : IsPlain dir
  name : IsPlain name

theorem noQuote_sourceIf {file name : GoString} (inFile : '\'' ∉ file) (inName : '\'' ∉ name) :
    '\'' ∉ sourceIf file name := by
  have assigns := List.not_mem_append (by decide : '\'' ∉ "\" != \"0\" ]; then\n\tsource ".toList)
    (List.not_mem_append inFile (by decide : '\'' ∉ "\nfi\n\n".toList))
  have tests := List.not_mem_append (by decide : '\'' ∉ " && [ \"$".toList)
    (List.not_mem_append inName assigns)
  exact List.not_mem_append (by decide) (List.not_mem_append inFile tests)

theorem noQuote_middle : '\'' ∉ scriptMiddle := by
  rw [scriptMiddle_eq]
  refine List.not_mem_append (by decide) (List.not_mem_append ?_ (List.not_mem_append ?_
    (List.not_mem_append ?_ (List.not_mem_append ?_ (List.not_mem_append ?_ ?_)))))
  iterate 5 exact noQuote_sourceIf (by decide) (by decide)
  delta bundleExec
  repeat rewrite [String.toList_ofList]
  decide +kernel

theorem noQuote_of_isPlain {t : GoString} (plain : IsPlain t) : '\'' ∉ t := fun mem => by
  have ordinary := plain.1 '\'' mem
  cases ordinary

/-- **Plain values come out as they went in.** -/
theorem meansWhatItSays_of_plain (pid : ℕ) {dir name : GoString}
    (plain : IsPlainCommand dir name) : MeansWhatItSays dir name (socketPath pid dir) := by
  have socket := isPlain_socketPath pid plain.dir
  have tag := (isPlain_append (a := "puma-dev:".toList) (by decide) (by decide)).mpr plain.name
  have bind := (isPlain_append (a := "unix:".toList) (by decide) (by decide)).mpr socket
  have readName := run_bare (bare "puma-dev:".toList) plain.name.1
  have readSocket := run_bare (bare "unix:".toList) socket.1
  rw [← bare_append] at readName readSocket
  have readCd : run ⟨.between, []⟩ "\ncd ".toList = (⟨.between, []⟩, [.newline, say "cd"]) := by
    decide
  constructor
  · refine ⟨lits (script dir name (socketPath pid dir)), ?_, denotes_lits _⟩
    have noQuote : '\'' ∉ script dir name (socketPath pid dir) := by
      have options : '\'' ∉ scriptOptions := by decide
      have otherwise : '\'' ∉ scriptElse := by decide
      have dirQuote := noQuote_of_isPlain plain.dir
      have nameQuote := noQuote_of_isPlain plain.name
      have socketQuote := noQuote_of_isPlain socket
      simp only [script, List.mem_append, not_or]
      exact ⟨by decide, dirQuote, noQuote_middle, nameQuote, options, socketQuote, otherwise,
        nameQuote, options, socketQuote⟩
    have opens : run ⟨.between, []⟩ "exec bash -c '".toList =
        (⟨.single, []⟩, [say "exec", say "bash", say "-c"]) := by decide
    have closes : ∀ w, run ⟨.single, w⟩ ['\'', '\n'] =
        (⟨.between, []⟩, [.word w, .newline]) := fun w => rfl
    rw [executionShell_eq]
    have whole := run_seq opens (run_seq (run_single [] noQuote) (closes _))
    exact tokens_of_between whole
  · refine ⟨bare dir, bare ("puma-dev:".toList ++ name),
      bare ("unix:".toList ++ socketPath pid dir), bare ("puma-dev:".toList ++ name),
      bare ("unix:".toList ++ socketPath pid dir), ?_, plain.dir.denotes,
      ⟨tag.denotes, bind.denotes⟩, tag.denotes, bind.denotes⟩
    have whole := run_seq readCd (run_seq (run_begin plain.dir plain.begins)
      (run_seq (run_middle _) (run_seq readName (run_seq (run_options _) (run_seq readSocket
      (run_seq (run_else _) (run_seq readName (run_seq (run_options _) readSocket))))))))
    rw [script, tokens_of_word whole]
    rfl

/-! ## What follows the directory and the name -/

theorem scriptMiddle_front : ∃ more, scriptMiddle =
    '\n' :: (("\nif test -e ~/.powconfig && [ ".toList ++ ['"', '$']) ++ more) := by
  have front : "\n\n".toList ++ sourceIf "~/.powconfig".toList "PUMADEV_SOURCE_POWCONFIG".toList =
      '\n' :: (("\nif test -e ~/.powconfig && [ ".toList ++ ['"', '$']) ++
        "PUMADEV_SOURCE_POWCONFIG\" != \"0\" ]; then\n\tsource ~/.powconfig\nfi\n\n".toList) := by
    delta sourceIf
    repeat rewrite [String.toList_ofList]
    decide +kernel
  have split := scriptMiddle_eq
  rw [← List.append_assoc, front, List.cons_append, List.append_assoc] at split
  exact ⟨_, split⟩

theorem uncovered_middle (rest : GoString) : Uncovered (scriptMiddle ++ rest) := by
  obtain ⟨more, split⟩ := scriptMiddle_front
  rw [split, List.cons_append, List.append_assoc]
  refine Uncovered.of_front rfl ?_ ?_
  · intro w
    have quoted := run_double w
      (by decide : ∀ c ∈ "\nif test -e ~/.powconfig && [ ".toList, c ∉ "\"\\$`".toList)
    have dollar : ∀ v, run ⟨.double, v⟩ ['"', '$'] = (⟨.word, v ++ [.active '$']⟩, []) :=
      fun v => rfl
    exact ⟨_, run_seq quoted (dollar _), trivial, by simp⟩
  · intro v w ts first
    -- the backslash joins the line to the next one, which is empty
    have joins : step ⟨.escape, v⟩ '\n' = (⟨.word, v⟩, []) := rfl
    have ends : step ⟨.word, v⟩ '\n' = (⟨.between, []⟩, [.word v, .newline]) := rfl
    have next : "\nif test -e ~/.powconfig && [ ".toList =
        '\n' :: "if test -e ~/.powconfig && [ ".toList := by decide
    rw [next, run_cons, joins] at first
    simp only [List.cons_append, run_cons, ends, List.nil_append] at first
    cases (List.cons.inj first).1
    exact le_refl _

theorem uncovered_options (rest : GoString) : Uncovered (scriptOptions ++ rest) := by
  have split : scriptOptions =
      ' ' :: (("-w ".toList ++ ['$']) ++ "WORKERS -t 0:$THREADS -b unix:".toList) := by
    delta scriptOptions
    repeat rewrite [String.toList_ofList]
    decide +kernel
  rw [split, List.cons_append, List.append_assoc]
  refine Uncovered.of_front rfl ?_ ?_
  · intro w
    have quoted := run_double w (by decide : ∀ c ∈ "-w ".toList, c ∉ "\"\\$`".toList)
    have dollar : ∀ v, run ⟨.double, v⟩ ['$'] = (⟨.double, v ++ [.active '$']⟩, []) :=
      fun v => rfl
    exact ⟨_, run_seq quoted (dollar _), trivial, by simp⟩
  · intro v w ts first
    -- the backslash takes the blank in, which is no quote
    have reads : run ⟨.escape, v⟩ [' ', '-', 'w'] =
        (⟨.word, v ++ [.lit ' '] ++ [.lit '-'] ++ [.lit 'w']⟩, []) := rfl
    have ends : ∀ u, step ⟨.word, u⟩ ' ' = (⟨.between, []⟩, [.word u]) := fun _ => rfl
    have next : ' ' :: ("-w ".toList ++ ['$']) = [' ', '-', 'w'] ++ [' ', '$'] := by decide
    rw [← List.cons_append, next, List.append_assoc, run_append_of reads, List.cons_append,
      run_cons, ends] at first
    cases (List.cons.inj first).1
    simp [weight, quoteWeight, isQuote]

/-- No word begins in the lines that follow the directory before they end. -/
theorem closed_middle (rest : GoString) (mode : Mode)
    (outside : mode = .between ∨ mode = .escapeBetween) (w : Word) (ts : List Token) :
    (run ⟨mode, []⟩ (scriptMiddle ++ rest)).2 ≠ .word w :: ts := by
  obtain ⟨more, split⟩ := scriptMiddle_front
  have next : "\nif test -e ~/.powconfig && [ ".toList =
      '\n' :: "if test -e ~/.powconfig && [ ".toList := by decide
  have line : step ⟨.between, []⟩ '\n' = (⟨.between, []⟩, [.newline]) := rfl
  have joins : step ⟨.escapeBetween, []⟩ '\n' = (⟨.between, []⟩, []) := rfl
  rw [split, next]
  rcases outside with rfl | rfl
  · rw [List.cons_append, run_cons, line]
    nofun
  · rw [List.cons_append, run_cons, joins]
    dsimp only
    rw [List.cons_append, List.cons_append, List.cons_append, run_cons, line]
    nofun

/-! ## The values that come out are plain -/

/-- At most one token is left over at the end. -/
theorem head_of_append {a b : Token} {rest front last : List Token}
    (whole : a :: b :: rest = front ++ last) (short : last.length ≤ 1) :
    ∃ ts, front = a :: ts := by
  cases front with
  | nil =>
      rw [List.nil_append] at whole
      simp [← whole] at short
  | cons c front => exact ⟨front, by rw [(List.cons.inj whole).1]⟩

/-- The script does not end the quotes it is in. -/
theorem noQuote_of_outer {dir name socket : GoString}
    (means : MeansWhatItSays dir name socket) : '\'' ∉ script dir name socket := by
  obtain ⟨w, reads, denotes⟩ := means.outer
  obtain ⟨last, short, whole⟩ := run_of_tokens reads
  have opens : run ⟨.between, []⟩ "exec bash -c '".toList =
      (⟨.single, []⟩, [say "exec", say "bash", say "-c"]) := by decide
  rw [executionShell_eq, run_append_of opens, List.append_assoc] at whole
  have rest := (List.append_right_inj [say "exec", say "bash", say "-c"]).mp whole
  obtain ⟨ts, first⟩ := head_of_append rest short
  exact noSingle_of_head first denotes.chars

/-- **Values that come out as they went in are plain.** -/
theorem plain_of_meansWhatItSays {dir name socket : GoString}
    (means : MeansWhatItSays dir name socket) : IsPlainCommand dir name := by
  have noQuote := noQuote_of_outer means
  have dirQuote : '\'' ∉ dir := fun mem =>
    noQuote (List.mem_append_right _ (List.mem_append_left _ mem))
  have nameQuote : '\'' ∉ name := fun mem =>
    noQuote (List.mem_append_right _ (List.mem_append_right _ (List.mem_append_right _
      (List.mem_append_left _ mem))))
  obtain ⟨cd, tag, bind, tag', bind', reads, isDir, ⟨isTag, -⟩, -, -⟩ := means.inner
  obtain ⟨last, short, whole⟩ := run_of_tokens reads
  have readCd : run ⟨.between, []⟩ "\ncd ".toList = (⟨.between, []⟩, [.newline, say "cd"]) := by
    decide
  rw [script, run_append_of readCd, List.append_assoc] at whole
  have fromDir := (List.append_right_inj [.newline, say "cd"]).mp whole
  obtain ⟨ts, first⟩ := head_of_append fromDir short
  obtain ⟨begins, plainDir⟩ :=
    plain_of_begin (uncovered_middle _) (closed_middle _) dirQuote first isDir
  -- the directory has been read, and what follows it up to the name
  rw [run_append_of (run_begin plainDir begins), run_append_of (run_middle _)] at fromDir
  have fromTag := (List.append_right_inj middleTokens).mp (List.cons.inj fromDir).2
  obtain ⟨ts', first'⟩ := head_of_append fromTag short
  have plainName : IsPlain name :=
    plain_of_head (by decide) (by decide) (uncovered_options _) nameQuote first' isTag
  exact ⟨begins, plainDir, plainName⟩

/-- **The launch command means what it says exactly for plain values**: the directory and
the name have no character that the shell reads outside quotes, and begin no pattern.  The
socket, which is a path below the directory, adds nothing to that. -/
theorem meansWhatItSays_iff (pid : ℕ) (dir name : GoString) :
    MeansWhatItSays dir name (socketPath pid dir) ↔ IsPlainCommand dir name :=
  ⟨plain_of_meansWhatItSays, meansWhatItSays_of_plain pid⟩

/-- A link to a directory with a blank in its name: the tag ends at the blank. -/
theorem not_meansWhatItSays_blank :
    ¬ MeansWhatItSays "/home/u/.puma-dev/blog".toList "my blog-5ac542b4".toList
      (socketPath 1 "/home/u/.puma-dev/blog".toList) := by
  intro means
  have plain := (plain_of_meansWhatItSays means).name
  revert plain
  decide

end PumaDev
