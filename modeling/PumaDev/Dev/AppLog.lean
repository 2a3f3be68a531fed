import PumaDev.Dev.EventsDump
import PumaDev.Lib.Machine

/-!
# The log of an app

An app's `lines` are one buffer for two kinds of entries: the lines the app
prints, and a record `#event …` of every event of the app.  `watch` reads the
output, and for each line it first emits the event `console_log` with the line
as its message, which leaves such a record, and then appends the line.  Any
other goroutine may emit events of the app at any time.

The entries of the model remember which kind they are; `LogEntry.text` is what
the code keeps, and forgetting the kinds is a buffer that works the same
(`LineBuffer.map_append`).

`AppLog.Given` is the invariant: what the buffer has been given, of which it holds
the last 1024 entries.  From it comes the exact condition for the log to hold the
last 1024 **lines of output**, `keepsOutput_iff`: everything appended from the first of
them on has to fit.  Since each line brings a record of its own, a log never
holds more than 512 lines of output.
-/

namespace PumaDev

namespace Bufio

/-- `Reader.ReadString('\n')` on what is left of a stream: the line with its
newline, what is left then, and whether it ended in an error instead. -/
def readString (unread : Bytes) : Bytes × Bytes × Bool :=
  match unread.span (· ≠ newline) with
  | (line, sep :: rest) => (line ++ [sep], rest, false)
  | (line, []) => (line, [], true)

/-- The lines of a stream, each with its newline; the last may lack it. -/
def readLines : Bytes → List Bytes
  | [] => []
  | b :: rest =>
      if b = newline then [b] :: readLines rest
      else
        match readLines rest with
        | [] => [[b]]
        | line :: lines => (b :: line) :: lines

theorem readString_newline (rest : Bytes) :
    readString (newline :: rest) = ([newline], rest, false) := by
  simp [readString, List.span_eq_takeWhile_dropWhile]

theorem readString_cons {b : UInt8} (other : b ≠ newline) (rest : Bytes) :
    readString (b :: rest) = (b :: (readString rest).1, (readString rest).2) := by
  simp only [readString, List.span_eq_takeWhile_dropWhile]
  rw [List.takeWhile_cons_of_pos (by simpa using other),
    List.dropWhile_cons_of_pos (by simpa using other)]
  cases rest.dropWhile (· ≠ newline) <;> rfl

/-- A read without a line has met the end. -/
theorem end_of_readString {unread : Bytes} (none_ : (readString unread).1 = []) :
    readString unread = ([], [], true) := by
  cases unread with
  | nil => rfl
  | cons b rest =>
      by_cases sep : b = newline
      · rw [sep, readString_newline] at none_
        cases none_
      · rw [readString_cons sep] at none_
        cases none_

/-- Reading a line is taking the first of them. -/
theorem readLines_eq (unread : Bytes) :
    readLines unread =
      if (readString unread).1 = [] then []
      else (readString unread).1 :: readLines (readString unread).2.1 := by
  induction unread with
  | nil => rfl
  | cons b rest ih =>
      by_cases sep : b = newline
      · rw [sep, readString_newline, readLines, if_pos rfl, if_neg (by simp)]
      · rw [readString_cons sep, readLines, if_neg sep, if_neg (by simp)]
        by_cases short : (readString rest).1 = []
        · rw [if_pos short] at ih
          rw [ih, end_of_readString short]
          rfl
        · rw [if_neg short] at ih
          rw [ih]

end Bufio

/-! ## The machine -/

/-- An entry of an app's log. -/
inductive LogEntry where
  | event (str : Bytes)
  | output (line : Bytes)
  deriving DecidableEq

/-- The kinds of entries. -/
inductive EntryKind where
  | event
  | output
  deriving DecidableEq

namespace LogEntry

/-- What `App.lines` keeps. -/
def text : LogEntry → Bytes
  | event str => Utf8.encode "#event ".toList ++ str
  | output line => line

def kind : LogEntry → EntryKind
  | event _ => .event
  | output _ => .output

/-- The line of output, if it is one. -/
def line : LogEntry → Option Bytes
  | event _ => none
  | output line => some line

end LogEntry

/-- The points of the goroutine in `App.watch`; `ended` is whether the read
ended in an error. -/
inductive LogPc where
  | reading
  | handleLog (line : Bytes) (ended : Bool)
  | append (line : Bytes) (ended : Bool)
  | done
  deriving DecidableEq

/-- An app, as its log is concerned. -/
structure AppLog where
  /-- `App.lines`. -/
  lines : LineBuffer LogEntry
  /-- What the process will still print. -/
  stdout : Bytes
  pc : LogPc

/-- The steps. -/
inductive LogStep where
  /-- Any goroutine calls `eventAdd`. -/
  | event (now name : Bytes) (args : List ByteArg)
  | read
  | handleLog (now : Bytes)
  | append
  deriving DecidableEq

/-- The kind of the entry that the step appends. -/
def LogStep.kind : LogStep → Option EntryKind
  | event .. | handleLog _ => some .event
  | read => none
  | append => some .output

namespace AppLog

/-- The app named `appName` that is going to print `stdout`. -/
def launched (stdout : Bytes) : AppLog := ⟨.zero, stdout, .reading⟩

/-- `App.eventAdd`, past the return of `Events.Add`. -/
def eventAdd (T : PrintTable) (appName now name : Bytes) (args : List ByteArg)
    (lines : LineBuffer LogEntry) : Option (LineBuffer LogEntry) :=
  (Events.lineBytes T now name
    (.str (Utf8.encode "app".toList) :: .str appName :: args)).map fun str =>
      lines.append (.event str)

/-- One step. -/
def step (T : PrintTable) (appName : Bytes) (s : AppLog) : LogStep → Option AppLog
  | .event now name args =>
      (eventAdd T appName now name args s.lines).map fun lines => { s with lines := lines }
  | .read =>
      match s.pc with
      | .reading =>
          match Bufio.readString s.stdout with
          | (line, rest, ended) =>
              if line = [] then
                some { s with stdout := rest, pc := if ended then .done else .reading }
              else some { s with stdout := rest, pc := .handleLog line ended }
      | _ => none
  | .handleLog now =>
      match s.pc with
      | .handleLog line ended =>
          (eventAdd T appName now (Utf8.encode "console_log".toList)
            [.str (Utf8.encode "message".toList), .str (Bytes.trimSpace line)] s.lines).map
              fun lines => { s with lines := lines, pc := .append line ended }
      | _ => none
  | .append =>
      match s.pc with
      | .append line ended =>
          some { s with
            lines := s.lines.append (.output line)
            pc := if ended then .done else .reading }
      | _ => none

/-- The lines of output in the log, oldest first. -/
def outputs (s : AppLog) : List Bytes := s.lines.contents.filterMap LogEntry.line

/-- `App.Log`. -/
def log (s : AppLog) : Bytes :=
  (((s.lines.map LogEntry.text).writeTo (LineBuffer.accepting Unit) []).1).1

/-- The line that has been read and not appended. -/
def pending (s : AppLog) : List Bytes :=
  match s.pc with
  | .handleLog line _ | .append line _ => [line]
  | .reading | .done => []

end AppLog

/-- The app `appName`, going to print `stdout`. -/
def appLog (T : PrintTable) (appName stdout : Bytes) : Machine AppLog LogStep :=
  ⟨.launched stdout, AppLog.step T appName⟩

/-! ## What the buffer has been given -/

/-- The kinds of the entries that a schedule appends, in order. -/
def entryKinds (ls : List LogStep) : List EntryKind := ls.filterMap LogStep.kind

/-- `h` is everything that the log of the app has been given. -/
structure AppLog.Given (stdout : Bytes) (past : List LogStep) (h : List LogEntry)
    (s : AppLog) : Prop where
  lines : s.lines = h.foldl LineBuffer.append .zero
  kinds : h.map LogEntry.kind = entryKinds past
  /-- The lines appended, the one in hand and those still to be read are the
  lines of the stream. -/
  read : h.filterMap LogEntry.line ++ s.pending ++ Bufio.readLines s.stdout =
    Bufio.readLines stdout
  /-- Between two lines of output there is an event. -/
  apart : h.IsChain fun a b => ¬ (a.kind = .output ∧ b.kind = .output)
  /-- The event of a line has come before it. -/
  behind : ∀ line ended, s.pc = .append line ended → ∀ e ∈ h.getLast?, e.kind = .event

namespace AppLog.Given

variable {T : PrintTable} {appName stdout : Bytes} {past : List LogStep} {h : List LogEntry}
  {s t : AppLog} {label : LogStep}

theorem launched (stdout : Bytes) : Given stdout [] [] (.launched stdout) where
  lines := rfl
  kinds := rfl
  read := rfl
  apart := .nil
  behind := by simp [AppLog.launched]

/-- An event is one more entry, for whoever emits it. -/
theorem event (given : Given stdout past h s) {str : Bytes} {pc : LogPc}
    (kind : label.kind = some .event) (pending : { s with pc := pc }.pending = s.pending) :
    Given stdout (past ++ [label]) (h ++ [.event str])
      { s with lines := s.lines.append (.event str), pc := pc } where
  lines := by rw [List.foldl_append, ← given.lines]; rfl
  kinds := by simp [given.kinds, entryKinds, kind, LogEntry.kind]
  read := by
    have read := given.read
    rw [← pending] at read
    have same : (h ++ [LogEntry.event str]).filterMap LogEntry.line = h.filterMap LogEntry.line := by
      simp [LogEntry.line]
    rw [same]
    exact read
  apart := by
    refine given.apart.append (.singleton _) fun a _ b mem => ?_
    cases mem
    simp [LogEntry.kind]
  behind := by
    intro line ended _ e mem
    cases (List.getLast?_concat).symm.trans mem
    rfl

/-- A line of output follows its event. -/
theorem output (given : Given stdout past h s) {line : Bytes} {ended : Bool}
    (pc : s.pc = .append line ended) :
    Given stdout (past ++ [.append]) (h ++ [.output line])
      { s with
        lines := s.lines.append (.output line)
        pc := if ended then .done else .reading } where
  lines := by rw [List.foldl_append, ← given.lines]; rfl
  kinds := by simp [given.kinds, entryKinds, LogStep.kind, LogEntry.kind]
  read := by
    have read := given.read
    have before : s.pending = [line] := by rw [pending, pc]
    have after : ({ s with
        lines := s.lines.append (.output line)
        pc := if ended then .done else .reading } : AppLog).pending = [] := by
      cases ended <;> rfl
    have more : (h ++ [LogEntry.output line]).filterMap LogEntry.line =
        h.filterMap LogEntry.line ++ [line] := by simp [LogEntry.line]
    rw [before] at read
    rw [after, more, List.append_nil]
    exact read
  apart := by
    refine given.apart.append (.singleton _) fun a mem b _ => ?_
    rw [given.behind line ended pc a mem]
    simp
  behind := by
    intro line' ended' pc'
    cases ended <;> cases pc'

/-- Reading a line appends nothing. -/
theorem reading (given : Given stdout past h s) (pc : s.pc = .reading) :
    Given stdout (past ++ [.read]) h
      { s with
        stdout := (Bufio.readString s.stdout).2.1
        pc :=
          if (Bufio.readString s.stdout).1 = [] then
            if (Bufio.readString s.stdout).2.2 then .done else .reading
          else .handleLog (Bufio.readString s.stdout).1 (Bufio.readString s.stdout).2.2 } where
  lines := given.lines
  kinds := by simp [given.kinds, entryKinds, LogStep.kind]
  read := by
    have before : s.pending = [] := by rw [pending, pc]
    have total := given.read
    rw [before, List.append_nil, Bufio.readLines_eq] at total
    rw [← total, List.append_assoc]
    congr 1
    by_cases none_ : (Bufio.readString s.stdout).1 = []
    · rw [if_pos none_, if_pos none_, Bufio.end_of_readString none_]
      rfl
    · rw [if_neg none_, if_neg none_]
      rfl
  apart := given.apart
  behind := by
    intro line' ended' pc'
    dsimp only at pc'
    split at pc'
    · split at pc' <;> cases pc'
    · cases pc'

/-- **Every step** gives the log the entry of its kind. -/
theorem next (given : Given stdout past h s) (step : s.step T appName label = some t) :
    ∃ h', Given stdout (past ++ [label]) h' t := by
  cases label with
  | event now name args =>
      obtain ⟨lines, added, rfl⟩ := Option.map_eq_some_iff.mp step
      obtain ⟨str, -, rfl⟩ := Option.map_eq_some_iff.mp added
      exact ⟨_, given.event rfl rfl⟩
  | read =>
      simp only [AppLog.step] at step
      split at step
      · next pc =>
          split at step
          · next none_ =>
              cases step
              have read := given.reading pc
              rw [if_pos none_] at read
              exact ⟨h, read⟩
          · next some_ =>
              cases step
              have read := given.reading pc
              rw [if_neg some_] at read
              exact ⟨h, read⟩
      · cases step
  | handleLog now =>
      simp only [AppLog.step] at step
      split at step
      · next line ended pc =>
          obtain ⟨lines, added, rfl⟩ := Option.map_eq_some_iff.mp step
          obtain ⟨str, -, rfl⟩ := Option.map_eq_some_iff.mp added
          exact ⟨_, given.event rfl (by simp [pending, pc])⟩
      · cases step
  | append =>
      simp only [AppLog.step] at step
      split at step
      · next line ended pc =>
          cases step
          exact ⟨_, given.output pc⟩
      · cases step

/-- The run lemma. -/
theorem of_exec {ls : List LogStep}
    (run : (appLog T appName stdout).exec (.launched stdout) ls = some s) :
    ∃ h, Given stdout ls h s := by
  refine (appLog T appName stdout).exec_induction
    (P := fun past u => ∃ h, Given stdout past h u) ⟨[], launched stdout⟩ ?_ run
  rintro past u label t ⟨h, given⟩ step
  exact given.next step

/-- The lines among entries are counted by their kinds. -/
theorem length_lines (h : List LogEntry) :
    (h.filterMap LogEntry.line).length = (h.map LogEntry.kind).count .output := by
  induction h with
  | nil => rfl
  | cons e rest ih => cases e <;> simp [List.filterMap_cons, LogEntry.kind, LogEntry.line, ih]

theorem countP_output (h : List LogEntry) :
    (h.filterMap LogEntry.line).length = h.countP fun e => decide (e.kind = .output) := by
  rw [length_lines, List.count, List.countP_map]
  rfl

/-- The lines of output that the log has been given are the first of the stream. -/
theorem lines_eq (given : Given stdout past h s) :
    h.filterMap LogEntry.line =
      (Bufio.readLines stdout).take ((entryKinds past).count .output) := by
  rw [← given.kinds, ← length_lines]
  refine List.prefix_iff_eq_take.mp ⟨s.pending ++ Bufio.readLines s.stdout, ?_⟩
  rw [← List.append_assoc, given.read]

/-- **What the log holds** of the output: what is left of it among the last 1024
entries. -/
theorem outputs_eq (given : Given stdout past h s) :
    s.outputs = (h.rtake 1024).filterMap LogEntry.line := by
  rw [outputs, given.lines, LineBuffer.contents_foldl]
  rfl

end AppLog.Given

/-! ## The last lines of the output -/

namespace AppLog

variable {T : PrintTable} {appName stdout : Bytes} {ls : List LogStep} {s : AppLog}

/-- How many lines of output the log holds depends on nothing but the order in
which the entries came. -/
theorem length_outputs (run : (appLog T appName stdout).exec (.launched stdout) ls = some s) :
    s.outputs.length = ((entryKinds ls).rtake 1024).count .output := by
  obtain ⟨h, given⟩ := Given.of_exec run
  rw [given.outputs_eq, Given.length_lines, ← History.rtake_map, given.kinds]

/-- What `App.Log` returns: the texts of the entries. -/
theorem log_eq : s.log = (s.lines.contents.map LogEntry.text).flatten := by
  rw [log, LineBuffer.writeTo_accepting, LineBuffer.contents_map, List.nil_append]

/-- A log never holds more than 512 lines of output. -/
theorem length_outputs_le
    (run : (appLog T appName stdout).exec (.launched stdout) ls = some s) :
    s.outputs.length ≤ 512 := by
  obtain ⟨h, given⟩ := Given.of_exec run
  have apart : (h.rtake 1024).IsChain fun a b =>
      ¬ (decide (a.kind = .output) = true ∧ decide (b.kind = .output) = true) :=
    (given.apart.suffix (History.rtake_suffix h 1024)).imp fun a b => by simp
  have half := History.two_mul_countP_le apart
  rw [← Given.countP_output, ← given.outputs_eq, History.length_rtake] at half
  omega

/-- **When the log keeps the last 1024 lines of output**, of those appended to it so
far: exactly when the first of them, with everything that was appended after it,
makes at most 1024 entries. -/
theorem keepsOutput_iff (run : (appLog T appName stdout).exec (.launched stdout) ls = some s) :
    s.outputs = ((Bufio.readLines stdout).take ((entryKinds ls).count .output)).rtake 1024 ↔
      ((entryKinds ls).dropWhile (· ≠ .output)).length ≤ 1024 := by
  obtain ⟨h, given⟩ := Given.of_exec run
  have apart : h.IsChain fun a b =>
      ¬ (decide (a.kind = .output) = true ∧ decide (b.kind = .output) = true) :=
    given.apart.imp fun a b => by simp
  have since : ((entryKinds ls).dropWhile (· ≠ .output)).length =
      (h.dropWhile fun e => !decide (e.kind = .output)).length := by
    rw [← given.kinds, List.dropWhile_map, List.length_map]
    congr 2
    funext e
    simp
  calc s.outputs = ((Bufio.readLines stdout).take ((entryKinds ls).count .output)).rtake 1024
      ↔ (h.rtake 1024).filterMap LogEntry.line = (h.filterMap LogEntry.line).rtake 1024 := by
        rw [given.outputs_eq, given.lines_eq]
    _ ↔ (h.rtake 1024).countP (fun e => decide (e.kind = .output)) =
          min 1024 (h.countP fun e => decide (e.kind = .output)) := by
        rw [History.filterMap_rtake_eq_iff, Given.countP_output, Given.countP_output]
    _ ↔ ((entryKinds ls).dropWhile (· ≠ .output)).length ≤ 1024 := by
        rw [History.countP_rtake_eq_iff (by decide) apart, since]

/-- Two lines of output, and an event between them. -/
def twoLines : List LogStep :=
  [.read, .handleLog [], .append, .event [] (Utf8.encode "app_ready".toList) [], .read,
    .handleLog [], .append]

theorem keepsOutput_twoLines :
    ∃ s, (appLog .asciiOnly [] [0x78, newline, 0x79]).exec (.launched [0x78, newline, 0x79])
        twoLines = some s ∧
      s.outputs = ((Bufio.readLines [0x78, newline, 0x79]).take
        ((entryKinds twoLines).count .output)).rtake 1024 := by
  have through : ((appLog .asciiOnly [] [0x78, newline, 0x79]).exec
      (.launched [0x78, newline, 0x79]) twoLines).isSome = true := by decide +kernel
  obtain ⟨s, run⟩ := Option.isSome_iff_exists.mp through
  exact ⟨s, run, (keepsOutput_iff run).mpr (by decide)⟩

/-- An app that prints 600 lines and has no other events. -/
def chatty : Bytes := (List.replicate 600 [0x78, newline]).flatten

/-- Its output being read. -/
def chattyRun : List LogStep := (List.replicate 600 [.read, .handleLog [], .append]).flatten

/-- The log of that app does not hold its 600 lines. -/
theorem chatty_forgets :
    ¬ ∀ (T : PrintTable) (appName stdout : Bytes) (ls : List LogStep) (s : AppLog),
      (appLog T appName stdout).exec (.launched stdout) ls = some s →
        s.outputs =
          ((Bufio.readLines stdout).take ((entryKinds ls).count .output)).rtake 1024 := by
  intro always
  have through : ((appLog .asciiOnly [] chatty).exec (.launched chatty) chattyRun).isSome =
      true := by decide +kernel
  obtain ⟨s, run⟩ := Option.isSome_iff_exists.mp through
  have kept := congrArg List.length (always .asciiOnly [] chatty chattyRun s run)
  have held : ((entryKinds chattyRun).rtake 1024).count .output = 512 := by decide +kernel
  have all : (((Bufio.readLines chatty).take ((entryKinds chattyRun).count .output)).rtake
      1024).length = 600 := by decide +kernel
  rw [length_outputs run, held, all] at kept
  cases kept

end AppLog

end PumaDev
