import PumaDev.Dev.PlainSettings

/-!
# Installed settings

A value comes out of the launch agent as it went in if nothing in it means something else in
XML, and `installed_iff` says that nothing else will do.  A value that closes an element, or
covers the text behind it, is not made good by those that follow: the strings it leaves behind
are shorter than the values that are still to be read, and remain so up to the last one.
-/

namespace PumaDev

open Xml Plist

namespace LaunchAgent

/-! ## What the strings of the document are -/

/-- The first two entries of the dictionary. -/
theorem entries_of_said {a : LaunchAgent} {es : List Event} {entries : List (GoString × Plist)}
    (same : significant false (openingEvents ++ es) =
      element "plist".toList (encode (.dict entries))) (starts : a.Starts entries) :
    ∃ rest, entries = ("Label".toList, .string "io.puma.dev".toList) ::
      ("ProgramArguments".toList, .array (a.programArguments.map .string)) :: rest := by
  rw [significant_openingEvents] at same
  have inner : encodeEntries entries ++ .stop "dict".toList :: [.stop "plist".toList] =
      textElement "key".toList "Label".toList ++ (encode (.string "io.puma.dev".toList) ++
        (textElement "key".toList "ProgramArguments".toList ++
          (.start "array".toList :: .start "string".toList :: significant true es))) := by
    simp only [element, encode_dict, List.cons_append, List.append_assoc, List.nil_append,
      List.cons.injEq, true_and, -String.reduceToList] at same ⊢
    exact same.symm
  obtain ⟨p, more, rfl, label⟩ := entries_of_key inner
  obtain ⟨rfl, arguments⟩ := eq_leaf_of_encode label
  obtain ⟨q, rest, rfl, -⟩ := entries_of_key arguments
  have value : some q = some (.array (a.programArguments.map .string)) := starts.arguments
  cases value
  exact ⟨rest, rfl⟩

/-- When the array of the arguments ends, they are complete. -/
theorem inArray_of_arguments (arguments : List GoString) (rest : List (GoString × Plist)) :
    (Digest.empty.after (element "plist".toList (encode (.dict
      (("Label".toList, .string "io.puma.dev".toList) ::
        ("ProgramArguments".toList, .array (arguments.map .string)) :: rest))))).inArray =
      some (1 + arguments.length) := by
  have shape : element "plist".toList (encode (.dict
      (("Label".toList, .string "io.puma.dev".toList) ::
        ("ProgramArguments".toList, .array (arguments.map .string)) :: rest))) =
      (.start "plist".toList :: .start "dict".toList :: textElement "key".toList "Label".toList) ++
        (encode (.string "io.puma.dev".toList) ++
          ((textElement "key".toList "ProgramArguments".toList ++ [.start "array".toList]) ++
            (encodeItems (arguments.map .string) ++ (.stop "array".toList ::
              (encodeEntries rest ++ [.stop "dict".toList, .stop "plist".toList]))))) := by
    simp only [element, encode_dict, encode_array, encodeEntries_cons, List.cons_append, List.append_assoc,
      List.nil_append, -String.reduceToList]
  have first : Digest.empty.after (.start "plist".toList :: .start "dict".toList ::
      textElement "key".toList "Label".toList) = ⟨[], none, none⟩ := by decide +kernel
  have second : Digest.after ⟨[] ++ ["io.puma.dev".toList], none, none⟩
      (textElement "key".toList "ProgramArguments".toList ++ [.start "array".toList]) =
        ⟨["io.puma.dev".toList], none, none⟩ := by decide +kernel
  rw [shape, Digest.after_append, first, Digest.after_append, Digest.after_string,
    Digest.after_append, second, Digest.after_append, Digest.after_strings _ rfl,
    Digest.after_cons]
  refine Digest.inArray_after ?_ _
  show some (["io.puma.dev".toList] ++ arguments).length = _
  rw [List.length_append, List.length_singleton]

/-- **The strings of the document**: the arguments come first, none other is complete when the
array ends, and the path of the log is among the others twice. -/
theorem strings_of_said {a : LaunchAgent} {es : List Event} {entries : List (GoString × Plist)}
    (said : Says a.text (.dict entries)) (starts : a.Starts entries)
    (h : events a.text = some (openingEvents ++ es)) :
    ∃ others, (Digest.after ⟨["io.puma.dev".toList], some [], none⟩ es).complete =
        "io.puma.dev".toList :: (a.programArguments ++ others) ∧
      2 ≤ others.count a.logPath ∧
      (Digest.after ⟨["io.puma.dev".toList], some [], none⟩ es).inArray = some 11 := by
  have strings := said.strings h
  obtain ⟨es', reads, -, same⟩ := said
  obtain rfl : openingEvents ++ es = es' := Option.some.inj (h.symm.trans reads)
  obtain ⟨rest, rfl⟩ := entries_of_said same starts
  have digest : Digest.empty.after (openingEvents ++ es) =
      Digest.after ⟨["io.puma.dev".toList], some [], none⟩ es := by
    rw [Digest.after_append, after_openingEvents]
  have out : rest.lookup "StandardOutPath".toList = some (.string a.logPath) := starts.stdoutPath
  have err : rest.lookup "StandardErrorPath".toList = some (.string a.logPath) :=
    starts.stderrPath
  refine ⟨stringsEntries rest, ?_, two_le_count_of_lookup (by decide) out err, ?_⟩
  · rw [← digest, strings]
    show ["io.puma.dev".toList] ++ (stringsItems (a.programArguments.map .string) ++
      stringsEntries rest) = _
    rw [stringsItems_map]
    rfl
  · have outside : Digest.empty.current.isSome = true → false = true := by simp [Digest.empty]
    rw [← digest, ← Digest.after_significant _ outside, same]
    exact inArray_of_arguments a.programArguments rest

/-! ## Value by value -/

/-- **The last argument.**  If it is too short, the array has not ended behind it: the piece
behind it would end it before all its strings are complete. -/
theorem readAs_or_covered (a : LaunchAgent) {m m' : Mode} {g : Digest} {es : List Event}
    {wanted : List GoString} (here : g.complete.length < 10 ∨ InSync 10 m g)
    (h : run m (normalize a.noServePublicPaths ++ a.afterPaths) = some (m', es))
    (want : wanted[10]? = some a.noServePublicPaths)
    (begins : (g.after es).complete <+: wanted)
    (le : ∀ n, g.inArray = some n → n ≤ g.complete.length)
    (array : ∀ n, (g.after es).inArray = some n → n = 11) :
    ReadAs 10 m m' g a.noServePublicPaths a.afterPathsEvents es ∨
      (g.after es).complete.length < 11 := by
  rcases readAs_or_short here a.joint_afterPaths a.completes_afterPaths h want begins with
    read | ⟨m₁, es₁, es₂, rfl, short, back⟩
  · exact Or.inl read
  · right
    rw [Digest.after_append] at begins array ⊢
    rcases cases_of_joint short a.joint_afterPaths a.completes_afterPaths back want begins with
      ⟨-, read, fewer⟩ | ⟨-, same, fewer⟩
    · exfalso
      rw [read] at array
      cases ended : (g.after es₁).inArray with
      | none =>
          have eleven := array _ (a.inArray_afterPaths ended)
          omega
      | some n =>
          have eleven := array n (Digest.inArray_after ended _)
          have some_ := Digest.inArray_le le es₁ n ended
          rw [List.length_append] at fewer
          omega
    · rw [same]
      omega

/-- The strings of the sockets are read as they are. -/
theorem verbatim_of_mem_socketStrings {a : LaunchAgent} {s : GoString}
    (mem : s ∈ a.socketStrings) : Verbatim s := by
  have address : Verbatim "0.0.0.0".toList := by decide
  simp only [socketStrings, List.mem_cons, List.not_mem_nil, or_false] at mem
  rcases mem with rfl | rfl | rfl | rfl
  · exact address
  · exact verbatim_of_digits digits_of_mem_itoa
  · exact address
  · exact verbatim_of_digits digits_of_mem_itoa

/-- **The path of the log**, which is written twice.  It is to be two strings; if it is read once
too late, or is not read as it is, it is one at most. -/
theorem verbatim_of_logPath (a : LaunchAgent) {m : Mode} {n : ℕ} {g : Digest} {es : List Event}
    (here : g.complete.length < 11 ∨ InSync 15 m g ∧ g.complete.drop 11 = a.socketStrings)
    (h : run m (normalize a.logPath ++ (afterLogPath ++ (normalize a.logPath ++ closing))) =
      some (.text n, es))
    (twice : 2 ≤ ((g.after es).complete.drop 11).count a.logPath) :
    Verbatim a.logPath ∧ InSync 15 m g := by
  have after := piece_afterLogPath
  have fits : (normalize a.logPath).length ≤ a.logPath.length :=
    length_normalizeFrom_le false a.logPath
  obtain ⟨m₁, es₁, es₂, front, back, rfl⟩ := run_append_eq_some.mp h
  rw [Digest.after_append] at twice
  -- what is left is enough for one string only
  have once : Lacks 11 a.logPath (g.after es₁).complete →
      (11 ≤ (g.after es₁).complete.length → (g.after es₁).current ≠ some a.logPath) → False := by
    intro lacks current
    have one := count_le_one_of_value after.joint piece_closing.joint after.completes
      piece_closing.completes lacks current back
    omega
  rcases here with behind | ⟨sync, sockets⟩
  · exfalso
    have short := (Digest.short_of_lt behind m.pending).run front
    rw [Nat.zero_add] at short
    refine once (fun j from_ here => ?_) fun from_ here => ?_
    · have less := short.complete j _ from_ here
      omega
    · have less := short.current from_ _ here
      omega
  · refine ⟨?_, sync⟩
    by_contra marked
    have others : a.logPath ∉ a.socketStrings := fun mem =>
      marked (verbatim_of_mem_socketStrings mem)
    rcases cases_of_value (Or.inr sync) front fits with ⟨-, lt, amp, free, ⟨k, rfl⟩, rfl⟩ | short
    · -- both times the text without its carriage returns
      have both := complete_of_twice sync lt amp after.joint piece_closing.joint after.completes
        piece_closing.completes after.leaves h
      rw [Digest.after_append] at both
      rw [both, List.drop_append_of_le_length (by rw [sync.complete]; decide), sockets] at twice
      have mem : a.logPath ∈ a.socketStrings ++ [normalize a.logPath, normalize a.logPath] :=
        List.count_pos_iff.mp (Nat.lt_of_lt_of_le Nat.zero_lt_two twice)
      rcases List.mem_append.mp mem with socket | value
      · exact others socket
      · have same : normalize a.logPath = a.logPath := by
          simp only [List.mem_cons, List.not_mem_nil, or_false, or_self] at value
          exact value.symm
        rw [same] at lt amp free
        exact marked ⟨lt, amp, normalize_eq_self_iff.mp same, free⟩
    · obtain ⟨more, grown⟩ := Digest.prefix_after g es₁
      have longer := congrArg List.length grown
      rw [List.length_append, sync.complete] at longer
      refine once (fun j from_ here => ?_) fun from_ here => ?_
      · by_cases socket : j < 15
        · rw [← grown, List.getElem?_append_left (by rw [sync.complete]; exact socket)] at here
          have dropped : (g.complete.drop 11)[j - 11]? = some a.logPath := by
            rw [List.getElem?_drop, Nat.add_sub_cancel' from_]
            exact here
          rw [sockets] at dropped
          exact others (List.mem_of_getElem? dropped)
        · have less := short.complete j _ (Nat.le_of_not_lt socket) here
          omega
      · have less := short.current (by omega) _ here
        omega

/-- **One value after the other.**  A value is read as it is and the next one is to be read; or
the next one is still to come after the piece behind it. -/
theorem stage {i : ℕ} {m m' : Mode} {g : Digest} {v t rest : List Char} {es : List Event}
    {wanted own : List (List Char)} (here : g.complete.length < i ∨ InSync i m g)
    (le : ∀ n, g.inArray = some n → n ≤ g.complete.length) (piece : Piece t own (some []))
    (h : run m (normalize v ++ (t ++ rest)) = some (m', es)) (want : wanted[i]? = some v)
    (final : (g.after es).complete = wanted) :
    ∃ m₁ g₁ es₁, run m₁ rest = some (m', es₁) ∧ g.after es = Digest.after g₁ es₁ ∧
      (∀ n, g₁.inArray = some n → n ≤ g₁.complete.length) ∧
      (g₁.complete.length < i + 1 + own.length ∨
        Verbatim v ∧ InSync i m g ∧ InSync (i + 1 + own.length) m₁ g₁) := by
  rw [← List.append_assoc] at h
  obtain ⟨m₁, es₁, es₂, front, back, rfl⟩ := run_append_eq_some.mp h
  refine ⟨m₁, g.after es₁, es₂, back, Digest.after_append g es₁ es₂, Digest.inArray_le le es₁, ?_⟩
  have begins : (g.after es₁).complete <+: wanted := by
    rw [← final, Digest.after_append]
    exact Digest.prefix_after _ es₂
  rcases readAs_or_behind here piece.joint piece.completes front want begins with read | behind
  · exact Or.inr ⟨read.verbatim, read.before, read.next piece.completes piece.leaves⟩
  · exact Or.inl behind

/-- **Only such values survive.** -/
theorem plain_of_survives {a : LaunchAgent} (survives : a.Survives a.text) : a.Plain := by
  obtain ⟨⟨es, reads, -⟩, entries, said, starts⟩ := survives
  obtain ⟨-, n, r₀, ran, split⟩ := events_text_eq_some.mp reads
  rw [split] at reads
  obtain ⟨others, final, twice, array⟩ := strings_of_said said starts reads
  have sync : InSync 1 (.text 0) ⟨["io.puma.dev".toList], some [], none⟩ := ⟨rfl, rfl, rfl⟩
  have le : ∀ n, Digest.inArray ⟨["io.puma.dev".toList], some [], none⟩ = some n →
      n ≤ (Digest.complete ⟨["io.puma.dev".toList], some [], none⟩).length := by
    intro n h
    cases h
  rw [body] at ran
  -- the first four values, as far as they can be told from what comes behind them
  obtain ⟨m₁, g₁, r₁, ran₁, same₁, le₁, here₁⟩ :=
    stage (Or.inr sync) le piece_afterBinPath ran rfl final
  rw [same₁] at final array
  obtain ⟨m₂, g₂, r₂, ran₂, same₂, le₂, here₂⟩ :=
    stage (here₁.imp_right fun h => h.2.2) le₁ piece_afterDir ran₁ rfl final
  rw [same₂] at final array
  obtain ⟨m₃, g₃, r₃, ran₃, same₃, le₃, here₃⟩ :=
    stage (here₂.imp_right fun h => h.2.2) le₂ piece_afterDomains ran₂ rfl final
  rw [same₃] at final array
  obtain ⟨m₄, g₄, r₄, ran₄, same₄, le₄, here₄⟩ :=
    stage (here₃.imp_right fun h => h.2.2) le₃ piece_afterTimeout ran₃ rfl final
  rw [same₄] at final array
  -- the last argument
  rw [← List.append_assoc] at ran₄
  obtain ⟨m₅, es₅, r₅, front, ran₅, rfl⟩ := run_append_eq_some.mp ran₄
  rw [Digest.after_append] at final array
  have begins := Digest.prefix_after (g₄.after es₅) r₅
  rw [final] at begins
  have here₅ := a.readAs_or_covered (here₄.imp_right fun h => h.2.2) front rfl begins le₄
    fun k ended => Option.some.inj ((Digest.inArray_after ended r₅).symm.trans array)
  have last : (g₄.after es₅).complete.length < 11 ∨
      InSync 15 m₅ (g₄.after es₅) ∧ (g₄.after es₅).complete.drop 11 = a.socketStrings := by
    rcases here₅ with read | behind
    · refine Or.inr ⟨read.next a.completes_afterPaths a.leaves_afterPaths, ?_⟩
      rw [read.complete a.completes_afterPaths, List.append_cons]
      exact List.drop_left' (by rw [List.length_append, read.before.complete]; rfl)
    · exact Or.inl behind
  obtain ⟨logPath, sync₅⟩ := a.verbatim_of_logPath last ran₅ (by rw [final]; exact twice)
  -- so no value before the path of the log has been left behind
  have read₅ := here₅.resolve_right (by rw [sync₅.complete]; decide)
  have value₄ := here₄.resolve_left (by rw [read₅.before.complete]; decide)
  have value₃ := here₃.resolve_left (by rw [value₄.2.1.complete]; decide)
  have value₂ := here₂.resolve_left (by rw [value₃.2.1.complete]; decide)
  have value₁ := here₁.resolve_left (by rw [value₂.2.1.complete]; decide)
  exact ⟨value₁.1, value₂.1, value₃.1, value₄.1, read₅.verbatim, logPath⟩

/-! ## Installing -/

/-- **Installed settings**: the text that is written is well-formed, starts puma-dev with the
settings and names the path of the log if and only if all of them are plain. -/
theorem installed_iff {os : InstallOs} {config : InstallIntoSystemArgs}
    {binPath logPath plist text : GoString} {err : Option GoError}
    (executable : os.executable = .ok binPath)
    (expanded : Homedir.expand os.homeDir config.logfilePath = .ok logPath)
    (wrote : installIntoSystem os config = .ok (err, some (plist, text)))
    (representable : (ofConfig config binPath logPath).Representable) :
    (ofConfig config binPath logPath).Survives text ↔ (ofConfig config binPath logPath).Plain := by
  rw [text_of_installed executable expanded wrote]
  exact ⟨plain_of_survives, survives_of_plain representable⟩

/-- A system on which nothing fails. -/
def someOs : InstallOs where
  sudoUser := []
  setupOurCert := none
  executable := .ok "/usr/local/bin/puma-dev".toList
  homeDir := .ok "/Users/u".toList
  mkdirAll _ := none
  writeFile _ := none
  launchctlLoad _ := none
  errorsContext err _ := err

/-- The settings of `puma-dev -install`, with this directory. -/
def installWith (dir : GoString) : InstallIntoSystemArgs :=
  installArgs { MainFlags.defaults with dir := dir } "15m0s".toList 80 443

/-- The values that are written then. -/
def someAgent (dir : GoString) : LaunchAgent :=
  ofConfig (installWith dir) "/usr/local/bin/puma-dev".toList
    "/Users/u/Library/Logs/puma-dev.log".toList

theorem expand_someOs (dir : GoString) :
    Homedir.expand someOs.homeDir (installWith dir).logfilePath =
      .ok "/Users/u/Library/Logs/puma-dev.log".toList := by
  show Homedir.expand (.ok "/Users/u".toList) "~/Library/Logs/puma-dev.log".toList = _
  decide +kernel

theorem installed_someOs (dir : GoString) :
    installIntoSystem someOs (installWith dir) = .ok (none,
      some ("/Users/u/Library/LaunchAgents/io.puma.dev.plist".toList, (someAgent dir).text)) := by
  have agents : Homedir.expand (.ok "/Users/u".toList) "~/Library/LaunchAgents".toList =
      .ok "/Users/u/Library/LaunchAgents".toList := by decide +kernel
  have plist : Filepath.join ["/Users/u/Library/LaunchAgents".toList,
      "io.puma.dev.plist".toList] =
        "/Users/u/Library/LaunchAgents/io.puma.dev.plist".toList := by decide +kernel
  show (Homedir.expand someOs.homeDir (installWith dir).logfilePath >>= fun logPath =>
    Homedir.expand (.ok "/Users/u".toList) "~/Library/LaunchAgents".toList >>= _) = _
  rw [expand_someOs, agents, ← plist]
  rfl

theorem representable_someAgent {dir : GoString} (chars : dir.all isChar = true) :
    (someAgent dir).Representable :=
  ⟨rfl, chars, rfl, rfl, rfl, rfl⟩

/-- With its default settings puma-dev is installed as it should be. -/
theorem installed_iff_default : (someAgent "~/.puma-dev".toList).Survives
    (someAgent "~/.puma-dev".toList).text :=
  (installed_iff rfl (expand_someOs _) (installed_someOs _)
    (representable_someAgent (by decide))).mpr
      ⟨by decide, by decide, by decide, by decide, by decide, by decide⟩

/-- **An ampersand in the path of the directory**: the settings do not survive. -/
theorem installed_ampersand : ¬ ∀ (os : InstallOs) (config : InstallIntoSystemArgs)
    (binPath logPath plist text : GoString) (err : Option GoError),
    os.executable = .ok binPath →
    Homedir.expand os.homeDir config.logfilePath = .ok logPath →
    installIntoSystem os config = .ok (err, some (plist, text)) →
    (ofConfig config binPath logPath).Representable →
    (ofConfig config binPath logPath).Survives text := by
  intro always
  have survives := always someOs (installWith "/Users/u/R&D".toList) _ _ _ _ _ rfl
    (expand_someOs _) (installed_someOs _) (representable_someAgent (by decide))
  exact (plain_of_survives survives).dir.amp (by decide)

end LaunchAgent

end PumaDev
