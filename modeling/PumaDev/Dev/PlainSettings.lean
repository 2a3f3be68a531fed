import PumaDev.Dev.LaunchAgentText

/-!
# Plain settings

Values in which nothing means something else in XML are read from the launch agent as they are.
`Lays` is what each piece of the text contributes; the document is then put together from the
pieces and the values.
-/

namespace PumaDev

open Xml Plist

namespace LaunchAgent

/-- Every value is a text that XML leaves as it is. -/
structure Plain (a : LaunchAgent) : Prop where
  binPath : Verbatim a.binPath
  dir : Verbatim a.dir
  domains : Verbatim a.domains
  timeout : Verbatim a.timeout
  noServePublicPaths : Verbatim a.noServePublicPaths
  logPath : Verbatim a.logPath

/-- Every value is made of characters that a document can have. -/
structure Representable (a : LaunchAgent) : Prop where
  binPath : a.binPath.all isChar = true
  dir : a.dir.all isChar = true
  domains : a.domains.all isChar = true
  timeout : a.timeout.all isChar = true
  noServePublicPaths : a.noServePublicPaths.all isChar = true
  logPath : a.logPath.all isChar = true

/-! ## The pieces -/

/-- The elements around an argument. -/
def inArguments : List Name :=
  ["string".toList, "array".toList, "dict".toList, "plist".toList]

/-- The elements around a port. -/
def inSocket : List Name :=
  ["string".toList, "dict".toList, "dict".toList, "dict".toList, "plist".toList]

/-- The elements around the path of the log. -/
def inAgent : List Name := ["string".toList, "dict".toList, "plist".toList]

/-- The opening leads to the first argument. -/
theorem opens_arguments :
    nests (.prolog, []) openingEvents = some (.body, inArguments) ∧
    significant false openingEvents =
      .start "plist".toList :: .start "dict".toList :: (textElement "key".toList "Label".toList ++
        (encode (.string "io.puma.dev".toList) ++
          (textElement "key".toList "ProgramArguments".toList ++
            [.start "array".toList, .start "string".toList]))) ∧
    inText false openingEvents = true := by
  rw [openingEvents, declared]
  repeat rw [lines_ofList]
  decide +kernel

/-- What is significant up to the path of the program. -/
theorem significant_openingEvents (es : List Event) :
    significant false (openingEvents ++ es) =
      .start "plist".toList :: .start "dict".toList :: (textElement "key".toList "Label".toList ++
        (encode (.string "io.puma.dev".toList) ++
          (textElement "key".toList "ProgramArguments".toList ++
            (.start "array".toList :: .start "string".toList :: significant true es)))) := by
  obtain ⟨-, front, inside⟩ := opens_arguments
  rw [significant_append, front, inside]
  simp only [List.cons_append, List.append_assoc, List.nil_append, -String.reduceToList]

/-- A piece between two values: the elements that are open before it and behind it, and its
significant events. -/
structure Lays (t : List Char) (before behind : List Name) (es : List Event) : Prop where
  nests : nests (.body, before) (eventsOf (.text 0) t) = some (.body, behind)
  significant : significant true (eventsOf (.text 0) t) = es
  text : inText true (eventsOf (.text 0) t) = true

instance (t : List Char) (before behind : List Name) (es : List Event) :
    Decidable (Lays t before behind es) :=
  decidable_of_iff (Xml.nests (.body, before) (eventsOf (.text 0) t) = some (.body, behind) ∧
      Plist.significant true (eventsOf (.text 0) t) = es ∧
      inText true (eventsOf (.text 0) t) = true)
    ⟨fun h => ⟨h.1, h.2.1, h.2.2⟩, fun h => ⟨h.nests, h.significant, h.text⟩⟩

/-- **The pieces**, in their order. -/
theorem lays_pieces :
    Lays afterBinPath inArguments inArguments
      (.stop "string".toList :: (encode (.string "-launchd".toList) ++
        (encode (.string "-dir".toList) ++ [.start "string".toList]))) ∧
    Lays afterDir inArguments inArguments
      (.stop "string".toList :: (encode (.string "-d".toList) ++ [.start "string".toList])) ∧
    Lays afterDomains inArguments inArguments
      (.stop "string".toList :: (encode (.string "-timeout".toList) ++
        [.start "string".toList])) ∧
    Lays afterTimeout inArguments inArguments
      (.stop "string".toList :: (encode (.string "-no-serve-public-paths".toList) ++
        [.start "string".toList])) ∧
    Lays beforeListenPort inArguments inSocket
      (.stop "string".toList :: .stop "array".toList ::
        (encodeEntries [("KeepAlive".toList, .bool true), ("RunAtLoad".toList, .bool true)] ++
          (textElement "key".toList "Sockets".toList ++ (.start "dict".toList ::
            (textElement "key".toList "Socket".toList ++ (.start "dict".toList ::
              (encodeEntries [("SockNodeName".toList, .string "0.0.0.0".toList)] ++
                (textElement "key".toList "SockServiceName".toList ++
                  [.start "string".toList])))))))) ∧
    Lays beforeTlsPort inSocket inSocket
      (.stop "string".toList :: .stop "dict".toList ::
        (textElement "key".toList "SocketTLS".toList ++ (.start "dict".toList ::
          (encodeEntries [("SockNodeName".toList, .string "0.0.0.0".toList)] ++
            (textElement "key".toList "SockServiceName".toList ++ [.start "string".toList]))))) ∧
    Lays beforeLogPath inSocket inAgent
      (.stop "string".toList :: .stop "dict".toList :: .stop "dict".toList ::
        (textElement "key".toList "StandardOutPath".toList ++ [.start "string".toList])) ∧
    Lays afterLogPath inAgent inAgent
      (.stop "string".toList ::
        (textElement "key".toList "StandardErrorPath".toList ++ [.start "string".toList])) := by
  rw [afterBinPath, afterDir, afterDomains, afterTimeout, beforeListenPort, beforeTlsPort,
    beforeLogPath, afterLogPath]
  repeat rw [lines_ofList]
  decide +kernel

/-- The end closes what is open. -/
theorem closes_agent :
    nests (.body, inAgent) (eventsOf (.text 0) closing) = some (.body, []) ∧
    significant true (eventsOf (.text 0) closing) =
      [.stop "string".toList, .stop "dict".toList, .stop "plist".toList] := by
  rw [closing]
  repeat rw [lines_ofList]
  decide +kernel

/-- The elements around a value and the piece behind it. -/
theorem Lays.nests_append {t : List Char} {before behind : List Name} {es : List Event}
    (lays : Lays t before behind es) (inside : before ≠ []) (v : List Char) (rest : List Event) :
    Xml.nests (.body, before) (v.map .char ++ (eventsOf (.text 0) t ++ rest)) =
      Xml.nests (.body, behind) rest := by
  rw [Xml.nests_append, nests_chars inside, Option.bind_some, Xml.nests_append, lays.nests,
    Option.bind_some]

/-- What is significant in a value and the piece behind it. -/
theorem Lays.significant_append {t : List Char} {before behind : List Name} {es : List Event}
    (lays : Lays t before behind es) (v : List Char) (rest : List Event) :
    Plist.significant true (v.map .char ++ (eventsOf (.text 0) t ++ rest)) =
      v.map .char ++ (es ++ Plist.significant true rest) := by
  rw [significant_chars, Plist.significant_append, lays.significant, lays.text]

/-! ## The document -/

/-- The events behind the opening, if the values are read as they are. -/
def bodyEvents (a : LaunchAgent) : List Event :=
  a.binPath.map .char ++ (eventsOf (.text 0) afterBinPath ++ (a.dir.map .char ++
    (eventsOf (.text 0) afterDir ++ (a.domains.map .char ++ (eventsOf (.text 0) afterDomains ++
      (a.timeout.map .char ++ (eventsOf (.text 0) afterTimeout ++
        (a.noServePublicPaths.map .char ++ (a.afterPathsEvents ++ (a.logPath.map .char ++
          (eventsOf (.text 0) afterLogPath ++ (a.logPath.map .char ++
            eventsOf (.text 0) closing))))))))))))

/-- The entries of the property list. -/
def entries (a : LaunchAgent) : List (GoString × Plist) :=
  [("Label".toList, .string "io.puma.dev".toList),
    ("ProgramArguments".toList, .array (a.programArguments.map .string)),
    ("KeepAlive".toList, .bool true),
    ("RunAtLoad".toList, .bool true),
    ("Sockets".toList, .dict
      [("Socket".toList, .dict
        [("SockNodeName".toList, .string "0.0.0.0".toList),
          ("SockServiceName".toList, .string (Strconv.itoa a.listenPort))]),
      ("SocketTLS".toList, .dict
        [("SockNodeName".toList, .string "0.0.0.0".toList),
          ("SockServiceName".toList, .string (Strconv.itoa a.tlsPort))])]),
    ("StandardOutPath".toList, .string a.logPath),
    ("StandardErrorPath".toList, .string a.logPath)]

/-- The text behind the opening is read as it is. -/
theorem run_body {a : LaunchAgent} (plain : a.Plain) :
    run (.text 0) a.body = some (.text 0, a.bodyEvents) := by
  have value : ∀ {v t : List Char} {es : List Event}, Verbatim v → Joint t es →
      ∀ rest, run (.text 0) (normalize v ++ (t ++ rest)) =
        (run (.text 0) rest).map fun there => (there.1, v.map .char ++ (es ++ there.2)) := by
    intro v t es verbatim joint rest
    obtain ⟨k, ran⟩ := verbatim.run
    rw [normalize_eq_self_iff.mpr verbatim.cr, run_append_of_run ran,
      run_append_of_run (joint.run_text k), Option.map_map]
    rfl
  have last : run (.text 0) (normalize a.logPath ++ closing) =
      some (.text 0, a.logPath.map .char ++ eventsOf (.text 0) closing) := by
    have whole := value plain.logPath piece_closing.joint []
    rw [List.append_nil] at whole
    rw [whole, run_nil, Option.map_some, List.append_nil]
  rw [body, value plain.binPath piece_afterBinPath.joint, value plain.dir piece_afterDir.joint,
    value plain.domains piece_afterDomains.joint, value plain.timeout piece_afterTimeout.joint,
    value plain.noServePublicPaths a.joint_afterPaths,
    value plain.logPath piece_afterLogPath.joint, last]
  rfl

/-- The document is one element. -/
theorem nested_bodyEvents (a : LaunchAgent) : Nested (openingEvents ++ a.bodyEvents) := by
  have ends : nests (.body, inAgent) (a.logPath.map .char ++ eventsOf (.text 0) closing) =
      some (.body, []) := by
    rw [nests_append, nests_chars (by decide), Option.bind_some, closes_agent.1]
  have inside : inArguments ≠ [] := List.cons_ne_nil _ _
  have socket : inSocket ≠ [] := List.cons_ne_nil _ _
  have agent : inAgent ≠ [] := List.cons_ne_nil _ _
  obtain ⟨binPath, dir, domains, timeout, listenPort, tlsPort, stdoutPath, stderrPath⟩ :=
    lays_pieces
  rw [Nested, nests_append, opens_arguments.1, Option.bind_some, bodyEvents, afterPathsEvents]
  simp only [List.append_assoc]
  rw [binPath.nests_append inside, dir.nests_append inside, domains.nests_append inside,
    timeout.nests_append inside, listenPort.nests_append inside, tlsPort.nests_append socket,
    stdoutPath.nests_append socket, stderrPath.nests_append agent, ends]

/-- What the document is made of. -/
theorem significant_bodyEvents (a : LaunchAgent) :
    significant false (openingEvents ++ a.bodyEvents) =
      element "plist".toList (encode (.dict a.entries)) := by
  have ends : significant true (a.logPath.map .char ++ eventsOf (.text 0) closing) =
      a.logPath.map .char ++
        [.stop "string".toList, .stop "dict".toList, .stop "plist".toList] := by
    rw [significant_chars, closes_agent.2]
  obtain ⟨binPath, dir, domains, timeout, listenPort, tlsPort, stdoutPath, stderrPath⟩ :=
    lays_pieces
  rw [significant_openingEvents, bodyEvents, afterPathsEvents]
  simp only [List.append_assoc]
  rw [binPath.significant_append, dir.significant_append, domains.significant_append,
    timeout.significant_append, listenPort.significant_append, tlsPort.significant_append,
    stdoutPath.significant_append, stderrPath.significant_append, ends]
  simp only [entries, programArguments, encode_leaf, encode_bool, encode_array, encode_dict,
    encodeItems_cons, encodeItems_nil, encodeEntries_cons, encodeEntries_nil, textElement, element,
    Kind.name_string, List.map_cons, List.map_nil, List.cons_append, List.append_assoc, List.nil_append,
    List.append_nil, if_true, -String.reduceToList]

/-- Every character of the text may stand in a document. -/
theorem all_isChar_text {a : LaunchAgent} (representable : a.Representable) :
    a.text.all isChar = true := by
  have pieces : (["<?xml ".toList, declared, afterBinPath, afterDir, afterDomains, afterTimeout,
      beforeListenPort, beforeTlsPort, beforeLogPath, afterLogPath, closing].all fun t =>
        t.all isChar) = true := by
    rw [declared, afterBinPath, afterDir, afterDomains, afterTimeout, beforeListenPort,
      beforeTlsPort, beforeLogPath, afterLogPath, closing]
    repeat rw [lines_ofList]
    decide +kernel
  have port : ∀ n : ℤ, (Strconv.itoa n).all isChar = true := by
    intro n
    rw [List.all_eq_true]
    intro c mem
    rcases digits_of_mem_itoa c mem with rfl | digit
    · rfl
    · obtain ⟨least, most⟩ := Char.isDigit_iff_toNat.mp digit
      have inside : 0x20 ≤ c.toNat ∧ c.toNat ≤ 0xD7FF :=
        ⟨Nat.le_trans (by decide) least, Nat.le_trans most (by decide)⟩
      simp [isChar, within, inside]
  simp only [List.all_cons, List.all_nil, Bool.and_eq_true, -String.reduceToList] at pieces
  rw [text_eq, afterPaths]
  simp only [List.all_append, Bool.and_eq_true, port, pieces, representable.binPath,
    representable.dir, representable.domains, representable.timeout,
    representable.noServePublicPaths, representable.logPath, and_self, -String.reduceToList]

/-- The entries start puma-dev as it is meant to be started. -/
theorem starts_entries (a : LaunchAgent) : a.Starts a.entries where
  arguments := rfl
  settings argv same := by
    have found : some (Plist.array (a.programArguments.map .string)) =
        some (.array (argv.map .string)) := same
    have strings := Plist.array.inj (Option.some.inj found)
    have injective : Function.Injective Plist.string := fun s t h => (Plist.leaf.inj h).2
    rw [← List.map_injective_iff.mpr injective strings, parse_programArguments]
  stdoutPath := rfl
  stderrPath := rfl

/-- **Plain values survive.** -/
theorem survives_of_plain {a : LaunchAgent} (representable : a.Representable) (plain : a.Plain) :
    a.Survives a.text := by
  have reads : events a.text = some (openingEvents ++ a.bodyEvents) :=
    events_text_eq_some.mpr ⟨all_isChar_text representable, 0, _, run_body plain, rfl⟩
  have nested := nested_bodyEvents a
  exact ⟨⟨_, reads, nested⟩, a.entries, ⟨_, reads, nested, significant_bodyEvents a⟩,
    starts_entries a⟩

end LaunchAgent

end PumaDev
