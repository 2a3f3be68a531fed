import PumaDev.Dev.LaunchAgent

/-!
# The text of the launch agent

The text between the values, piece by piece, and what each piece is read as.  A piece begins
with the tag that ends a value; so it is read in the same way behind every value, or is covered
by what the values before it have opened.
-/

namespace PumaDev

open Xml Plist

namespace LaunchAgent

/-! ## The text between the values -/

/-- Up to the path of the program, behind the `<?xml` of the declaration. -/
def declared : List Char :=
  lines ["version=\"1.0\" encoding=\"UTF-8\"?>\n",
    "<!DOCTYPE plist PUBLIC \"-//Apple//DTD PLIST 1.0//EN\" ",
    "\"http://www.apple.com/DTDs/PropertyList-1.0.dtd\">\n",
    "<plist version=\"1.0\">\n",
    "<dict>\n",
    "   <key>Label</key>\n",
    "   <string>io.puma.dev</string>\n",
    "   <key>ProgramArguments</key>\n",
    "   <array>\n",
    "     <string>"]

/-- From the program to the directory. -/
def afterBinPath : List Char :=
  lines ["</string>\n",
    "     <string>-launchd</string>\n",
    "     <string>-dir</string>\n",
    "     <string>"]

/-- From the directory to the domains. -/
def afterDir : List Char :=
  lines ["</string>\n",
    "     <string>-d</string>\n",
    "     <string>"]

/-- From the domains to the timeout. -/
def afterDomains : List Char :=
  lines ["</string>\n",
    "     <string>-timeout</string>\n",
    "     <string>"]

/-- From the timeout to the ignored paths. -/
def afterTimeout : List Char :=
  lines ["</string>\n",
    "     <string>-no-serve-public-paths</string>\n",
    "     <string>"]

/-- From the ignored paths to the first port. -/
def beforeListenPort : List Char :=
  lines ["</string>\n",
    "   </array>\n",
    "   <key>KeepAlive</key>\n",
    "   <true/>\n",
    "   <key>RunAtLoad</key>\n",
    "   <true/>\n",
    "   <key>Sockets</key>\n",
    "   <dict>\n",
    "       <key>Socket</key>\n",
    "       <dict>\n",
    "           <key>SockNodeName</key>\n",
    "           <string>0.0.0.0</string>\n",
    "           <key>SockServiceName</key>\n",
    "           <string>"]

/-- From the first port to the second. -/
def beforeTlsPort : List Char :=
  lines ["</string>\n",
    "       </dict>\n",
    "       <key>SocketTLS</key>\n",
    "       <dict>\n",
    "           <key>SockNodeName</key>\n",
    "           <string>0.0.0.0</string>\n",
    "           <key>SockServiceName</key>\n",
    "           <string>"]

/-- From the second port to the first path of the log. -/
def beforeLogPath : List Char :=
  lines ["</string>\n",
    "       </dict>\n",
    "   </dict>\n",
    "   <key>StandardOutPath</key>\n",
    "   <string>"]

/-- From the first path of the log to the second. -/
def afterLogPath : List Char :=
  lines ["</string>\n",
    "   <key>StandardErrorPath</key>\n",
    "   <string>"]

/-- The end. -/
def closing : List Char :=
  lines ["</string>\n",
    "</dict>\n",
    "</plist>\n"]

/-- From the ignored paths to the path of the log. -/
def afterPaths (a : LaunchAgent) : List Char :=
  beforeListenPort ++ (Strconv.itoa a.listenPort ++ (beforeTlsPort ++
    (Strconv.itoa a.tlsPort ++ beforeLogPath)))

/-- **The text, piece by piece.** -/
theorem text_eq (a : LaunchAgent) :
    a.text = "<?xml ".toList ++ (declared ++ (a.binPath ++ (afterBinPath ++ (a.dir ++
      (afterDir ++ (a.domains ++ (afterDomains ++ (a.timeout ++ (afterTimeout ++
        (a.noServePublicPaths ++ (a.afterPaths ++ (a.logPath ++ (afterLogPath ++
          (a.logPath ++ closing)))))))))))))) := by
  have opening : lines ["<?xml version=\"1.0\" encoding=\"UTF-8\"?>\n",
      "<!DOCTYPE plist PUBLIC \"-//Apple//DTD PLIST 1.0//EN\" ",
      "\"http://www.apple.com/DTDs/PropertyList-1.0.dtd\">\n",
      "<plist version=\"1.0\">\n",
      "<dict>\n",
      "   <key>Label</key>\n",
      "   <string>io.puma.dev</string>\n",
      "   <key>ProgramArguments</key>\n",
      "   <array>\n",
      "     <string>"] = "<?xml ".toList ++ declared := by
    have xml : "<?xml ".toList = ['<', '?', 'x', 'm', 'l', ' '] := by decide
    rw [declared, xml]
    repeat rw [lines_ofList]
    rfl
  have pieces : a.text = lines ["<?xml version=\"1.0\" encoding=\"UTF-8\"?>\n",
      "<!DOCTYPE plist PUBLIC \"-//Apple//DTD PLIST 1.0//EN\" ",
      "\"http://www.apple.com/DTDs/PropertyList-1.0.dtd\">\n",
      "<plist version=\"1.0\">\n",
      "<dict>\n",
      "   <key>Label</key>\n",
      "   <string>io.puma.dev</string>\n",
      "   <key>ProgramArguments</key>\n",
      "   <array>\n",
      "     <string>"] ++ a.binPath ++ afterBinPath ++ a.dir ++ afterDir ++ a.domains ++
      afterDomains ++ a.timeout ++ afterTimeout ++ a.noServePublicPaths ++ beforeListenPort ++
      Strconv.itoa a.listenPort ++ beforeTlsPort ++ Strconv.itoa a.tlsPort ++ beforeLogPath ++
      a.logPath ++ afterLogPath ++ a.logPath ++ closing := rfl
  rw [pieces, opening]
  simp only [afterPaths, List.append_assoc, -String.reduceToList]

/-! ### What it is read as -/

/-- The events of a text. -/
def eventsOf (m : Mode) (t : List Char) : List Event := (run m t).elim [] Prod.snd

/-- A piece of the text: what it completes, and what it leaves open. -/
structure Piece (t : List Char) (own : List (List Char)) (current : Option (List Char)) :
    Prop where
  joint : Joint t (eventsOf (.text 0) t)
  completes : Completes (eventsOf (.text 0) t) own
  leaves : Leaves (eventsOf (.text 0) t) current

/-- What is to be checked of a piece. -/
def isPiece (t : List Char) (own : List (List Char)) (current : Option (List Char)) : Bool :=
  t.head? = some '<' && inert '<' t.tail && t.all (· ≠ '\r') &&
    match run (.text 0) t with
    | some (.text 0, .stop n :: es) =>
        let g := Digest.empty.after es
        n = "string".toList && g.complete = own && g.current = current
    | _ => false

theorem piece_of_isPiece {t : List Char} {own : List (List Char)} {current : Option (List Char)}
    (h : isPiece t own current = true) : Piece t own current := by
  simp only [isPiece, Bool.and_eq_true, decide_eq_true_eq, List.all_eq_true] at h
  obtain ⟨⟨⟨tag, stays⟩, cr⟩, rest⟩ := h
  split at rest
  · next n es ran =>
      simp only [Bool.and_eq_true, decide_eq_true_eq] at rest
      obtain ⟨⟨rfl, completes⟩, leaves⟩ := rest
      have events : eventsOf (.text 0) t = .stop "string".toList :: es := by
        rw [eventsOf, ran]
        rfl
      refine ⟨⟨tag, stays, fun mem => cr _ mem rfl, ?_⟩, ?_, ?_⟩
      · rw [events, ran]
      · rw [events]
        exact completes_of_after completes
      · rw [events]
        exact leaves_of_after leaves
  · cases rest

/-- The pieces have been checked. -/
theorem arePieces :
    isPiece afterBinPath ["-launchd".toList, "-dir".toList] (some []) = true ∧
    isPiece afterDir ["-d".toList] (some []) = true ∧
    isPiece afterDomains ["-timeout".toList] (some []) = true ∧
    isPiece afterTimeout ["-no-serve-public-paths".toList] (some []) = true ∧
    isPiece beforeListenPort ["0.0.0.0".toList] (some []) = true ∧
    isPiece beforeTlsPort ["0.0.0.0".toList] (some []) = true ∧
    isPiece beforeLogPath [] (some []) = true ∧
    isPiece afterLogPath [] (some []) = true ∧
    isPiece closing [] none = true := by
  rw [afterBinPath, afterDir, afterDomains, afterTimeout, beforeListenPort, beforeTlsPort,
    beforeLogPath, afterLogPath, closing]
  repeat rw [lines_ofList]
  decide +kernel

theorem piece_afterBinPath : Piece afterBinPath ["-launchd".toList, "-dir".toList] (some []) :=
  piece_of_isPiece arePieces.1

theorem piece_afterDir : Piece afterDir ["-d".toList] (some []) := piece_of_isPiece arePieces.2.1

theorem piece_afterDomains : Piece afterDomains ["-timeout".toList] (some []) :=
  piece_of_isPiece arePieces.2.2.1

theorem piece_afterTimeout : Piece afterTimeout ["-no-serve-public-paths".toList] (some []) :=
  piece_of_isPiece arePieces.2.2.2.1

theorem piece_beforeListenPort : Piece beforeListenPort ["0.0.0.0".toList] (some []) :=
  piece_of_isPiece arePieces.2.2.2.2.1

theorem piece_beforeTlsPort : Piece beforeTlsPort ["0.0.0.0".toList] (some []) :=
  piece_of_isPiece arePieces.2.2.2.2.2.1

theorem piece_beforeLogPath : Piece beforeLogPath [] (some []) :=
  piece_of_isPiece arePieces.2.2.2.2.2.2.1

theorem piece_afterLogPath : Piece afterLogPath [] (some []) :=
  piece_of_isPiece arePieces.2.2.2.2.2.2.2.1

theorem piece_closing : Piece closing [] none := piece_of_isPiece arePieces.2.2.2.2.2.2.2.2

/-- A port is a number. -/
theorem digits_of_mem_itoa {n : ℤ} : ∀ c ∈ Strconv.itoa n, c = '-' ∨ c.isDigit = true := by
  have digits : ∀ k : ℕ, ∀ c ∈ Nat.toDigits 10 k, c.isDigit = true := fun k c mem =>
    Nat.isDigit_of_mem_toDigits (by decide) (by decide) mem
  intro c mem
  cases n with
  | ofNat k => exact Or.inr (digits k c mem)
  | negSucc k =>
      rcases List.mem_cons.mp mem with rfl | later
      · exact Or.inl rfl
      · exact Or.inr (digits _ c later)

/-- The events from the ignored paths to the path of the log. -/
def afterPathsEvents (a : LaunchAgent) : List Event :=
  eventsOf (.text 0) beforeListenPort ++ ((Strconv.itoa a.listenPort).map .char ++
    (eventsOf (.text 0) beforeTlsPort ++ ((Strconv.itoa a.tlsPort).map .char ++
      eventsOf (.text 0) beforeLogPath)))

/-- The strings between the ignored paths and the path of the log. -/
def socketStrings (a : LaunchAgent) : List GoString :=
  ["0.0.0.0".toList, Strconv.itoa a.listenPort, "0.0.0.0".toList, Strconv.itoa a.tlsPort]

theorem joint_afterPaths (a : LaunchAgent) : Joint a.afterPaths a.afterPathsEvents :=
  piece_beforeListenPort.joint.append
    (piece_beforeTlsPort.joint.append piece_beforeLogPath.joint digits_of_mem_itoa)
    digits_of_mem_itoa

theorem completes_afterPaths (a : LaunchAgent) :
    Completes a.afterPathsEvents a.socketStrings :=
  piece_beforeListenPort.completes.append piece_beforeListenPort.leaves
    (piece_beforeTlsPort.completes.append piece_beforeTlsPort.leaves
      piece_beforeLogPath.completes _) _

theorem leaves_afterPaths (a : LaunchAgent) : Leaves a.afterPathsEvents (some []) :=
  (((piece_beforeLogPath.leaves.append _).append _).append _).append _

/-- The array ends first. -/
theorem arrayEnd_afterPaths (a : LaunchAgent) : ∃ rest, a.afterPathsEvents =
    .stop "string".toList :: ("\n   ".toList.map .char ++ .stop "array".toList :: rest) := by
  have front : .stop "string".toList :: ("\n   ".toList.map .char ++
      [.stop "array".toList]) <+: eventsOf (.text 0) beforeListenPort := by
    rw [beforeListenPort]
    repeat rw [lines_ofList]
    decide +kernel
  obtain ⟨rest, whole⟩ := front
  refine ⟨rest ++ ((Strconv.itoa a.listenPort).map .char ++
    (eventsOf (.text 0) beforeTlsPort ++ ((Strconv.itoa a.tlsPort).map .char ++
      eventsOf (.text 0) beforeLogPath))), ?_⟩
  rw [afterPathsEvents, ← whole]
  simp only [List.cons_append, List.append_assoc, List.nil_append, -String.reduceToList]

/-- The strings of the arguments are complete then, and no others. -/
theorem inArray_afterPaths (a : LaunchAgent) {g : Digest} (first : g.inArray = none) :
    (g.after a.afterPathsEvents).inArray = some (g.complete ++ g.current.toList).length := by
  obtain ⟨rest, split⟩ := arrayEnd_afterPaths a
  rw [split, Digest.after_cons, Digest.after_append, Digest.after_chars, Digest.after_cons]
  refine Digest.inArray_after ?_ rest
  show (g.inArray <|> some (g.complete ++ g.current.toList).length) = _
  rw [first]
  rfl

/-! ### The whole text -/

/-- The events up to the path of the program. -/
def openingEvents : List Event := eventsOf (.instruction false) declared

/-- The opening has been checked. -/
theorem opening_checked :
    (run (.instruction false) declared).map Prod.fst = some (.text 0) ∧
    Digest.empty.after openingEvents = ⟨["io.puma.dev".toList], some [], none⟩ ∧
    '\r' ∉ declared := by
  rw [openingEvents, declared]
  repeat rw [lines_ofList]
  decide +kernel

theorem run_declared :
    run (.instruction false) declared = some (.text 0, openingEvents) := by
  have mode := opening_checked.1
  obtain ⟨p, ran, first⟩ := Option.map_eq_some_iff.mp mode
  rw [openingEvents, eventsOf, ran, ← first]
  rfl

theorem after_openingEvents :
    Digest.empty.after openingEvents = ⟨["io.puma.dev".toList], some [], none⟩ :=
  opening_checked.2.1

/-- The text behind the opening, with its lines normalized. -/
def body (a : LaunchAgent) : List Char :=
  normalize a.binPath ++ (afterBinPath ++ (normalize a.dir ++ (afterDir ++
    (normalize a.domains ++ (afterDomains ++ (normalize a.timeout ++ (afterTimeout ++
      (normalize a.noServePublicPaths ++ (a.afterPaths ++ (normalize a.logPath ++
        (afterLogPath ++ (normalize a.logPath ++ closing))))))))))))

theorem normalize_text (a : LaunchAgent) :
    normalize a.text = "<?xml ".toList ++ (declared ++ a.body) := by
  have xml : '\r' ∉ "<?xml ".toList := by decide
  have opening : '\r' ∉ declared := opening_checked.2.2
  have last : normalize (a.logPath ++ closing) = normalize a.logPath ++ closing := by
    have whole := piece_closing.joint.normalize a.logPath []
    rw [List.append_nil] at whole
    exact whole
  rw [text_eq]
  show normalizeFrom false _ = _
  rw [normalizeFrom_append_of_notMem xml, normalizeFrom_append_of_notMem opening]
  show _ ++ (_ ++ normalize _) = _
  rw [piece_afterBinPath.joint.normalize, piece_afterDir.joint.normalize,
    piece_afterDomains.joint.normalize, piece_afterTimeout.joint.normalize,
    a.joint_afterPaths.normalize, piece_afterLogPath.joint.normalize, last]
  rfl

/-- **The document is read as its body** behind the opening. -/
theorem events_text_eq_some {a : LaunchAgent} {es : List Event} :
    events a.text = some es ↔ a.text.all isChar = true ∧
      ∃ n es', run (.text 0) a.body = some (.text n, es') ∧ es = openingEvents ++ es' := by
  have read : runDocument (normalize a.text) =
      (run (.text 0) a.body).map fun there => (there.1, openingEvents ++ there.2) := by
    rw [normalize_text, ← run_append_of_run run_declared]
    rfl
  rw [events_eq_some, read]
  generalize openingEvents = front
  simp only [Option.map_eq_some_iff, Prod.exists, Prod.mk.injEq]
  constructor
  · rintro ⟨chars, n, m, es', ran, rfl, rfl⟩
    exact ⟨chars, n, es', ran, rfl⟩
  · rintro ⟨chars, n, es', ran, rfl⟩
    exact ⟨chars, n, .text n, es', ran, rfl, rfl⟩

end LaunchAgent

end PumaDev
