import PumaDev.Dev.LookupVariables
import PumaDev.Dev.ProxyFile

/-!
# What a proxy file may hold

`readProxy` checks nothing: it takes what `strconv.Atoi`, `url.Parse` and
`net.SplitHostPort` let through, and all three are lenient.  An empty file is a URL
without a scheme and without a host, every integer is a port, and a host with too many
colons is a host without a port.

`rejects_iff` says for which files nothing is let through that cannot be dialed.  An app
that is let through is cached in the pool; an error is not (`lookupAppWith_of_refused`).
-/

namespace PumaDev

open Url

/-- The text of the port in a host and port: behind the last colon, unless that is
inside brackets. -/
def portText (hostPort : GoString) : Option GoString :=
  match Strings.lastIndexByte hostPort ':' with
  | none => none
  | some i => if ']' ∈ hostPort.drop i then none else some (hostPort.drop (i + 1))

/-- The number of a port. -/
def IsPort (n : ℤ) : Prop := 1 ≤ n ∧ n ≤ 65535

instance (n : ℤ) : Decidable (IsPort n) := inferInstanceAs (Decidable (_ ∧ _))

/-- There is no port in a text: it is no number, and a URL without a port. -/
def NoPort (t : GoString) : Prop :=
  (∃ e, Strconv.atoi t = .error e) ∧ ∃ url, parse t = .ok url ∧ portText url.host = none

/-- The app can be dialed: a scheme of the web, a host, and a port, unless there is none
in the text. -/
structure Sound (t : GoString) (app : App) : Prop where
  scheme : app.scheme ∈ webSchemes
  host : app.host ≠ []
  port : IsPort app.port ∨ NoPort t

/-- What the trimmed text of a file may be, so that nothing unsound is let through. -/
inductive Checked (t : GoString) : Prop
  /-- The number of a port. -/
  | port (n : ℤ) (number : Strconv.atoi t = .ok n) (isPort : IsPort n)
  /-- Neither a number nor a URL. -/
  | noUrl (e : Strconv.NumError) (notNumber : Strconv.atoi t = .error e)
      (err : GoString × Error) (refused : parse t = .error err)
  /-- A URL with a port that is no number. -/
  | noNumber (e : Strconv.NumError) (notNumber : Strconv.atoi t = .error e) (url : URL)
      (parsed : parse t = .ok url) (host sport : GoString)
      (split : Net.splitHostPort url.host = some (host, sport)) (e' : Strconv.NumError)
      (refused : Strconv.atoi sport = .error e')
  /-- A URL of the web with a host and a port. -/
  | webPort (e : Strconv.NumError) (notNumber : Strconv.atoi t = .error e) (url : URL)
      (parsed : parse t = .ok url) (web : url.scheme ∈ webSchemes) (host sport : GoString)
      (split : Net.splitHostPort url.host = some (host, sport)) (some_ : host ≠ []) (n : ℤ)
      (number : Strconv.atoi sport = .ok n) (isPort : IsPort n)
  /-- A URL of the web with a host and no port. -/
  | webHost (e : Strconv.NumError) (notNumber : Strconv.atoi t = .error e) (url : URL)
      (parsed : parse t = .ok url) (web : url.scheme ∈ webSchemes) (some_ : url.host ≠ [])
      (noPort : portText url.host = none)

/-- What `net.SplitHostPort` splits off is a port. -/
theorem portText_of_splitHostPort {hostPort host sport : GoString}
    (split : Net.splitHostPort hostPort = some (host, sport)) : portText hostPort ≠ none := by
  rw [Net.splitHostPort] at split
  rw [portText]
  cases last : Strings.lastIndexByte hostPort ':' with
  | none => simp [last] at split
  | some i =>
      have closed : ']' ∉ hostPort.drop i := by
        rw [last] at split
        dsimp only at split
        split at split
        · -- in brackets, the colon stands behind the first closing one
          cases first : Strings.indexByte hostPort ']' with
          | none => simp [first] at split
          | some close =>
              rw [first] at split
              dsimp only at split
              split at split
              · cases split
              · next colon =>
                  split at split
                  · cases split
                  · split at split
                    · cases split
                    · next closed =>
                        rw [not_not.mp colon] at closed
                        exact closed
        · split at split
          · cases split
          · split at split
            · cases split
            · split at split
              · cases split
              · next closed => exact fun mem => closed (List.mem_of_mem_drop mem)
      simp [closed]

variable {T : PrintTable} {name t : GoString}

theorem parseText_of_ok {url : URL} (parsed : parse t = .ok url) :
    parseText T t = .ok (url.scheme, url.host) := by
  rw [parseText, parsed]

theorem parseText_of_error {err : GoString × Error} (refused : parse t = .error err) :
    ∃ message, parseText T t = .error message := by
  rw [parseText, refused]
  exact ⟨_, rfl⟩

/-- A text that lets only sound apps through is a checked one. -/
theorem checked_of_sound
    (sound : ∀ app, proxyOf T (parseText T) name t = .ok app → Sound t app) : Checked t := by
  cases number : Strconv.atoi t with
  | ok n =>
      rcases (sound _ (proxyOf_of_number number)).port with isPort | ⟨⟨e, notNumber⟩, -⟩
      · exact .port n number isPort
      · rw [number] at notNumber
        cases notNumber
  | error e =>
      cases parsed : parse t with
      | error err => exact .noUrl e number err parsed
      | ok url =>
          have read := parseText_of_ok (T := T) parsed
          cases split : Net.splitHostPort url.host with
          | none =>
              obtain ⟨web, some_, zero | ⟨-, url', parsed', noPort⟩⟩ :=
                sound _ (proxyOf_of_host number read split)
              · exact absurd (show (1 : ℤ) ≤ 0 from zero.1) (by decide)
              · rw [parsed] at parsed'
                cases parsed'
                exact .webHost e number url parsed web some_ noPort
          | some pair =>
              obtain ⟨host, sport⟩ := pair
              cases portNumber : Strconv.atoi sport with
              | error e' => exact .noNumber e number url parsed host sport split e' portNumber
              | ok n =>
                  obtain ⟨web, some_, isPort | ⟨-, url', parsed', noPort⟩⟩ :=
                    sound _ (proxyOf_of_split number read split portNumber)
                  · exact .webPort e number url parsed web host sport split some_ n portNumber
                      isPort
                  · rw [parsed] at parsed'
                    cases parsed'
                    exact absurd noPort (portText_of_splitHostPort split)

/-- A checked text lets only sound apps through. -/
theorem sound_of_checked (checked : Checked t) {app : App}
    (through : proxyOf T (parseText T) name t = .ok app) : Sound t app := by
  cases checked with
  | port n number isPort =>
      rw [proxyOf_of_number number] at through
      cases through
      have scheme : "http".toList ∈ webSchemes := by decide
      have host : "127.0.0.1".toList ≠ [] := by decide
      exact ⟨scheme, host, Or.inl isPort⟩
  | noUrl e notNumber err refused =>
      obtain ⟨message, noUrl⟩ := parseText_of_error (T := T) refused
      rw [proxyOf_of_refused notNumber noUrl] at through
      cases through
  | noNumber e notNumber url parsed host sport split e' refused =>
      rw [proxyOf_of_badPort notNumber (parseText_of_ok parsed) split refused] at through
      cases through
  | webPort e notNumber url parsed web host sport split some_ n number isPort =>
      rw [proxyOf_of_split notNumber (parseText_of_ok parsed) split number] at through
      cases through
      exact ⟨web, some_, Or.inl isPort⟩
  | webHost e notNumber url parsed web some_ noPort =>
      have whole : Net.splitHostPort url.host = none := by
        cases split : Net.splitHostPort url.host with
        | none => rfl
        | some pair => exact absurd noPort (portText_of_splitHostPort split)
      rw [proxyOf_of_host notNumber (parseText_of_ok parsed) whole] at through
      cases through
      exact ⟨web, some_, Or.inr ⟨⟨e, notNumber⟩, url, parsed, noPort⟩⟩

/-! ## The pool -/

/-- The two functions of the pool, on files with any bytes in them. -/
def Starter.ofFiles (T : PrintTable) (os : Os) (readFile : GoString → Except GoString Bytes) :
    Starter where
  launchApp := PumaDev.launchApp os
  readProxy name path :=
    match readFile path with
    | .error err => .error (.other err)
    | .ok content => readProxyFile T name content

/-- A lookup that comes to a file, for an app that is not in the map. -/
structure ComesToFile (hash : GoString → GoString) (os : Os) (pool : AppPool) (n : GoString)
    (found : Found) : Prop where
  miss : pool.apps.lookup n = none
  search : (locate os pool.dir.text n).2 = .ok found
  file : found.info.isDir = false
  free : pool.apps.lookup (identify hash os n found).canonicalName = none

/-- **An app is cached exactly when `readProxy` returns one.** -/
theorem lookupAppWith_of_file {hash : GoString → GoString} {os : Os} {pool : AppPool}
    {n : GoString} {found : Found} (readFile : GoString → Except GoString Bytes) {content : Bytes}
    (comes : ComesToFile hash os pool n found) (reads : readFile found.path = .ok content) :
    (lookupAppWith hash os (.ofFiles T os readFile) pool n).2 =
      match readProxyFile T (identify hash os n found).canonicalName content with
      | .error err => (pool, .error err)
      | .ok app =>
          ({ pool with
              apps := register pool.apps (identify hash os n found) pool.heap.length
              heap := pool.heap ++ [app] },
            .ok pool.heap.length) := by
  obtain ⟨miss, search, file, free⟩ := comes
  rcases located : locate os pool.dir.text n with ⟨asked, result⟩
  rw [located] at search
  cases search
  have booted : ((Starter.ofFiles T os readFile).boot
      ⟨found.path, found.info.isDir, identify hash os n found⟩).2 =
        readProxyFile T (identify hash os n found).canonicalName content := by
    rw [Starter.boot, if_neg (by simp [file])]
    simp [Starter.ofFiles, reads]
  rcases boots : (Starter.ofFiles T os readFile).boot
    ⟨found.path, found.info.isDir, identify hash os n found⟩ with ⟨effect, outcome⟩
  rw [boots] at booted
  subst booted
  rw [lookupAppWith, miss]
  dsimp only
  rw [located]
  dsimp only
  rw [startOrShare]
  dsimp only
  rw [free]
  dsimp only
  rw [boots]
  cases readProxyFile T (identify hash os n found).canonicalName content <;> rfl

/-- **When a broken proxy file is rejected.**  For every content, no app that cannot be
dialed comes out of the file if and only if its trimmed text is a checked one; and what
comes out, or does not, is what a lookup caches. -/
theorem readProxyFile_sound_iff (T : PrintTable) (name : GoString) (content : Bytes) :
    ((∀ app, readProxyFile T name content = .ok app →
        Sound (Bytes.trimSpace content).chars app) ↔ Checked (Bytes.trimSpace content).chars) ∧
      ∀ hash os pool n found readFile, ComesToFile hash os pool n found →
        readFile found.path = .ok content → (identify hash os n found).canonicalName = name →
        ∀ err, readProxyFile T name content = .error err →
          (lookupAppWith hash os (.ofFiles T os readFile) pool n).2 = (pool, .error err) := by
  refine ⟨⟨checked_of_sound, fun checked app => sound_of_checked checked⟩, ?_⟩
  intro hash os pool n found readFile comes reads canonical err refused
  rw [lookupAppWith_of_file readFile comes reads, canonical, refused]

/-- A pool directory of files. -/
def everyFile : Os := { Os.everyDirectory with stat := fun _ _ => .ok false }

/-- An empty file is an app without a scheme and a host, and is cached. -/
theorem not_sound_empty :
    readProxyFile .asciiOnly "blog".toList [] = .ok (proxyApp "blog".toList [] [] 0) ∧
      ¬ Sound [] (proxyApp "blog".toList [] [] 0) ∧
      ((lookupAppWith id everyFile (.ofFiles .asciiOnly everyFile fun _ => .ok []) emptyPool
          "blog".toList).2.1.apps.lookup "blog".toList) = some 0 := by
  have read : readProxyFile .asciiOnly "blog".toList [] =
      .ok (proxyApp "blog".toList [] [] 0) := by
    decide +kernel
  refine ⟨read, fun sound => absurd sound.scheme (by decide), ?_⟩
  decide +kernel

/-- A URL with a port gives a sound app, and a port that is none leaves the pool as it
is. -/
theorem readProxyFile_sound_webPort :
    (∀ app, readProxyFile .asciiOnly "blog".toList (Utf8.encode "http://[::1]:3000/".toList) =
        .ok app → Sound (Bytes.trimSpace (Utf8.encode "http://[::1]:3000/".toList)).chars app) ∧
      (lookupAppWith id everyFile
          (.ofFiles .asciiOnly everyFile fun _ => .ok (Utf8.encode "http://h:".toList)) emptyPool
          "blog".toList).2 =
        (emptyPool, .error (.other "strconv.Atoi: parsing \"\": invalid syntax".toList)) := by
  have text : (Bytes.trimSpace (Utf8.encode "http://[::1]:3000/".toList)).chars =
      "http://[::1]:3000/".toList := by decide +kernel
  refine ⟨((readProxyFile_sound_iff .asciiOnly "blog".toList
    (Utf8.encode "http://[::1]:3000/".toList)).1).mpr ?_, ?_⟩
  · rw [text]
    exact .webPort .invalidSyntax (by decide) ⟨"http".toList, "[::1]:3000".toList⟩
      (by decide +kernel) (by decide) "::1".toList "3000".toList (by decide) (by decide) 3000
      (by decide) (by decide)
  · exact (readProxyFile_sound_iff .asciiOnly "blog".toList (Utf8.encode "http://h:".toList)).2
      id everyFile emptyPool "blog".toList
      ⟨"/home/u/.puma-dev/blog".toList, ⟨"blog".toList, false⟩, []⟩ _
      ⟨rfl, by decide +kernel, rfl, by decide +kernel⟩ rfl (by decide +kernel) _
      (by decide +kernel)

end PumaDev
