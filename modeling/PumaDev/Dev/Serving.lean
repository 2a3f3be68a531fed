import PumaDev.Dev.App
import PumaDev.Dev.Http

/-!
# Serving a request

`HTTPServer.ServeHTTP` finds the app of a request and waits for it.  If the app has a
`public` directory it tries a file from there first, and hands everything else to the
app's own server.

The path of the request is cleaned twice: once to be compared with the paths that are
not to be served, and again by `filepath.Join` when the file's path is built.  What
makes this safe is that the second cleaning only ever appends the result of the first
one to the `public` directory (`Filepath.join_below`), whatever the app's directory
looks like: `served_openFile` is about every path the server tries to open.
-/

namespace PumaDev

/-- `HTTPServer`, as far as `ServeHTTP` reads it. -/
structure HTTPServer where
  ignoredStaticPaths : List GoString
  domains : List GoString

/-- `http.Request`, as far as `ServeHTTP` reads it. -/
structure HTTPRequest where
  host : GoString
  /-- `URL.Path`, decoded. -/
  urlPath : GoString
  /-- It came in over TLS. -/
  tls : Bool

/-- What a request learns once its app is found. -/
structure Answers where
  /-- The message of the error of `WaitTilReady`. -/
  waitTilReady : Option GoString
  /-- `os.Stat`: is it a directory? -/
  stat : GoString → Except StatError Bool
  /-- `os.Open` succeeds. -/
  opens : GoString → Bool

/-- What a request does besides finding its app. -/
inductive ServeEffect where
  | unknownApp (name host : GoString)
  | lookupError (error : GoString)
  | stat (path : GoString)
  | openFile (path : GoString)
  deriving DecidableEq

/-- How a request is answered. -/
inductive Response where
  /-- By the server itself: `/status` and `/events`. -/
  | mux
  /-- With a status of 500. -/
  | internalError (body : GoString)
  /-- With a file. -/
  | content (path : GoString)
  /-- By the app's server, through a socket or over TCP. -/
  | proxied (unix : Bool) (scheme host forwardedProto : GoString)
  deriving DecidableEq

/-- `HTTPServer.shouldServePublicPathForApp`. -/
def shouldServePublicPathForApp (h : HTTPServer) (a : App) (urlPath : GoString) : Bool :=
  let reqPath := Path.clean urlPath
  if ¬ a.isPublic then false
  else if reqPath = "/".toList then false
  else if h.ignoredStaticPaths.any (Strings.hasPrefix reqPath) then false
  else true

/-- The part of `ServeHTTP` that tries a file of the app. -/
def staticFile (h : HTTPServer) (app : App) (urlPath : GoString) (world : Answers) :
    List ServeEffect × Option GoString :=
  if shouldServePublicPathForApp h app urlPath then
    let safeURLPath := Path.clean urlPath
    let path := Filepath.join [app.dir, "public".toList, safeURLPath]
    match world.stat path with
    | .ok false =>
        ([.stat path, .openFile path], if world.opens path then some path else none)
    | _ => ([.stat path], none)
  else ([], none)

/-- The part of `ServeHTTP` that hands the request on. -/
def proxy (app : App) (tls : Bool) : Response :=
  let forwardedProto := if tls then "https".toList else "http".toList
  if app.scheme = "httpu".toList then
    .proxied true "http".toList app.address forwardedProto
  else .proxied false app.scheme app.address forwardedProto

/-- `HTTPServer.ServeHTTP`, over any way to find an app by its domain name. -/
def serveHTTP {σ : Type} (find : σ → GoString → σ × Except GoError App) (h : HTTPServer)
    (s : σ) (req : HTTPRequest) (world : Answers) : List ServeEffect × σ × Response :=
  if req.host = "puma-dev".toList then ([], s, .mux)
  else
    let name := removeTLD h.domains req.host
    match find s name with
    | (s, .error .unknownApp) =>
        ([.unknownApp name req.host], s, .internalError (GoError.text .unknownApp))
    | (s, .error err) => ([.lookupError err.text], s, .internalError err.text)
    | (s, .ok app) =>
        match world.waitTilReady with
        | some err => ([], s, .internalError err)
        | none =>
            match staticFile h app req.urlPath world with
            | (tried, some path) => (tried, s, .content path)
            | (tried, none) => (tried, s, proxy app req.tls)

/-! ## What is served -/

/-- A path that may be served below `public`. -/
structure Servable (ignored : List GoString) (q : GoString) : Prop where
  rooted : q.head? = some '/'
  not_root : q ≠ "/".toList
  cleaned : Path.clean q = q
  no_dots : ∀ c ∈ Strings.split q '/', c ≠ ".".toList ∧ c ≠ "..".toList
  not_ignored : ∀ p ∈ ignored, ¬ p <+: q

/-- The component `public`. -/
theorem plain_public : Filepath.Plain "public".toList :=
  ⟨by decide, by decide, by decide, by decide⟩

/-- **The path of a request**, once cleaned, is servable if the server does not refuse
it. -/
theorem servable_clean {h : HTTPServer} {a : App} {urlPath : GoString}
    (rooted : urlPath.head? = some '/') (serve : shouldServePublicPathForApp h a urlPath = true) :
    Servable h.ignoredStaticPaths (Path.clean urlPath) := by
  have abs : Filepath.isAbs urlPath = true := decide_eq_true rooted
  have text := Filepath.clean_of_isAbs abs
  have plain : ∀ c ∈ (Filepath.descent urlPath).down, Filepath.Plain c := fun c mem =>
    Filepath.plain_of_mem_down mem
  simp only [shouldServePublicPathForApp, Bool.if_false_left, Bool.and_true, Bool.and_eq_true,
    Bool.not_eq_true', decide_eq_false_iff_not, List.any_eq_true, not_exists, not_and] at serve
  obtain ⟨-, notRoot, unignored⟩ := serve
  refine ⟨?_, notRoot, Filepath.clean_clean abs, fun c mem => ?_, fun p mem start => ?_⟩
  · rw [Path.clean, text]
    rfl
  · have some_ : (Filepath.descent urlPath).down ≠ [] := by
      intro none_
      rw [Path.clean, text, none_] at notRoot
      exact notRoot rfl
    have pieces : Strings.split (Path.clean urlPath) '/' =
        [] :: (Filepath.descent urlPath).down := by
      rw [Path.clean, text]
      exact Filepath.split_render plain some_
    rw [pieces] at mem
    rcases List.mem_cons.mp mem with rfl | entered
    · exact ⟨by decide, by decide⟩
    · exact ⟨(plain c entered).not_dot, (plain c entered).not_dotdot⟩
  · exact unignored p mem (List.isPrefixOf_iff_prefix.mpr start)

/-- **The file that is tried** is the cleaned path of the request, appended to the
app's `public` directory. -/
theorem join_public (dir : GoString) {ignored : List GoString} {urlPath : GoString}
    (rooted : urlPath.head? = some '/') (servable : Servable ignored (Path.clean urlPath)) :
    Filepath.join [dir, "public".toList, Path.clean urlPath] =
      Filepath.join [dir, "public".toList] ++ Path.clean urlPath := by
  have abs : Filepath.isAbs urlPath = true := decide_eq_true rooted
  have text : Path.clean urlPath =
      Filepath.sep :: Strings.join (Filepath.descent urlPath).down Filepath.sep :=
    Filepath.clean_of_isAbs abs
  have some_ : (Filepath.descent urlPath).down ≠ [] := by
    intro none_
    have notRoot := servable.not_root
    rw [text, none_] at notRoot
    exact notRoot rfl
  rw [text]
  exact Filepath.join_below dir plain_public
    (fun c mem => Filepath.plain_of_mem_down mem) some_

/-- What `staticFile` tries to open. -/
theorem served_staticFile {h : HTTPServer} {app : App} {urlPath path : GoString}
    {world : Answers} (rooted : urlPath.head? = some '/')
    (opened : .openFile path ∈ (staticFile h app urlPath world).1) :
    path = Filepath.join [app.dir, "public".toList] ++ Path.clean urlPath ∧
      Servable h.ignoredStaticPaths (Path.clean urlPath) := by
  unfold staticFile at opened
  split at opened
  · next serve =>
      have servable := servable_clean rooted serve
      have tried : path =
          Filepath.join [app.dir, "public".toList, Path.clean urlPath] := by
        dsimp only at opened
        split at opened
        · simpa using opened
        · simp at opened
      exact ⟨tried.trans (join_public app.dir rooted servable), servable⟩
  · simp at opened

/-- **Static files stay inside `public`.**  Whatever app a request finds, if its path
is rooted then every path that `ServeHTTP` tries to open is the `public` directory of
that app followed by a servable path. -/
theorem served_openFile {σ : Type} (find : σ → GoString → σ × Except GoError App)
    (h : HTTPServer) (s : σ) (req : HTTPRequest) (world : Answers) (path : GoString)
    (rooted : req.urlPath.head? = some '/')
    (opened : .openFile path ∈ (serveHTTP find h s req world).1) :
    ∃ app q, (find s (removeTLD h.domains req.host)).2 = .ok app ∧
      path = Filepath.join [app.dir, "public".toList] ++ q ∧
      Servable h.ignoredStaticPaths q := by
  unfold serveHTTP at opened
  split at opened
  · simp at opened
  · dsimp only at opened
    split at opened
    · simp at opened
    · simp at opened
    · next t app found =>
        split at opened
        · simp at opened
        · have tried : .openFile path ∈ (staticFile h app req.urlPath world).1 := by
            split at opened
            · next result => simpa [result] using opened
            · next result => simpa [result] using opened
          obtain ⟨text, servable⟩ := served_staticFile rooted tried
          exact ⟨app, _, by rw [found], text, servable⟩

/-- An app in a relative directory, with a `public` directory. -/
def siteApp : App where
  name := "site".toList
  scheme := "httpu".toList
  host := "sites/one/tmp/puma-dev-4242.sock".toList
  port := 0
  command := some ⟨"/bin/bash".toList, [], "sites/one".toList, launchEnv, 4243⟩
  isPublic := true
  dir := "sites/one".toList

/-- A spelling with dots and doubled slashes: the file is opened below `public`. -/
theorem served_dotted :
    ServeEffect.openFile "sites/one/public/secret".toList ∈
        (serveHTTP (fun s _ => (s, .ok siteApp)) ⟨["/packs".toList], ["test".toList]⟩ ()
          ⟨"site.test".toList, "/packs/..//../secret".toList, false⟩
          ⟨none, fun _ => .ok false, fun _ => true⟩).1 ∧
      ∃ app q, (Except.ok siteApp : Except GoError App) = .ok app ∧
        "sites/one/public/secret".toList =
          Filepath.join [app.dir, "public".toList] ++ q ∧ Servable ["/packs".toList] q := by
  have opened : ServeEffect.openFile "sites/one/public/secret".toList ∈
      (serveHTTP (fun s _ => (s, .ok siteApp)) ⟨["/packs".toList], ["test".toList]⟩ ()
        ⟨"site.test".toList, "/packs/..//../secret".toList, false⟩
        ⟨none, fun _ => .ok false, fun _ => true⟩).1 := by decide
  exact ⟨opened, served_openFile _ _ _ _ _ _ (by decide) opened⟩

end PumaDev
