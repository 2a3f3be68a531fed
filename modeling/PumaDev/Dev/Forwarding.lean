import PumaDev.Dev.PoolProcesses
import PumaDev.Dev.ProxyFile
import PumaDev.Go.Place

/-!
# Where a request goes

At its end `ServeHTTP` writes the app's address into the URL of the request and hands it to a
reverse proxy.  For a launched app the address is the path of a socket: the transport takes it
for a host, adds a port to it, and hands the text to a dialer, which is to get the path back
out of it.

`dials_socket` says when that works: exactly if there is no bracket in the path.  And
`reaches_own_directory` says, for every interleaving of the pool, that a request for an app
never reaches a process of another directory, neither through a new connection nor through an
idle one that the transport has kept.
-/

namespace PumaDev

/-! ## The transport -/

/-- `net.JoinHostPort`. -/
def Net.joinHostPort (host port : GoString) : GoString :=
  if ':' ∈ host then '[' :: host ++ ']' :: ':' :: port else host ++ ':' :: port

/-- `url.splitHostPort`, which `URL.Hostname` and `URL.Port` are made of. -/
def Url.splitHost (hostPort : GoString) : GoString × GoString :=
  let (host, port) :=
    match Strings.lastIndexByte hostPort ':' with
    | none => (hostPort, [])
    | some colon =>
        if validOptionalPort (hostPort.drop colon) then
          (hostPort.take colon, hostPort.drop (colon + 1))
        else (hostPort, [])
  if host.head? = some '[' ∧ host.getLast? = some ']' then ((host.drop 1).dropLast, port)
  else (host, port)

namespace Transport

/-- `portMap`. -/
def portMap (scheme : GoString) : GoString :=
  if scheme = "http".toList then "80".toList
  else if scheme = "https".toList then "443".toList
  else if scheme = "socks5".toList then "1080".toList
  else []

/-- `idnaASCIIFromURL`, with what `idna.Lookup.ToASCII` makes of a host; `none` for an error. -/
def idnaASCII (toASCII : GoString → Option GoString) (host : GoString) : GoString :=
  if ∀ c ∈ host, c.toNat < 0x80 then host else (toASCII host).getD host

/-- `canonicalAddr`: the address to dial, under which connections are kept, too. -/
def canonicalAddr (toASCII : GoString → Option GoString) (scheme host : GoString) : GoString :=
  let (hostname, port) := Url.splitHost host
  Net.joinHostPort (idnaASCII toASCII hostname) (if port = [] then portMap scheme else port)

/-- The address for a request, or `none` where `roundTrip` refuses. -/
def target (toASCII : GoString → Option GoString) (scheme host : GoString) : Option GoString :=
  if scheme = "http".toList ∨ scheme = "https".toList then
    if host = [] then none else some (canonicalAddr toASCII scheme host)
  else none

end Transport

/-- What a connection is made to. -/
inductive Upstream where
  | unix (socket : GoString)
  | tcp (address : GoString)
  deriving DecidableEq

/-- The `DialContext` of `unixTransport`. -/
def dialUnix (addr : GoString) : Option Upstream :=
  (Net.splitHostPort addr).map fun split => .unix split.1

/-- The end of `HTTPServer.ServeHTTP`: under which address connections for the app are kept. -/
def App.connectionKey (toASCII : GoString → Option GoString) (app : App) : Option GoString :=
  if app.scheme = "httpu".toList then Transport.target toASCII "http".toList app.address
  else Transport.target toASCII app.scheme app.address

/-- What is dialed for a request to the app; `none` where it is refused. -/
def App.upstream (toASCII : GoString → Option GoString) (app : App) : Option Upstream :=
  if app.scheme = "httpu".toList then (app.connectionKey toASCII).bind dialUnix
  else (app.connectionKey toASCII).map .tcp

/-! ## The path of a socket -/

/-- The name of the socket in its directory. -/
def socketName (pid : ℕ) : GoString := "puma-dev-".toList ++ Strconv.itoa pid ++ ".sock".toList

theorem plain_socketName (pid : ℕ) : Filepath.Plain (socketName pid) := by
  have digits : ∀ c ∈ Strconv.itoa pid, Json.isDigit c = true := fun c mem =>
    isDigit_of_mem_port c mem
  obtain ⟨rest, text⟩ : ∃ rest, socketName pid = 'p' :: rest := by
    have first : "puma-dev-".toList = 'p' :: "uma-dev-".toList := by decide
    refine ⟨"uma-dev-".toList ++ Strconv.itoa pid ++ ".sock".toList, ?_⟩
    unfold socketName
    rw [first, List.cons_append, List.cons_append]
  have apart : ∀ later, socketName pid ≠ '.' :: later := fun later same =>
    absurd (List.cons.inj (text.symm.trans same)).1 (by decide)
  refine ⟨by rw [text]; exact List.cons_ne_nil _ _, apart _, apart _, fun slash => ?_⟩
  unfold socketName at slash
  rcases List.mem_append.mp slash with slash | back
  · rcases List.mem_append.mp slash with front | number
    · exact absurd front (by decide)
    · exact absurd (digits _ number) (by decide)
  · exact absurd back (by decide)

theorem plain_tmp : Filepath.Plain "tmp".toList := ⟨by decide, by decide, by decide, by decide⟩

/-- The path ends with the name. -/
theorem exists_socketPath (pid : ℕ) (dir : GoString) :
    ∃ front, socketPath pid dir = front ++ Filepath.sep :: socketName pid := by
  refine Filepath.join_eq_append (plain_socketName pid) ?_
  rw [tmpDir, Filepath.place_join dir plain_tmp]
  simp

/-- **One path, one directory.** -/
theorem socketPath_inj {pid pid' : ℕ} {dir dir' : GoString}
    (same : socketPath pid dir = socketPath pid' dir') :
    Filepath.clean dir = Filepath.clean dir' ∧ socketName pid = socketName pid' := by
  obtain ⟨tmp, name⟩ := Filepath.join_inj (plain_socketName pid) (plain_socketName pid') same
  have places := Filepath.clean_eq_clean_iff.mp tmp
  rw [tmpDir, tmpDir, Filepath.place_join dir plain_tmp, Filepath.place_join dir' plain_tmp,
    Filepath.Place.mk.injEq, Descent.mk.injEq] at places
  obtain ⟨rooted, ups, down⟩ := places
  refine ⟨Filepath.clean_eq_clean_iff.mpr (Filepath.Place.ext rooted (Descent.ext ups ?_)), name⟩
  exact List.append_cancel_right down

/-! ## What is dialed for it -/

/-- The text cannot be a host with a port, nor a host in brackets, nor one that `idna` takes. -/
structure SocketLike (path : GoString) : Prop where
  slash : '/' ∈ path
  last : path.getLast? = some 'k'

theorem socketLike_socketPath (pid : ℕ) (dir : GoString) : SocketLike (socketPath pid dir) := by
  obtain ⟨front, path⟩ := exists_socketPath pid dir
  refine ⟨by rw [path]; exact List.mem_append_right _ List.mem_cons_self, ?_⟩
  obtain ⟨rest, name⟩ : ∃ rest, socketName pid = rest ++ ['k'] := by
    have last : ".sock".toList = ".soc".toList ++ ['k'] := by decide
    refine ⟨"puma-dev-".toList ++ Strconv.itoa pid ++ ".soc".toList, ?_⟩
    unfold socketName
    rw [last, List.append_assoc _ ".soc".toList]
  rw [path, name, ← List.cons_append, ← List.append_assoc, List.getLast?_concat]

/-- No port can be split off. -/
theorem SocketLike.not_port {path : GoString} (like : SocketLike path) {colon : ℕ}
    (found : Strings.lastIndexByte path ':' = some colon) :
    Url.validOptionalPort (path.drop colon) = false := by
  obtain ⟨rest, -, text⟩ := Strings.split_of_lastIndexByte found
  have behind : path.drop colon = ':' :: rest := by
    have both := List.take_append_drop colon path
    conv at both => rhs; rw [text]
    exact List.append_cancel_left both
  have last : (':' :: rest).getLast? = some 'k' := by
    rw [← like.last, text, List.getLast?_append_of_ne_nil _ (List.cons_ne_nil _ _)]
  rw [behind, Url.validOptionalPort, decide_eq_true rfl, Bool.true_and, List.all_eq_false]
  cases rest with
  | nil => exact absurd (Option.some.inj last) (by decide)
  | cons c rest =>
      refine ⟨'k', ?_, by decide⟩
      rw [List.getLast?_cons_cons] at last
      exact List.mem_of_getLast? last

/-- The whole path is the hostname. -/
theorem SocketLike.splitHost {path : GoString} (like : SocketLike path) :
    Url.splitHost path = (path, []) := by
  have unbracketed : ¬ (path.head? = some '[' ∧ path.getLast? = some ']') := by
    rw [like.last]
    exact fun both => absurd both.2 (by decide)
  rw [Url.splitHost]
  cases found : Strings.lastIndexByte path ':' with
  | none => simp only [if_neg unbracketed]
  | some colon => simp only [like.not_port found, Bool.false_eq_true, if_false, if_neg unbracketed]

/-- A bracket is opened, and the first one that closes is in the wrong place. -/
theorem splitHostPort_of_open {text : GoString} {i : ℕ} (head : text.head? = some '[')
    (last : Strings.lastIndexByte text ':' = some i)
    (apart : ∀ close, Strings.indexByte text ']' = some close → close + 1 ≠ i) :
    Net.splitHostPort text = none := by
  rw [Net.splitHostPort, last]
  dsimp only
  rw [if_pos head]
  cases first : Strings.indexByte text ']' with
  | none => rfl
  | some close =>
      dsimp only
      rw [if_pos (apart close first)]

/-- The first `]` of a text that goes on behind a host. -/
theorem indexByte_closing {host : GoString} (front rest : GoString) (unclosed : ']' ∉ front)
    (last : host.getLast? ≠ some ']') (closing : ']' ∈ host) {close : ℕ}
    (first : Strings.indexByte (front ++ host ++ rest) ']' = some close) :
    close + 1 < front.length + host.length := by
  obtain ⟨before, after, text, absent⟩ := List.eq_append_cons_of_mem closing
  have split : front ++ host ++ rest = (front ++ before) ++ ']' :: (after ++ rest) := by simp [text]
  rw [split, Strings.indexByte_append _ (by simp [unclosed, absent]), Option.some.injEq] at first
  have more : after ≠ [] := by
    rintro rfl
    exact last (by rw [text, List.getLast?_concat])
  have := List.length_pos_iff.mpr more
  simp only [text, List.length_append, List.length_cons] at first ⊢
  omega

/-- **A port is added and split off again**, exactly if the host has no brackets. -/
theorem splitHostPort_joinHostPort {host port : GoString}
    (digits : ∀ c ∈ port, Json.isDigit c = true) (last : host.getLast? ≠ some ']') :
    Net.splitHostPort (Net.joinHostPort host port) =
      if '[' ∈ host ∨ ']' ∈ host then none else some (host, port) := by
  have other : ∀ c : Char, Json.isDigit c = false → c ∉ port := fun c plain mem =>
    absurd (digits c mem) (by simp [plain])
  have colonFree := other ':' (by decide)
  by_cases bracket : '[' ∈ host ∨ ']' ∈ host
  · rw [if_pos bracket]
    by_cases colon : ':' ∈ host
    · have text : Net.joinHostPort host port = ['['] ++ host ++ ']' :: ':' :: port := by
        simp [Net.joinHostPort, colon]
      have behind : Strings.lastIndexByte (Net.joinHostPort host port) ':' =
          some (host.length + 2) := by
        have split : Net.joinHostPort host port = ('[' :: host ++ [']']) ++ ':' :: port := by
          simp [text]
        rw [split, Strings.lastIndexByte_append _ colonFree]
        simp
      by_cases closing : ']' ∈ host
      · refine splitHostPort_of_open (by simp [text]) behind fun close first => ?_
        rw [text] at first
        have early := indexByte_closing _ _ (by decide) last closing first
        simp only [List.length_singleton] at early
        omega
      · -- the bracket that closes is the one that was added, but another one is open
        have first : Strings.indexByte (Net.joinHostPort host port) ']' =
            some (host.length + 1) := by
          rw [text]
          exact Strings.indexByte_append (s := '[' :: host) (':' :: port) (by simp [closing])
        have inner : '[' ∈ (Net.joinHostPort host port).drop 1 := by
          simp [text, bracket.resolve_right closing]
        rw [Net.splitHostPort, behind]
        dsimp only
        rw [if_pos (by simp [text]), first]
        dsimp only
        rw [if_neg (by omega), if_pos inner]
    · have text : Net.joinHostPort host port = host ++ ':' :: port := if_neg colon
      have behind : Strings.lastIndexByte (Net.joinHostPort host port) ':' = some host.length := by
        rw [text]
        exact Strings.lastIndexByte_append host colonFree
      by_cases head : (Net.joinHostPort host port).head? = some '['
      · refine splitHostPort_of_open head behind fun close first => ?_
        rw [text] at first
        by_cases closing : ']' ∈ host
        · have early := indexByte_closing [] _ (by simp) last closing first
          simp only [List.length_nil, Nat.zero_add] at early
          omega
        · have absent : ']' ∉ host ++ ':' :: port := by simp [closing, other ']' (by decide)]
          have nowhere : Strings.indexByte (host ++ ':' :: port) ']' = none := by
            simpa [Strings.indexByte] using absent
          rw [nowhere] at first
          cases first
      · rw [Net.splitHostPort, behind]
        dsimp only
        rw [if_neg head, text, List.take_left, if_neg colon]
        rcases bracket with opening | closing
        · rw [if_pos (List.mem_append_left _ opening)]
        · rw [if_pos (List.mem_append_left _ closing), ite_self]
  · rw [if_neg bracket]
    obtain ⟨opening, closing⟩ := not_or.mp bracket
    by_cases colon : ':' ∈ host
    · rw [Net.joinHostPort, if_pos colon]
      exact splitHostPort_of_brackets opening closing digits
    · rw [Net.joinHostPort, if_neg colon]
      exact Net.splitHostPort_of_unported ⟨colon, opening, closing⟩
        ⟨colonFree, other '[' (by decide), other ']' (by decide)⟩

/-- Hosts are told apart after a port was added. -/
theorem joinHostPort_inj {host host' port : GoString}
    (same : Net.joinHostPort host port = Net.joinHostPort host' port) : host = host' := by
  -- a host in brackets is not the text of one without a colon
  have apart : ∀ {h h' : GoString}, ':' ∈ h → ':' ∉ h' →
      '[' :: h ++ ']' :: ':' :: port ≠ h' ++ ':' :: port := by
    intro h h' colon colonFree same
    have text : ('[' :: h ++ [']']) ++ ':' :: port = h' ++ ':' :: port := by simpa using same
    exact colonFree (by rw [← List.append_cancel_right text]; simp [colon])
  unfold Net.joinHostPort at same
  split_ifs at same with colon colon' colon'
  · exact (List.cons.inj (List.append_cancel_right same)).2
  · exact absurd same (apart colon colon')
  · exact absurd same.symm (apart colon' colon)
  · exact List.append_cancel_right same

section Dial

variable {toASCII : GoString → Option GoString}

/-- The key of a launched app. -/
theorem connectionKey_launched (strict : ∀ host, '/' ∈ host → toASCII host = none) {app : App}
    (scheme : app.scheme = "httpu".toList) (like : SocketLike app.address) :
    app.connectionKey toASCII = some (Net.joinHostPort app.address "80".toList) := by
  have ascii : Transport.idnaASCII toASCII app.address = app.address := by
    rw [Transport.idnaASCII, strict _ like.slash]
    exact ite_self _
  have addr : Transport.canonicalAddr toASCII "http".toList app.address =
      Net.joinHostPort app.address "80".toList := by
    rw [Transport.canonicalAddr, like.splitHost]
    dsimp only
    rw [ascii, if_pos rfl, Transport.portMap, if_pos rfl]
  rw [App.connectionKey, if_pos scheme, Transport.target, if_pos (.inl rfl),
    if_neg (List.ne_nil_of_mem like.slash), addr]

/-- **What is dialed for a launched app** is its socket, exactly if there is no bracket in the
path of it. -/
theorem dials_socket (strict : ∀ host, '/' ∈ host → toASCII host = none) {app : App}
    (scheme : app.scheme = "httpu".toList) (like : SocketLike app.address) :
    app.upstream toASCII =
      if '[' ∈ app.address ∨ ']' ∈ app.address then none else some (.unix app.address) := by
  have last : app.address.getLast? ≠ some ']' := by
    rw [like.last]
    decide
  rw [App.upstream, if_pos scheme, connectionKey_launched strict scheme like, Option.bind_some,
    dialUnix, splitHostPort_joinHostPort (by decide) last]
  split <;> rfl

end Dial

/-! ## Proxies without a slash -/

theorem Strconv.slash_notMem_itoa (n : ℤ) : '/' ∉ Strconv.itoa n := by
  have digits : ∀ m : ℕ, '/' ∉ Strconv.itoa m := fun m mem =>
    absurd (isDigit_of_mem_port _ mem) (by decide)
  cases n with
  | ofNat m => exact digits m
  | negSucc m =>
      rw [Strconv.itoa, List.mem_cons, not_or]
      exact ⟨by decide, digits (m + 1)⟩

/-- The host is cut out of the text. -/
theorem Net.mem_of_splitHostPort {hostPort host port : GoString}
    (h : Net.splitHostPort hostPort = some (host, port)) {c : Char} (mem : c ∈ host) :
    c ∈ hostPort := by
  unfold Net.splitHostPort at h
  split at h
  · cases h
  · split at h
    · split at h
      · cases h
      · split_ifs at h
        cases h
        exact List.mem_of_mem_take (List.mem_of_mem_drop mem)
    · split_ifs at h
      cases h
      exact List.mem_of_mem_take mem

theorem App.slash_notMem_setAddress {app : App} {scheme host : GoString} (port : ℤ)
    (free : '/' ∉ host) : '/' ∉ (app.setAddress scheme host port).address := by
  unfold App.address App.setAddress
  split
  · exact free
  · rw [List.mem_append, List.mem_cons, not_or, not_or]
    exact ⟨free, by decide, Strconv.slash_notMem_itoa port⟩

/-- The address of a proxy, when the URLs that are read have none in their hosts. -/
theorem slash_notMem_of_readProxy {T : PrintTable} {os : Os} {name path : GoString} {app : App}
    (hosts : ∀ text scheme host, os.urlParse text = .ok (scheme, host) → '/' ∉ host)
    (h : readProxy T os name path = .ok app) : '/' ∉ app.address := by
  unfold readProxy at h
  split at h
  · cases h
  · dsimp only at h
    split at h
    · cases h
      exact App.slash_notMem_setAddress _ (by decide)
    · split at h
      · cases h
      · next scheme urlHost parsed =>
          have free := hosts _ _ _ parsed
          split at h
          · cases h
            exact App.slash_notMem_setAddress 0 free
          · next host sport split =>
              split at h
              · cases h
              · cases h
                exact App.slash_notMem_setAddress _ fun slash =>
                  free (Net.mem_of_splitHostPort split slash)

theorem Url.slash_notMem_splitHost {hostPort : GoString} (free : '/' ∉ hostPort) :
    '/' ∉ (Url.splitHost hostPort).1 ∧ '/' ∉ (Url.splitHost hostPort).2 := by
  have parts : ∀ {host port : GoString}, '/' ∉ host → '/' ∉ port →
      '/' ∉ (if host.head? = some '[' ∧ host.getLast? = some ']' then
          ((host.drop 1).dropLast, port) else (host, port)).1 ∧
        '/' ∉ (if host.head? = some '[' ∧ host.getLast? = some ']' then
          ((host.drop 1).dropLast, port) else (host, port)).2 := by
    intro host port apart none_
    split
    · exact ⟨fun slash => apart (List.mem_of_mem_drop (List.mem_of_mem_dropLast slash)), none_⟩
    · exact ⟨apart, none_⟩
  unfold Url.splitHost
  split
  next host port cut =>
    split at cut
    · cases cut
      exact parts free List.not_mem_nil
    · split at cut
      · cases cut
        exact parts (fun slash => free (List.mem_of_mem_take slash))
          fun slash => free (List.mem_of_mem_drop slash)
      · cases cut
        exact parts free List.not_mem_nil

/-- The key under which the connections for such a proxy are kept. -/
theorem slash_notMem_connectionKey {toASCII : GoString → Option GoString}
    (ascii : ∀ host out, toASCII host = some out → '/' ∉ out) {app : App}
    (scheme : app.scheme = "httpu".toList) (free : '/' ∉ app.address) {key : GoString}
    (h : app.connectionKey toASCII = some key) : '/' ∉ key := by
  obtain ⟨hostFree, portFree⟩ := Url.slash_notMem_splitHost free
  rw [App.connectionKey, if_pos scheme, Transport.target, if_pos (.inl rfl)] at h
  obtain ⟨-, value⟩ := Option.ite_none_left_eq_some.mp h
  cases value
  have idna : '/' ∉ Transport.idnaASCII toASCII (Url.splitHost app.address).1 := by
    unfold Transport.idnaASCII
    split
    · exact hostFree
    · cases mapped : toASCII (Url.splitHost app.address).1 with
      | none => exact hostFree
      | some out => exact ascii _ _ mapped
  have port : '/' ∉ (if (Url.splitHost app.address).2 = [] then
      Transport.portMap "http".toList else (Url.splitHost app.address).2) := by
    split
    · decide
    · exact portFree
  unfold Transport.canonicalAddr Net.joinHostPort
  dsimp only
  split
  · simp only [List.cons_append, List.mem_cons, List.mem_append, not_or]
    exact ⟨by decide, idna, by decide, by decide, port⟩
  · rw [List.mem_append, List.mem_cons, not_or, not_or]
    exact ⟨idna, by decide, port⟩

/-! ## In the pool -/

namespace Pool

variable {T : PrintTable} {hash : GoString → GoString} {s t : Pool} {l : Label}

/-- The app whose process answers a request for an app, where it is dialed through a socket. -/
def reaches (toASCII : GoString → Option GoString) (s : Pool) (app : App) : Option AppId :=
  match app.upstream toASCII with
  | some (.unix path) => s.sockets.lookup path
  | some (.tcp _) | none => none

/-- A launched app has its socket in its directory, and a socket that exists was bound by an app
it belongs to. -/
structure Housed (s : Pool) : Prop where
  launched : ∀ (id : AppId) (i : Instance), s.heap[id]? = some i → i.app.command.isSome →
    i.app.scheme = "httpu".toList ∧ ∃ pid, i.app.address = socketPath pid i.app.dir
  running : ∀ (id : AppId) (i : Instance), s.heap[id]? = some i → i.proc = .running →
    i.app.command.isSome
  bound : ∀ path id, s.sockets.lookup path = some id → ∃ i, s.heap[id]? = some i ∧
    i.app.command.isSome ∧ i.app.address = path

theorem housed_empty (dir : Filepath.CleanDir) (idleTime : ℤ) : (empty dir idleTime).Housed where
  launched id i here := by simp [empty] at here
  running id i here := by simp [empty] at here
  bound path id found := by cases found

/-- A socket is there already, or bound by a process that runs. -/
theorem sockets_of_step (h : s.step T hash l = some t) {path : GoString} {id : AppId}
    (found : t.sockets.lookup path = some id) : s.sockets.lookup path = some id ∨
      ∃ i, s.heap[id]? = some i ∧ i.proc = .running ∧ i.app.address = path := by
  cases stepsTo_of_step h with
  | unlinked here due =>
      dsimp only at found
      split at found
      · exact .inl (Registry.lookup_erase_eq_some.mp found).2
      · exact .inl found
  | bound here running =>
      rcases Registry.lookup_insert_eq_some.mp found with ⟨rfl, rfl⟩ | ⟨-, old⟩
      · exact .inr ⟨_, here, running, rfl⟩
      · exact .inl old
  | _ => exact .inl found

/-- **Every step keeps it.** -/
theorem Housed.of_step (housed : s.Housed) (h : s.step T hash l = some t) : t.Housed where
  launched id j there command := by
    rcases before_of_step h there with ⟨i, here, next⟩ | ⟨app, creates, -, rfl⟩
    · rw [next.evolves.app] at command ⊢
      exact housed.launched id i here command
    · obtain ⟨os, request, -, -, booted, -⟩ := creates.booted
      dsimp only [Instance.create] at command ⊢
      unfold boot at booted
      split at booted
      · obtain ⟨-, dir, -, scheme, address⟩ := launchApp_eq_ok booted
        exact ⟨scheme, _, by rw [address, dir]⟩
      · rw [(readProxy_eq_ok booted).2] at command
        cases command
  running id j there process := by
    rcases before_of_step h there with ⟨i, here, next⟩ | ⟨app, -, -, rfl⟩
    · rw [next.evolves.app]
      refine housed.running id i here ?_
      by_contra gone
      exact next.evolves.proc gone process
    · cases launched : app.command.isSome with
      | true => exact launched
      | false => simp [Instance.create, launched] at process
  bound path id found := by
    have was : ∃ i, s.heap[id]? = some i ∧ i.app.command.isSome ∧ i.app.address = path := by
      rcases sockets_of_step h found with old | ⟨i, here, process, address⟩
      · exact housed.bound path id old
      · exact ⟨i, here, housed.running id i here process, address⟩
    obtain ⟨i, here, command, address⟩ := was
    obtain ⟨j, there, next⟩ := after_of_step h here
    exact ⟨j, there, by rw [next.evolves.app]; exact command, by rw [next.evolves.app, address]⟩

theorem Housed.socketLike (housed : s.Housed) {id : AppId} {i : Instance}
    (here : s.heap[id]? = some i) (command : i.app.command.isSome) : SocketLike i.app.address := by
  obtain ⟨-, pid, address⟩ := housed.launched id i here command
  rw [address]
  exact socketLike_socketPath pid _

/-- Two launched apps of one address are apps of one directory. -/
theorem Housed.dir_eq (housed : s.Housed) {a b : AppId} {i j : Instance}
    (hereA : s.heap[a]? = some i) (hereB : s.heap[b]? = some j)
    (commandA : i.app.command.isSome) (commandB : j.app.command.isSome)
    (same : i.app.address = j.app.address) :
    Filepath.clean i.app.dir = Filepath.clean j.app.dir := by
  obtain ⟨-, pid, addressA⟩ := housed.launched a i hereA commandA
  obtain ⟨-, pid', addressB⟩ := housed.launched b j hereB commandB
  rw [addressA, addressB] at same
  exact (socketPath_inj same).1

/-- No proxy has a slash in its address. -/
def Slashless (s : Pool) : Prop :=
  ∀ (id : AppId) (i : Instance), s.heap[id]? = some i → i.app.command = none →
    '/' ∉ i.app.address

/-- Every step keeps that, if no URL read in it has a slash in its host. -/
theorem Slashless.of_step (slashless : s.Slashless) (h : s.step T hash l = some t)
    (hosts : ∀ os, l = .boot os → ∀ text scheme host,
      os.urlParse text = .ok (scheme, host) → '/' ∉ host) : t.Slashless := by
  intro id j there proxy
  rcases before_of_step h there with ⟨i, here, next⟩ | ⟨app, creates, -, rfl⟩
  · rw [next.evolves.app] at proxy ⊢
    exact slashless id i here proxy
  · obtain ⟨os, request, label, -, booted, -⟩ := creates.booted
    dsimp only [Instance.create] at proxy ⊢
    unfold boot at booted
    split at booted
    · obtain ⟨-, -, launched, -⟩ := launchApp_eq_ok booted
      rw [proxy] at launched
      cases launched
    · exact slash_notMem_of_readProxy (hosts os label) booted

/-- **A request for an app stays in its directory.**  In every state of every run, for every
launched app:

* its own socket is dialed, exactly if there is no bracket in its path, and else nothing;
* a process that answers there is one of an app launched in the same directory;
* and so is the one at the other end of a connection that was kept for a request to another
  launched app, if the transport takes it for this one;
* which it never does with a connection that was kept for a proxy, as `url.Parse` leaves no slash
  in a host. -/
theorem reaches_own_directory (toASCII : GoString → Option GoString)
    (strict : ∀ host, '/' ∈ host → toASCII host = none) {dir : Filepath.CleanDir} {idleTime : ℤ}
    (ls : List Label) :
    ∀ s ∈ (poolMachine T hash dir idleTime).visited (poolMachine T hash dir idleTime).init ls,
      ∀ (id : AppId) (i : Instance), s.heap[id]? = some i → i.app.command.isSome →
        (i.app.upstream toASCII =
          if '[' ∈ i.app.address ∨ ']' ∈ i.app.address then none
          else some (.unix i.app.address)) ∧
        (∀ other, s.reaches toASCII i.app = some other → ∃ j, s.heap[other]? = some j ∧
          j.app.command.isSome ∧ Filepath.clean j.app.dir = Filepath.clean i.app.dir) ∧
        (∀ (other : AppId) (j : Instance), s.heap[other]? = some j → j.app.command.isSome →
          j.app.connectionKey toASCII = i.app.connectionKey toASCII →
            Filepath.clean j.app.dir = Filepath.clean i.app.dir) ∧
        ((∀ os, .boot os ∈ ls → os.urlParse = Url.parseText T) →
          (∀ host out, toASCII host = some out → '/' ∉ out) →
            ∀ (other : AppId) (j : Instance), s.heap[other]? = some j →
              j.app.scheme = "httpu".toList →
                j.app.connectionKey toASCII = i.app.connectionKey toASCII →
                  j.app.command.isSome) := by
  intro s visited id i here command
  have housed : s.Housed := (poolMachine T hash dir idleTime).inv_of_step
    (fun _ _ _ housed h => housed.of_step h) ls (housed_empty dir idleTime) s visited
  have scheme := (housed.launched id i here command).1
  have like := housed.socketLike here command
  have dials := dials_socket strict scheme like
  refine ⟨dials, fun other answers => ?_, fun other j there command' kept => ?_,
    fun parses ascii other j there unix kept => ?_⟩
  · rw [reaches, dials] at answers
    split at answers
    · next path dialed =>
        split_ifs at dialed
        cases dialed
        obtain ⟨j, there, command', address⟩ := housed.bound _ other answers
        exact ⟨j, there, command', housed.dir_eq there here command' command address⟩
    · cases answers
    · cases answers
  · rw [connectionKey_launched strict (housed.launched other j there command').1
      (housed.socketLike there command'), connectionKey_launched strict scheme like] at kept
    exact housed.dir_eq there here command' command (joinHostPort_inj (Option.some.inj kept))
  · have slashless : s.Slashless :=
      (poolMachine T hash dir idleTime).inv_of_guarded
        (fun _ _ _ slashless boots h => slashless.of_step h boots) ls
        (fun _ _ there => by cases there)
        (Machine.guarded_of_forall _ (fun l mem _ os label text scheme host parsed => by
          subst label
          rw [parses os mem] at parsed
          exact Url.slash_notMem_of_parseText parsed) _) s visited
    by_contra proxy
    rw [connectionKey_launched strict scheme like] at kept
    refine slash_notMem_connectionKey ascii unix
      (slashless other j there (by simpa using proxy)) kept ?_
    unfold Net.joinHostPort
    split <;> simp [like.slash]

/-- A strict `idna`: nothing with a slash is a host. -/
def noSlash (host : GoString) : Option GoString := if '/' ∈ host then none else some host

/-- A request for `blog`, once its socket is bound. -/
theorem reaches_blog : ∃ s i, s ∈ plainPool.visited plainPool.init
    (startApp "blog".toList .everyDirectory ++ [.bind 0]) ∧ s.heap[0]? = some i ∧
      i.app.upstream noSlash = some (.unix i.app.address) ∧
      s.reaches noSlash i.app = some 0 := by
  have facts : (plainPool.exec plainPool.init
      (startApp "blog".toList .everyDirectory ++ [.bind 0])).map
      (fun s => (s.heap[0]?).map fun i => (i.app.command.isSome,
        decide ('[' ∈ i.app.address ∨ ']' ∈ i.app.address),
        s.sockets.lookup i.app.address)) = some (some (true, false, some 0)) := by decide
  obtain ⟨s, visited, found⟩ := plainPool.exists_visited_of_map facts
  obtain ⟨i, here, seen⟩ := Option.map_eq_some_iff.mp found
  simp only [Prod.mk.injEq, decide_eq_false_iff_not] at seen
  obtain ⟨command, plain, bound⟩ := seen
  have dials := (reaches_own_directory noSlash (fun host slash => if_pos slash) _ s visited 0 i
    here command).1
  rw [if_neg plain] at dials
  exact ⟨s, i, visited, here, dials, by rw [reaches, dials]; exact bound⟩

/-- In a directory with a bracket in its name the app is not reached. -/
example : dialUnix (Transport.canonicalAddr noSlash "http".toList
    "/home/u/blog[2]/tmp/puma-dev-7.sock".toList) = none := by decide

end Pool

end PumaDev
