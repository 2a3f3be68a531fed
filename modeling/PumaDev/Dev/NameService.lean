import Mathlib.Data.Finset.Max
import PumaDev.Dev.App
import PumaDev.Dev.HostSpelling
import PumaDev.Go.Bytes

/-!
# Names that lead to the server

On macOS a request finds puma-dev by the name of its host.  When it starts, `main` writes a file
into `/etc/resolver` for each of its domains (`ConfigureResolver`), which sends the system's
questions about names in the domain to its own DNS server; this one answers all of them with
the address of whoever asks (`handleDNS`); and then the HTTP server takes the domain off the
host again (`removeTLD`), and looks up what is left.

The three parts know of each other only through the list of domains and the port.
`names_lead_here` says that they agree, for domains in lower case: the hosts that the DNS server
answers for are those that `removeTLD` takes the longest domain off, but for those under xip.io
and nip.io, which it treats on their own, and the domains themselves.  That no domain is empty,
which would make the server answer for everything, is due to the resolver's files: an empty
domain has none, and puma-dev does not start.
-/

namespace PumaDev

/-! ## The resolver's files -/

/-- What the system answers to `ConfigureResolver`: the error of each call, if it has one. -/
structure ResolverOs where
  mkdirAll : GoString → Option GoError
  writeFile : GoString → GoString → Option GoError

/-- `etcDir`. -/
def etcDir : GoString := "/etc/resolver".toList

/-- `body`, for the text of a port. -/
def resolverBody (port : GoString) : GoString :=
  "# Generated by puma-dev\nnameserver 127.0.0.1\nport ".toList ++ port ++ "\n".toList

/-- The loop of `ConfigureResolver`: the files it has written, and its error. -/
def writeResolvers (os : ResolverOs) (body : GoString) :
    List GoString → List (GoString × GoString) × Option GoError
  | [] => ([], none)
  | domain :: domains =>
      let path := Filepath.join [etcDir, domain]
      match os.writeFile path body with
      | some err => ([], some err)
      | none =>
          let (written, err) := writeResolvers os body domains
          ((path, body) :: written, err)

/-- `ConfigureResolver`. -/
def configureResolver (os : ResolverOs) (domains : List GoString) (port : ℤ) :
    List (GoString × GoString) × Option GoError :=
  match os.mkdirAll etcDir with
  | some err => ([], some err)
  | none => writeResolvers os (resolverBody (Strconv.itoa port)) domains

/-- **All or an error**: without an error every domain has its file, and none of the calls has
failed. -/
theorem writeResolvers_of_ok {os : ResolverOs} {body : GoString} {domains : List GoString}
    {written : List (GoString × GoString)} (h : writeResolvers os body domains = (written, none)) :
    written = domains.map (fun d => (Filepath.join [etcDir, d], body)) ∧
      ∀ d ∈ domains, os.writeFile (Filepath.join [etcDir, d]) body = none := by
  induction domains generalizing written with
  | nil =>
      cases h
      exact ⟨rfl, fun d mem => absurd mem List.not_mem_nil⟩
  | cons domain domains ih =>
      cases wrote : os.writeFile (Filepath.join [etcDir, domain]) body with
      | some err => simp [writeResolvers, wrote] at h
      | none =>
          simp only [writeResolvers, wrote, Prod.mk.injEq] at h
          obtain ⟨rfl, ok⟩ := h
          obtain ⟨all, each⟩ := ih (Prod.ext rfl ok)
          exact ⟨congrArg (List.cons _) all, List.forall_mem_cons.mpr ⟨wrote, each⟩⟩

/-! ## The DNS server -/

namespace Dns

/-- A question. -/
structure Question where
  name : GoString
  qtype : ℕ
  qclass : ℕ
  deriving DecidableEq

/-- The header of a record. -/
structure Header where
  name : GoString
  rrtype : ℕ
  qclass : ℕ
  ttl : ℕ
  deriving DecidableEq

/-- A record, as far as `handleDNS` tells them apart. -/
inductive RR where
  | a (hdr : Header) (ip : Bytes)
  | aaaa (hdr : Header) (ip : Bytes)
  | tsig (hdr : Header)
  | other (hdr : Header)
  deriving DecidableEq

/-- A message. -/
structure Msg where
  id : ℕ
  response : Bool
  question : List Question
  answer : List RR
  extra : List RR
  deriving DecidableEq

/-- `TypeA`. -/
def typeA : ℕ := 1

/-- `TypeAAAA`. -/
def typeAAAA : ℕ := 28

/-- `ClassINET`. -/
def classINET : ℕ := 1

/-- What is used of the DNS library. -/
structure Library where
  /-- `SetReply`, of a new message. -/
  setReply : Msg → Msg
  /-- `IsTsig` finds a record. -/
  isTsig : Msg → Bool
  setTsig : Msg → GoString → GoString → ℕ → ℤ → Msg
  hmacMD5 : GoString
  /-- With handlers for these patterns, one of them is called for the question. -/
  handles : List GoString → Question → Bool

/-- `net.Addr`, by its dynamic type. -/
inductive Addr where
  | udp (ip : Bytes)
  | tcp (ip : Bytes)
  | other

/-- `RemoteAddr`, `TsigStatus` and the clock. -/
structure ResponseWriter where
  remoteAddr : Addr
  tsigStatus : Option GoError
  now : ℤ

/-- The bytes in front of an IPv4 address that is written as an IPv6 one. -/
def v4InV6Prefix : Bytes := List.replicate 10 0 ++ [255, 255]

/-- `net.IP.To4`. -/
def to4 (ip : Bytes) : Option Bytes :=
  if ip.length = 4 then some ip
  else if ip.length = 16 ∧ ip.take 12 = v4InV6Prefix then some (ip.drop 12)
  else none

/-- The address of whoever asks; `nil` has no bytes. -/
def Addr.ip : Addr → Bytes
  | udp ip => ip
  | tcp ip => ip
  | other => []

/-- The record for a name: the address of whoever asks. -/
def record (name : GoString) (a : Bytes) : RR :=
  match to4 a with
  | some ip => .a ⟨name, typeA, classINET, 0⟩ ip
  | none => .aaaa ⟨name, typeAAAA, classINET, 0⟩ a

end Dns

open Dns

/-- `DNSResponder`. -/
structure DNSResponder where
  address : GoString
  domains : List GoString

/-- `NewDNSResponder`. -/
def newDNSResponder (address : GoString) (domains : List GoString) : DNSResponder :=
  ⟨address, domains⟩

/-- The patterns that `Serve` gives to `handleDNS`. -/
def DNSResponder.patterns (d : DNSResponder) : List GoString :=
  d.domains.map fun domain => domain ++ ".".toList

/-- `handleDNS`: the message it writes; `none` when it panics. -/
def handleDNS (lib : Library) (w : ResponseWriter) (r : Msg) : Option Msg :=
  match r.question with
  | [] => none
  | q :: _ =>
      let m := lib.setReply r
      let rr := record q.name w.remoteAddr.ip
      let m := if q.qtype = typeAAAA ∨ q.qtype = typeA then { m with answer := m.answer ++ [rr] }
        else m
      if lib.isTsig r then
        match w.tsigStatus with
        | some _ => some m
        | none =>
            match r.extra.getLast? with
            | some (.tsig hdr) => some (lib.setTsig m hdr.name lib.hmacMD5 300 w.now)
            | _ => none
      else some m

/-! ## What the library is relied on for -/

/-- The characters of a host name as browsers send it. -/
def nameChar (c : Char) : Bool := c.isLower || c.isDigit || c = '-' || c = '_' || c = '.'

/-- A host name in lower case, none of whose labels is empty. -/
structure HostName (host : GoString) : Prop where
  chars : ∀ c ∈ host, nameChar c = true
  labels : [] ∉ Strings.split host '.'

/-- A pattern is for its own name, and for all names below it; that of the root is for all. -/
def Dns.Covers (pattern name : GoString) : Prop :=
  pattern = ".".toList ∨ pattern = name ∨ '.' :: pattern <:+ name

instance (pattern name : GoString) : Decidable (Covers pattern name) :=
  inferInstanceAs (Decidable (_ ∨ _ ∨ _))

/-- **What the library promises**: a reply begins as the request's, without an answer; a
signature comes last in its section, and signing leaves the rest of a message alone; and the
handlers are called for the names that their patterns, all absolute, cover. -/
structure Dns.Library.Documented (lib : Library) : Prop where
  setReply : ∀ r, lib.setReply r = ⟨r.id, true, r.question.take 1, [], []⟩
  isTsig : ∀ r, lib.isTsig r = true → ∃ hdr, r.extra.getLast? = some (.tsig hdr)
  setTsig : ∀ m name algo fudge now, ∃ extra,
    lib.setTsig m name algo fudge now = { m with extra := extra }
  handles : ∀ patterns q host,
    (∀ p ∈ patterns, ".".toList <:+ p ∧ ∀ c ∈ p, nameChar c = true) → HostName host →
      q.name = host ++ ".".toList →
        (lib.handles patterns q = true ↔ ∃ p ∈ patterns, Covers p q.name)

/-! ## The answers -/

/-- **Every question is answered**, with the address of whoever asks or with nothing. -/
theorem answer_of_handleDNS {lib : Library} (documented : lib.Documented) {w : ResponseWriter}
    {r : Msg} {q : Question} (asked : r.question = [q]) :
    ∃ m, handleDNS lib w r = some m ∧ m.id = r.id ∧ m.question = [q] ∧
      m.answer = if q.qtype = typeAAAA ∨ q.qtype = typeA then [record q.name w.remoteAddr.ip]
        else [] := by
  obtain ⟨m, reply, id, question, answer⟩ : ∃ m, (if q.qtype = typeAAAA ∨ q.qtype = typeA then
        { lib.setReply r with answer := (lib.setReply r).answer ++ [record q.name w.remoteAddr.ip] }
      else lib.setReply r) = m ∧ m.id = r.id ∧ m.question = [q] ∧
      m.answer = if q.qtype = typeAAAA ∨ q.qtype = typeA then [record q.name w.remoteAddr.ip]
        else [] := by
    refine ⟨_, rfl, ?_⟩
    rw [documented.setReply r, asked]
    split <;> simp
  have unsigned : handleDNS lib w r = if lib.isTsig r then
        match w.tsigStatus with
        | some _ => some m
        | none =>
            match r.extra.getLast? with
            | some (.tsig hdr) => some (lib.setTsig m hdr.name lib.hmacMD5 300 w.now)
            | _ => none
      else some m := by
    rw [handleDNS, asked, ← reply]
  by_cases signed : lib.isTsig r = true
  · rw [unsigned, if_pos signed]
    cases status : w.tsigStatus with
    | some err => exact ⟨m, rfl, id, question, answer⟩
    | none =>
        obtain ⟨hdr, last⟩ := documented.isTsig r signed
        obtain ⟨extra, signs⟩ := documented.setTsig m hdr.name lib.hmacMD5 300 w.now
        refine ⟨_, by rw [last], ?_⟩
        rw [signs]
        exact ⟨id, question, answer⟩
  · rw [unsigned, if_neg signed]
    exact ⟨m, rfl, id, question, answer⟩

/-! ## The start -/

/-- What puma-dev has set up for names when it begins to serve. -/
structure NameService where
  /-- The files in `/etc/resolver`. -/
  resolver : List (GoString × GoString)
  dns : DNSResponder
  /-- `http.Domains`. -/
  domains : List GoString

/-- `domains` of `main`, before they are sorted. -/
def givenDomains (fPow : Bool) (fDomains : GoString) : List GoString :=
  Strings.split (if fPow then "dev".toList else fDomains) ':'

/-- `main` from `ConfigureResolver` on, as far as names are concerned; `none` when it gives up.
`setupOurCert` is the error of `SetupOurCert`. -/
def startNameService (os : ResolverOs) (setupOurCert : Option GoError) (domains : List GoString)
    (fDNSPort : ℤ) : Option NameService :=
  match configureResolver os domains fDNSPort, setupOurCert with
  | (written, none), none =>
      let dns := newDNSResponder ("127.0.0.1:".toList ++ Strconv.itoa fDNSPort) domains
      some ⟨written, dns, domains⟩
  | _, _ => none

/-- What has been set up, and that writing the files has not failed. -/
theorem started_of_startNameService {os : ResolverOs} {setupOurCert : Option GoError}
    {domains : List GoString} {fDNSPort : ℤ} {service : NameService}
    (h : startNameService os setupOurCert domains fDNSPort = some service) :
    service = ⟨domains.map (fun d =>
        (Filepath.join [etcDir, d], resolverBody (Strconv.itoa fDNSPort))),
      ⟨"127.0.0.1:".toList ++ Strconv.itoa fDNSPort, domains⟩, domains⟩ ∧
      ∀ d ∈ domains, os.writeFile (Filepath.join [etcDir, d])
        (resolverBody (Strconv.itoa fDNSPort)) = none := by
  rcases configured : configureResolver os domains fDNSPort with ⟨written, err | err⟩
  · cases setupOurCert with
    | some err => simp [startNameService, configured] at h
    | none =>
        simp only [startNameService, configured, Option.some.injEq] at h
        unfold configureResolver at configured
        split at configured
        · cases configured
        · obtain ⟨rfl, each⟩ := writeResolvers_of_ok configured
          exact ⟨h.symm, each⟩
  · simp [startNameService, configured] at h

/-! ## Names and domains -/

/-- A host that ends in a domain ends in a longest one. -/
theorem exists_longestDomain {domains : List GoString} {host : GoString}
    (ends : ∃ d ∈ domains, EndsIn host d) : ∃ d, LongestDomain domains host d := by
  obtain ⟨d, mem, here⟩ := ends
  have nonempty : (domains.filter fun d => EndsIn host d).toFinset.Nonempty :=
    ⟨d, by simp [mem, here]⟩
  obtain ⟨longest, mem, longer⟩ := Finset.exists_max_image _ List.length nonempty
  simp only [List.mem_toFinset, List.mem_filter, decide_eq_true_eq] at mem longer
  exact ⟨longest, mem.1, mem.2, fun d' mem' ends' => longer d' ⟨mem', ends'⟩⟩

/-- The pattern of a domain covers the domain, and the hosts that end in it. -/
theorem covers_iff {d host : GoString} (nonempty : d ≠ []) :
    Covers (d ++ ".".toList) (host ++ ".".toList) ↔ d = host ∨ EndsIn host d := by
  have notRoot : d ++ ".".toList ≠ ".".toList := by simpa using nonempty
  have below : '.' :: (d ++ ".".toList) <:+ host ++ ".".toList ↔ EndsIn host d := by
    rw [← List.cons_append, List.suffix_append_self_iff]
    rfl
  rw [Covers, below, or_iff_right notRoot, List.append_cancel_right_eq]

/-- The patterns of a DNS server cover the hosts that are one of its domains, or end in one. -/
theorem covered_iff {responder : DNSResponder} {host : GoString}
    (nonempty : ∀ d ∈ responder.domains, d ≠ []) :
    (∃ p ∈ responder.patterns, Covers p (host ++ ".".toList)) ↔
      host ∈ responder.domains ∨ ∃ d, LongestDomain responder.domains host d := by
  constructor
  · rintro ⟨p, listed, covers⟩
    obtain ⟨d, mem, rfl⟩ := List.mem_map.mp listed
    rcases (covers_iff (nonempty d mem)).mp covers with rfl | ends
    · exact .inl mem
    · exact .inr (exists_longestDomain ⟨d, mem, ends⟩)
  · rintro (own | ⟨d, longest⟩)
    · exact ⟨_, List.mem_map_of_mem own, (covers_iff (nonempty host own)).mpr (.inl rfl)⟩
    · exact ⟨_, List.mem_map_of_mem longest.mem,
        (covers_iff (nonempty d longest.mem)).mpr (.inr longest.ends)⟩

/-- The patterns are absolute, and those of domains in lower case are in lower case. -/
theorem absolute_of_patterns {responder : DNSResponder}
    (lower : ∀ d ∈ responder.domains, ∀ c ∈ d, nameChar c = true) :
    ∀ p ∈ responder.patterns, ".".toList <:+ p ∧ ∀ c ∈ p, nameChar c = true := by
  intro p listed
  obtain ⟨d, mem, rfl⟩ := List.mem_map.mp listed
  refine ⟨List.suffix_append d _, fun c inside => ?_⟩
  rcases List.mem_append.mp inside with own | dot
  · exact lower d mem c own
  · rw [List.mem_singleton.mp dot]
    decide

/-- A host name has no port, and no brackets. -/
theorem HostName.unported {host : GoString} (name : HostName host) : Unported host := by
  refine ⟨fun mem => ?_, fun mem => ?_, fun mem => ?_⟩ <;>
  · have char := name.chars _ mem
    revert char
    decide

/-! ## From the question to the name of the app -/

/-- **Names lead to the server, and to the right app.**  However the domains are given and
sorted, if they are made of the characters of host names in lower case: if puma-dev has started,
then for every such host name

* its DNS server answers questions about the host exactly if the host is one of the domains or
  ends in one;
* and if it ends in one, the longest of these, `d`, has a file among the resolver's, with the
  port of the DNS server; questions that are sent there from this machine are answered with its
  address 127.0.0.1, questions about addresses with just this, and all others with nothing; and
  what the HTTP server takes off the host, with a port or without, is `d`, unless the host is one
  under xip.io or nip.io. -/
theorem names_lead_here {lib : Library} (documented : lib.Documented) {fPow : Bool}
    {fDomains : GoString} {domains : List GoString}
    (sorted : SortedDomains (givenDomains fPow fDomains) domains) {os : ResolverOs}
    {setupOurCert : Option GoError} {fDNSPort : ℤ} {service : NameService}
    (started : startNameService os setupOurCert domains fDNSPort = some service)
    (directory : ∀ text, (os.writeFile etcDir text).isSome)
    (lower : ∀ d ∈ domains, ∀ c ∈ d, nameChar c = true) {host : GoString} (name : HostName host) :
    (∀ q, q.name = host ++ ".".toList → (lib.handles service.dns.patterns q = true ↔
      host ∈ givenDomains fPow fDomains ∨
        ∃ d, LongestDomain (givenDomains fPow fDomains) host d)) ∧
    ∀ d, LongestDomain (givenDomains fPow fDomains) host d →
      (∃ port, service.dns.address = "127.0.0.1:".toList ++ port ∧
        (Filepath.join [etcDir, d], resolverBody port) ∈ service.resolver) ∧
      (∀ w r q, r.question = [q] → to4 w.remoteAddr.ip = some [127, 0, 0, 1] →
        ∃ m, handleDNS lib w r = some m ∧ m.id = r.id ∧ m.question = [q] ∧
          m.answer = if q.qtype = typeAAAA ∨ q.qtype = typeA then
            [.a ⟨q.name, typeA, classINET, 0⟩ [127, 0, 0, 1]] else []) ∧
      ∀ header, Spelled host header → ¬ IsIpHost header →
        host = removeTLD service.domains header ++ '.' :: d := by
  obtain ⟨rfl, written⟩ := started_of_startNameService started
  -- an empty domain would be the directory itself
  have nonempty : ∀ d ∈ domains, d ≠ [] := by
    rintro d mem rfl
    have failed := directory (resolverBody (Strconv.itoa fDNSPort))
    have same : Filepath.join [etcDir, []] = etcDir := by decide
    rw [← same, written [] mem] at failed
    cases failed
  have same : domains.Perm (givenDomains fPow fDomains) := sorted.perm
  refine ⟨fun q asked => ?_, fun d longest => ⟨?_, fun w r q asked here => ?_, ?_⟩⟩
  · rw [documented.handles _ q host (absolute_of_patterns lower) name asked, asked,
      covered_iff nonempty]
    refine or_congr same.mem_iff ⟨?_, ?_⟩
    · exact fun ⟨d, longest⟩ => ⟨d, longest.perm same.symm⟩
    · exact fun ⟨d, longest⟩ => ⟨d, longest.perm same⟩
  · exact ⟨Strconv.itoa fDNSPort, rfl, List.mem_map_of_mem (same.mem_iff.mpr longest.mem)⟩
  · obtain ⟨m, writes, id, question, answer⟩ := answer_of_handleDNS documented asked
    refine ⟨m, writes, id, question, ?_⟩
    rw [answer, record, here]
  · intro header spelled named
    have called := sorted.nameFor named
    rw [hostName_of_spelled name.unported spelled] at called
    cases called with
    | stripped d' longest' split =>
        rw [longest.unique longest']
        exact split
    | dropped _ none_ | whole none_ => exact absurd longest.ends (none_ d longest.mem)

/-- A library as promised. -/
def plainLibrary : Library where
  setReply r := ⟨r.id, true, r.question.take 1, [], []⟩
  isTsig r := match r.extra.getLast? with
    | some (.tsig _) => true
    | _ => false
  setTsig m name _ _ _ := { m with extra := m.extra ++ [.tsig ⟨name, 250, 255, 0⟩] }
  hmacMD5 := "hmac-md5.sig-alg.reg.int.".toList
  handles patterns q := patterns.any fun pattern => Covers pattern q.name

theorem documented_plainLibrary : plainLibrary.Documented where
  setReply _ := rfl
  isTsig r signed := by
    simp only [plainLibrary] at signed
    split at signed
    · next hdr last => exact ⟨hdr, last⟩
    · cases signed
  setTsig m name _ _ _ := ⟨m.extra ++ [.tsig ⟨name, 250, 255, 0⟩], rfl⟩
  handles patterns q host _ _ _ := by simp [plainLibrary]

/-- Files can be written into the directory, and the directory itself cannot. -/
def writableEtc : ResolverOs where
  mkdirAll _ := none
  writeFile path _ :=
    if path = etcDir then some (.other "open /etc/resolver: is a directory".toList) else none

theorem isSome_writeFile_etcDir (text : GoString) :
    (writableEtc.writeFile etcDir text).isSome = true := by
  rw [writableEtc]
  dsimp only
  rw [if_pos rfl]
  rfl

/-- Two domains, one in the other. -/
theorem names_lead_here_blog : ∃ service,
    startNameService writableEtc none ["co.test".toList, "test".toList] 9253 = some service ∧
      plainLibrary.handles service.dns.patterns
        ⟨"blog.co.test.".toList, typeA, classINET⟩ = true ∧
      (∃ port, service.dns.address = "127.0.0.1:".toList ++ port ∧
        (Filepath.join [etcDir, "co.test".toList], resolverBody port) ∈ service.resolver) ∧
      "blog.co.test".toList =
        removeTLD service.domains "blog.co.test:8080".toList ++ '.' :: "co.test".toList := by
  obtain ⟨service, started⟩ : ∃ service, startNameService writableEtc none
    ["co.test".toList, "test".toList] 9253 = some service := ⟨_, rfl⟩
  have sorted : SortedDomains (givenDomains false "test:co.test".toList)
      ["co.test".toList, "test".toList] := ⟨by decide, by decide⟩
  have name : HostName "blog.co.test".toList := ⟨by decide, by decide⟩
  have longest : LongestDomain (givenDomains false "test:co.test".toList) "blog.co.test".toList
      "co.test".toList := ⟨by decide, by decide, by decide⟩
  obtain ⟨answered, led⟩ := names_lead_here documented_plainLibrary sorted started
    isSome_writeFile_etcDir (by decide) name
  obtain ⟨file, -, taken⟩ := led "co.test".toList longest
  exact ⟨service, started, (answered _ rfl).mpr (.inr ⟨_, longest⟩), file,
    taken _ (.port "8080".toList (by decide)) (by decide)⟩

end PumaDev
