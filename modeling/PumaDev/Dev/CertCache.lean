import PumaDev.Dev.SslServing
import PumaDev.Go.Duration

/-!
# The certificates that are served

`GetCertificate` answers a handshake from its cache, and makes a certificate only where
the cache has none.  A certificate that `makeCert` makes is for one name and is valid from
now on for a year; what the cache gives back is the same certificate later on, whatever
the time is by then.

`CertMachine` is the handshakes of one process with their times, under one authority.
The cache may forget what it likes (`ARCCache.Honest`); `fits_iff_fresh` says when every
answer fits its handshake: exactly when no certificate is found in the cache that was made
more than a year ago.
-/

namespace PumaDev

/-! ## Certificates -/

namespace Time

/-- `time.Second`, in nanoseconds. -/
def second : ℤ := 1000000000

/-- `365 * 24 * time.Hour`. -/
def year : ℤ := 365 * 24 * 60 * minute

/-- `Time.Truncate(time.Second)`. -/
def truncate (t : ℤ) : ℤ := t - t % second

theorem truncate_le (t : ℤ) : truncate t ≤ t := by
  unfold truncate second
  omega

/-- A year is a whole number of seconds. -/
theorem truncate_add_year (t : ℤ) : truncate (t + year) = truncate t + year := by
  unfold truncate year second minute
  omega

end Time

/-- What the key of a certificate may be used for. -/
inductive KeyUsage where
  | keyEncipherment
  | digitalSignature
  | serverAuth
  deriving DecidableEq

/-- `x509.Certificate`, with times in nanoseconds. -/
structure Certificate where
  serialNumber : ℕ
  organization : List GoString
  commonName : GoString
  notBefore : ℤ
  notAfter : ℤ
  keyUsage : List KeyUsage
  extKeyUsage : List KeyUsage
  dnsNames : List GoString
  deriving DecidableEq

/-- The certificate as `x509.ParseCertificate` reads it back: the encoding has the times to
the second. -/
def Certificate.encoded (cert : Certificate) : Certificate :=
  { cert with
    notBefore := Time.truncate cert.notBefore
    notAfter := Time.truncate cert.notAfter }

/-- `tls.Certificate`, without its key. -/
structure TlsCertificate where
  /-- `Certificate[0]`, the one that is sent, as it is read by those who get it. -/
  certificate : Certificate
  leaf : Certificate
  deriving DecidableEq

/-- What `makeCert` fills in, at the time `now`. -/
def certTemplate (serialNumber : ℕ) (name : GoString) (now : ℤ) : Certificate where
  serialNumber := serialNumber
  organization := ["Puma-dev Signed".toList]
  commonName := name
  notBefore := now
  notAfter := now + Time.year
  keyUsage := [.keyEncipherment, .digitalSignature]
  extKeyUsage := [.serverAuth]
  dnsNames := [name]

/-- The certificate that comes of it. -/
def madeCert (serialNumber : ℕ) (name : GoString) (now : ℤ) : TlsCertificate :=
  ⟨(certTemplate serialNumber name now).encoded, certTemplate serialNumber name now⟩

/-- The certificate is for this name alone, and valid at the time `t`. -/
structure Certificate.Fits (cert : Certificate) (name : GoString) (t : ℤ) : Prop where
  dnsNames : cert.dnsNames = [name]
  notBefore : cert.notBefore ≤ t
  notAfter : t ≤ cert.notAfter

/-- So are the certificate that is sent and the one that is kept beside it. -/
structure TlsCertificate.Fits (cert : TlsCertificate) (name : GoString) (t : ℤ) : Prop where
  certificate : cert.certificate.Fits name t
  leaf : cert.leaf.Fits name t

/-- `makeCert` has made this certificate for this name, at the time in its `NotBefore`. -/
def TlsCertificate.IsFor (cert : TlsCertificate) (name : GoString) : Prop :=
  ∃ serialNumber, cert = madeCert serialNumber name cert.leaf.notBefore

theorem isFor_madeCert (serialNumber : ℕ) (name : GoString) (now : ℤ) :
    (madeCert serialNumber name now).IsFor name := ⟨serialNumber, rfl⟩

/-- **When a certificate fits**: until a year after it was made, to the second. -/
theorem TlsCertificate.IsFor.fits_iff {cert : TlsCertificate} {name : GoString} {t : ℤ}
    (isFor : cert.IsFor name) (later : cert.leaf.notBefore ≤ t) :
    cert.Fits name t ↔ t ≤ Time.truncate cert.leaf.notBefore + Time.year := by
  obtain ⟨serialNumber, made⟩ := isFor
  generalize cert.leaf.notBefore = now at made later ⊢
  subst made
  have begins := Time.truncate_le now
  have ends := Time.truncate_add_year now
  constructor
  · intro fits
    rw [← ends]
    exact fits.certificate.notAfter
  · intro inTime
    refine ⟨⟨rfl, begins.trans later, ?_⟩, ⟨rfl, later, ?_⟩⟩
    · exact inTime.trans ends.ge
    · exact inTime.trans (Int.add_le_add_right begins _)

/-! ## Handshakes in time -/

/-- The cache returns only what was last added under a key, or nothing: `serves cache table`
says that a cache can only return what is in the table. -/
structure ARCCache.Honest {σ Cert : Type} (c : ARCCache σ Cert)
    (serves : σ → (GoString → Option Cert) → Prop) : Prop where
  new : serves c.new fun _ => none
  found : ∀ {cache table name cert}, serves cache table → (c.get cache name).2 = some cert →
    table name = some cert
  get : ∀ {cache table}, serves cache table → ∀ name, serves (c.get cache name).1 table
  add : ∀ {cache table}, serves cache table → ∀ name cert,
    serves (c.add cache name cert) (Function.update table name (some cert))

/-- A call of `GetCertificate`, and the world while it is served; an error is there by its
message. -/
structure CertCall where
  serverName : GoString
  now : ℤ
  generateKey : Option GoString
  serialNumber : Except GoString ℕ
  parseCertificate : Option GoString
  createCertificate : Option GoString

/-- The world as `makeCert` sees it. -/
def CertCall.os (call : CertCall) : HelloOs Certificate Certificate TlsCertificate where
  generateKey := call.generateKey
  serialNumber :=
    match call.serialNumber with
    | .error err => some err
    | .ok _ => none
  parseCertificate parent :=
    match call.parseCertificate with
    | some err => .error err
    | none => .ok parent
  createCertificate name _ _ :=
    match call.createCertificate, call.serialNumber with
    | some err, _ | none, .error err => .error err
    | none, .ok serialNumber => .ok (madeCert serialNumber name call.now)

/-- The cache, and the time of the last call. -/
structure CertServer (σ : Type) where
  cache : σ
  clock : ℤ

section Serving

variable {σ : Type} (c : ARCCache σ TlsCertificate) (ca : Certificate)

/-- What a call comes to: the cache it leaves, and its answer. -/
def CertServer.serve (s : CertServer σ) (call : CertCall) :
    Option (σ × Except GoString TlsCertificate) :=
  getCertificate c (some ca) s.cache call.os call.serverName

/-- The handshakes of one process, from the time `start` on: the clock does not go back, and
the authority is valid. -/
def CertMachine (start : ℤ) : Machine (CertServer σ) CertCall where
  init := ⟨c.new, start⟩
  step s call :=
    if s.clock ≤ call.now ∧ ca.notBefore ≤ call.now ∧ call.now ≤ ca.notAfter then
      (s.serve c ca call).map fun served => ⟨served.1, call.now⟩
    else none

/-- Every certificate that the call returns fits. -/
def CertServer.AnswersFit (s : CertServer σ) (call : CertCall) : Prop :=
  ∀ cache cert, s.serve c ca call = some (cache, .ok cert) → cert.Fits call.serverName call.now

/-- What the cache has for the name was made no more than a year ago. -/
def CertServer.Fresh (s : CertServer σ) (call : CertCall) : Prop :=
  ∀ cert, (c.get s.cache call.serverName).2 = some cert →
    call.now ≤ Time.truncate cert.leaf.notBefore + Time.year

/-- Everything the cache can return was made for its key, and before now. -/
def CertServer.Kept (serves : σ → (GoString → Option TlsCertificate) → Prop)
    (s : CertServer σ) : Prop :=
  ∃ table, serves s.cache table ∧ ∀ name cert, table name = some cert →
    cert.IsFor name ∧ cert.leaf.notBefore ≤ s.clock

variable {c ca}

/-- What `makeCert` makes during a call. -/
theorem makeCert_of_ok {call : CertCall} {cert : TlsCertificate}
    (made : makeCert call.os (some ca) call.serverName = some (.ok cert)) :
    cert.IsFor call.serverName ∧ cert.leaf.notBefore = call.now := by
  unfold makeCert at made
  split at made
  · cases made
  · split at made
    · cases made
    · rw [Option.map_some, Option.some.injEq] at made
      split at made
      · cases made
      · split at made
        · cases made
        · next created =>
            cases made
            simp only [CertCall.os] at created
            split at created
            · cases created
            · cases created
            · cases created
              exact ⟨isFor_madeCert _ _ _, rfl⟩

/-- **One call**: it is answered from the cache, or with a new certificate that the cache
gets, or not at all. -/
theorem serve_cases {s : CertServer σ} {call : CertCall} {cache : σ}
    {answer : Except GoString TlsCertificate} (h : s.serve c ca call = some (cache, answer)) :
    (∃ cert, (c.get s.cache call.serverName).2 = some cert ∧ answer = .ok cert ∧
        cache = (c.get s.cache call.serverName).1) ∨
      ((c.get s.cache call.serverName).2 = none ∧
        ((∃ err, answer = .error err ∧ cache = (c.get s.cache call.serverName).1) ∨
          ∃ cert, answer = .ok cert ∧ cert.IsFor call.serverName ∧
            cert.leaf.notBefore = call.now ∧
            cache = c.add (c.get s.cache call.serverName).1 call.serverName cert)) := by
  unfold CertServer.serve getCertificate at h
  generalize c.get s.cache call.serverName = looked at h ⊢
  rcases looked with ⟨after, _ | val⟩
  · right
    obtain ⟨made, ends, same⟩ := Option.map_eq_some_iff.mp h
    cases made with
    | error err =>
        cases same
        exact ⟨rfl, Or.inl ⟨err, rfl, rfl⟩⟩
    | ok cert =>
        cases same
        obtain ⟨isFor, now⟩ := makeCert_of_ok ends
        exact ⟨rfl, Or.inr ⟨cert, rfl, isFor, now, rfl⟩⟩
  · cases h
    exact Or.inl ⟨_, rfl, rfl, rfl⟩

/-- **One step** keeps what the cache can return. -/
theorem kept_of_step {serves : σ → (GoString → Option TlsCertificate) → Prop}
    (honest : c.Honest serves) {start : ℤ} {s t : CertServer σ} {call : CertCall}
    (kept : s.Kept serves) (h : (CertMachine c ca start).step s call = some t) :
    t.Kept serves := by
  obtain ⟨⟨later, -⟩, served⟩ := Option.ite_none_right_eq_some.mp h
  obtain ⟨⟨cache, answer⟩, ends, rfl⟩ := Option.map_eq_some_iff.mp served
  obtain ⟨table, within, each⟩ := kept
  have since : ∀ name cert, table name = some cert →
      cert.IsFor name ∧ cert.leaf.notBefore ≤ call.now := fun name cert found =>
    ⟨(each name cert found).1, (each name cert found).2.trans later⟩
  have after := honest.get within call.serverName
  rcases serve_cases ends with ⟨-, -, -, rfl⟩ | ⟨-, ⟨-, -, rfl⟩ | ⟨cert, -, isFor, now, rfl⟩⟩
  · exact ⟨table, after, since⟩
  · exact ⟨table, after, since⟩
  · refine ⟨_, honest.add after call.serverName cert, fun name cert' found => ?_⟩
    by_cases same : name = call.serverName
    · subst same
      rw [Function.update_self, Option.some.injEq] at found
      subst found
      exact ⟨isFor, now.le⟩
    · rw [Function.update_of_ne same] at found
      exact since name cert' found

/-- **One call fits** exactly when what the cache has for it is fresh. -/
theorem answersFit_iff_fresh {serves : σ → (GoString → Option TlsCertificate) → Prop}
    (honest : c.Honest serves) {s : CertServer σ} {call : CertCall} (kept : s.Kept serves)
    (later : s.clock ≤ call.now) : s.AnswersFit c ca call ↔ s.Fresh c call := by
  obtain ⟨table, within, each⟩ := kept
  constructor
  · intro fits cert cached
    obtain ⟨isFor, before⟩ := each _ _ (honest.found within cached)
    have answer : s.serve c ca call =
        some ((c.get s.cache call.serverName).1, .ok cert) := by
      unfold CertServer.serve getCertificate
      split
      · next found =>
          rw [found] at cached ⊢
          cases cached
          rfl
      · next missing =>
          rw [missing] at cached
          cases cached
    exact (isFor.fits_iff (before.trans later)).mp (fits _ _ answer)
  · intro fresh cache cert answer
    rcases serve_cases answer with ⟨_, cached, same, -⟩ | ⟨-, ⟨_, failed, -⟩ | made⟩
    · cases same
      obtain ⟨isFor, before⟩ := each _ _ (honest.found within cached)
      exact (isFor.fits_iff (before.trans later)).mpr (fresh cert cached)
    · cases failed
    · obtain ⟨_, same, isFor, now, -⟩ := made
      cases same
      refine (isFor.fits_iff now.le).mpr ?_
      have year : Time.second ≤ Time.year := by decide
      rw [now]
      unfold Time.truncate
      have short : call.now % Time.second < Time.second := Int.emod_lt_of_pos _ (by decide)
      omega

variable (c ca)

/-- **When the certificates that are served fit.**  For every cache that is honest, every
authority and every sequence of calls, with any names, at times that do not go back: every
certificate that is returned is for the name that was asked for and valid at that time, if
and only if whatever is found in the cache was made no more than a year ago. -/
theorem fits_iff_fresh {serves : σ → (GoString → Option TlsCertificate) → Prop}
    (honest : c.Honest serves) (start : ℤ) (calls : List CertCall) :
    (CertMachine c ca start).Guarded (CertServer.AnswersFit c ca)
        (CertMachine c ca start).init calls ↔
      (CertMachine c ca start).Guarded (CertServer.Fresh c)
        (CertMachine c ca start).init calls := by
  refine (CertMachine c ca start).guarded_congr (J := CertServer.Kept serves)
    (fun _ _ _ kept h => kept_of_step honest kept h) ?_ calls ⟨_, honest.new, nofun⟩
  intro s call t kept h
  obtain ⟨⟨later, -⟩, -⟩ := Option.ite_none_right_eq_some.mp h
  exact answersFit_iff_fresh honest kept later

end Serving

/-! ## Two handshakes -/

/-- A cache that has room for everything. -/
def roomyCache : ARCCache (GoString → Option TlsCertificate) TlsCertificate where
  new _ := none
  get cache name := (cache, cache name)
  add cache name cert := Function.update cache name (some cert)

theorem honest_roomyCache : roomyCache.Honest fun cache table => cache = table where
  new := rfl
  found := by
    rintro cache table name cert rfl found
    exact found
  get := by
    rintro cache table rfl name
    rfl
  add := by
    rintro cache table rfl name cert
    rfl

/-- An authority that is valid for 9999 days, from the time 0 on. -/
def testCA : Certificate where
  serialNumber := 1
  organization := ["Developer Certificate".toList]
  commonName := "Puma-dev CA".toList
  notBefore := 0
  notAfter := 9999 * 24 * 60 * Time.minute
  keyUsage := [.keyEncipherment, .digitalSignature]
  extKeyUsage := [.serverAuth]
  dnsNames := []

/-- A handshake for `blog.test`, in a world in which nothing fails. -/
def helloAt (now : ℤ) : CertCall where
  serverName := "blog.test".toList
  now := now
  generateKey := none
  serialNumber := .ok 2
  parseCertificate := none
  createCertificate := none

/-- Two handshakes on the first day. -/
theorem fits_firstDay :
    (CertMachine roomyCache testCA 0).Guarded (CertServer.AnswersFit roomyCache testCA)
      (CertMachine roomyCache testCA 0).init [helloAt 0, helloAt (60 * Time.minute)] := by
  refine (fits_iff_fresh roomyCache testCA honest_roomyCache 0 _).mpr ⟨nofun, ?_, trivial⟩
  intro cert cached
  cases cached
  decide

/-- Two handshakes, the second 366 days after the first: it gets a certificate that has
expired. -/
theorem not_fits_secondYear :
    ¬ (CertMachine roomyCache testCA 0).Guarded (CertServer.AnswersFit roomyCache testCA)
      (CertMachine roomyCache testCA 0).init
        [helloAt 0, helloAt (366 * 24 * 60 * Time.minute)] := by
  rintro ⟨-, second, -⟩
  have expired := (second _ _ rfl).leaf.notAfter
  revert expired
  decide

end PumaDev
