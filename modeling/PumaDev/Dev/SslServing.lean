import PumaDev.Dev.SslTrust

/-!
# A certificate authority for every handshake

Each TLS handshake asks `GetCertificate` for a certificate, and `makeCert` signs one
with `CACert`.  Nothing between `SetupOurCert` and the handshakes sets `CACert`, and
nothing asks whether it is nil.

`HasCA` says that a run of `SetupOurCert` that returns nil leaves `CACert` with the
stored key pair, so that no handshake panics.  `hasCA_iff` is the exact condition:
the key pair is there already.
-/

namespace PumaDev

/-- The world during one handshake; an error is there by its message. -/
structure HelloOs (KeyPair Parent Cert : Type) where
  /-- `ecdsa.GenerateKey`. -/
  generateKey : Option GoString
  /-- `rand.Int`. -/
  serialNumber : Option GoString
  /-- `x509.ParseCertificate(parent.Certificate[0])`. -/
  parseCertificate : KeyPair → Except GoString Parent
  /-- `x509.CreateCertificate`, with the name, `x509parent` and `parent`. -/
  createCertificate : GoString → Parent → KeyPair → Except GoString Cert

section Handshakes

variable {KeyPair Parent Cert σ : Type}

/-- `makeCert`; `none` when it dereferences a parent that is nil. -/
def makeCert (os : HelloOs KeyPair Parent Cert) (parent : Option KeyPair) (name : GoString) :
    Option (Except GoString Cert) :=
  match os.generateKey with
  | some err => some (.error ("failed to generate private key: ".toList ++ err))
  | none =>
      match os.serialNumber with
      | some err => some (.error ("failed to generate serial number: ".toList ++ err))
      | none =>
          parent.map fun parent =>
            match os.parseCertificate parent with
            | .error err => .error err
            | .ok x509parent =>
                match os.createCertificate name x509parent parent with
                | .error err => .error ("could not create certificate: ".toList ++ err)
                | .ok tlsCert => .ok tlsCert

/-- `lru.ARCCache`, as `certCache` uses it. -/
structure ARCCache (σ Cert : Type) where
  new : σ
  get : σ → GoString → σ × Option Cert
  add : σ → GoString → Cert → σ

/-- `certCache.GetCertificate`, for a server name; `none` when it panics. -/
def getCertificate (c : ARCCache σ Cert) (caCert : Option KeyPair) (cache : σ)
    (os : HelloOs KeyPair Parent Cert) (name : GoString) : Option (σ × Except GoString Cert) :=
  match c.get cache name with
  | (cache, some val) => some (cache, .ok val)
  | (cache, none) =>
      (makeCert os caCert name).map fun
        | .error err => (cache, .error err)
        | .ok cert => (c.add cache name cert, .ok cert)

/-- The handshakes of one process, from a new cache; a label is the server name of one
and what the world is like. -/
def handshakes (c : ARCCache σ Cert) (caCert : Option KeyPair) :
    Machine σ (GoString × HelloOs KeyPair Parent Cert) where
  init := c.new
  step cache hello := (getCertificate c caCert cache hello.2 hello.1).map Prod.fst

/-- With a parent there is no panic. -/
theorem isSome_makeCert (os : HelloOs KeyPair Parent Cert) (parent : KeyPair) (name : GoString) :
    (makeCert os (some parent) name).isSome := by
  unfold makeCert
  split
  · rfl
  · split <;> rfl

/-- With `CACert` set every handshake is answered, whatever the cache does. -/
theorem isSome_handshakes (c : ARCCache σ Cert) (caCert : KeyPair)
    (hellos : List (GoString × HelloOs KeyPair Parent Cert)) (cache : σ) :
    ((handshakes c (some caCert)).exec cache hellos).isSome := by
  refine (handshakes c (some caCert)).isSome_exec (fun cache hello => ?_) hellos cache
  obtain ⟨answer, made⟩ := Option.isSome_iff_exists.mp (isSome_makeCert hello.2 caCert hello.1)
  simp only [handshakes, getCertificate]
  rcases c.get cache hello.1 with ⟨cache', val | _⟩
  · simp [made]
  · rfl

end Handshakes

/-! ## After setup -/

section Setup

variable {Key Der KeyPair : Type} (x : X509 Key Der KeyPair)

/-- If `SetupOurCert` returns nil in a fresh process, `CACert` is the key pair that is
now stored, and no sequence of handshakes panics. -/
def HasCA (os : SetupOs Key Der) (files : SupportFiles) : Prop :=
  let run := setupOurCert x os none files
  run.err = none →
    (∃ tlsCert, run.caCert = some tlsCert ∧ run.files.pair x = some tlsCert) ∧
      ∀ (Parent Cert σ : Type) (c : ARCCache σ Cert)
        (hellos : List (GoString × HelloOs KeyPair Parent Cert)),
        ((handshakes c run.caCert).exec c.new hellos).isSome

/-- A step of the run fails that is on the way to a new key pair. -/
def CannotGenerate (os : SetupOs Key Der) : Prop :=
  os.mkdirAll ≠ none ∨ os.createCert ≠ none ∨ (∃ err, os.generate = .error err) ∨
    os.openKey ≠ none ∨ os.trustCert ≠ none

/-- **When HTTPS has a certificate authority.**  For every content of the support
directory and whatever a run of `SetupOurCert` meets: if it returns nil, `CACert` is
the stored key pair and no later handshake panics, if and only if a key pair was
there to be loaded — or the run fails at a step, and does not return nil. -/
theorem hasCA_iff (os : SetupOs Key Der) (files : SupportFiles) :
    HasCA x os files ↔
      (∃ tlsCert, files.loadX509KeyPair x os = some tlsCert) ∨ CannotGenerate os := by
  have outcome := outcome_setupOurCert x os none files
  unfold HasCA
  generalize setupOurCert x os none files = run at outcome
  cases outcome with
  | stopped fails =>
      refine iff_of_true (fun returns => by cases returns) (Or.inr ?_)
      rcases fails with mkdirAll | createCert | generated
      · exact Or.inl mkdirAll
      · exact Or.inr (Or.inl createCert)
      · exact Or.inr (Or.inr (Or.inl generated))
  | @loaded tlsCert _ loads =>
      refine iff_of_true (fun _ => ⟨⟨tlsCert, rfl, ?_⟩, fun Parent Cert σ c hellos => ?_⟩)
        (Or.inl ⟨tlsCert, loads⟩)
      · exact (Option.ite_none_right_eq_some.mp loads).2
      · exact isSome_handshakes c tlsCert hellos c.new
  | keyless _ openKey =>
      exact iff_of_true (fun returns => by cases returns)
        (Or.inr (Or.inr (Or.inr (Or.inr (Or.inl openKey)))))
  | refused _ _ trustCert =>
      exact iff_of_true (fun returns => by cases returns)
        (Or.inr (Or.inr (Or.inr (Or.inr (Or.inr trustCert)))))
  | trusted regenerates openKey trustCert =>
      refine iff_of_false (fun hasCA => ?_) ?_
      · -- nothing has set `CACert`
        obtain ⟨⟨tlsCert, present, -⟩, -⟩ := hasCA rfl
        cases present
      · rintro (⟨tlsCert, loads⟩ | mkdirAll | createCert | ⟨err, generated⟩ | fails | fails)
        · rw [regenerates.unloaded] at loads
          cases loads
        · exact mkdirAll regenerates.mkdirAll
        · exact createCert regenerates.createCert
        · rw [regenerates.generated] at generated
          cases generated
        · exact fails openKey
        · exact fails trustCert

/-- A cache that keeps nothing. -/
def forgetful : ARCCache Unit ℕ where
  new := ()
  get cache _ := (cache, none)
  add cache _ _ := cache

/-- The first start on a machine: there is no key pair yet.  Everything succeeds and the
run returns nil, `CACert` is nil, and the first handshake panics. -/
theorem not_hasCA_first :
    ¬ HasCA TrustRecord.numbered (TrustRecord.workingOs 7) ⟨none, none⟩ ∧
      (handshakes forgetful
        (setupOurCert TrustRecord.numbered (TrustRecord.workingOs 7) none ⟨none, none⟩).caCert).exec
        forgetful.new
        [("blog.test".toList,
          (⟨none, none, .ok, fun _ _ n => .ok n⟩ : HelloOs ℕ ℕ ℕ))] = none := by
  refine ⟨fun hasCA => ?_, by decide⟩
  obtain ⟨⟨tlsCert, present, -⟩, -⟩ := hasCA (by decide)
  exact absurd present (by simp [setupOurCert, TrustRecord.workingOs, SupportFiles.loadX509KeyPair,
    SupportFiles.pair, generatePumaDevCertificateAuthority, SetupOs.generate])

end Setup

end PumaDev
