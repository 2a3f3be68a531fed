import PumaDev.Go.Bytes

/-!
# The certificate authority

HTTPS needs a key pair of its own: `SetupOurCert` takes the one in the support
directory, or generates one, writes it there and has it trusted.  What keys,
certificates and their PEM texts are is left open (`X509`); what is modelled is the
two files, `CACert`, and which step of a run fails (`SetupOs`).

The two files are not always written whole: the errors of `pem.Encode` are ignored,
so any part of a text may be all that reaches a file.

`SetupOutcome` lists what a run can come to, and `outcome_setupOurCert` says that it comes
to one of these.  Whatever is proved about runs is proved from it.
-/

namespace PumaDev

/-- What `crypto/x509`, `encoding/pem` and `crypto/tls` make of keys and certificates. -/
structure X509 (Key Der KeyPair : Type) where
  /-- The block that is written to `cert.pem`. -/
  certPem : Der → Bytes
  /-- The block that is written to `key.pem`. -/
  keyPem : Key → Bytes
  /-- `tls.X509KeyPair`: `none` where a text is corrupt, or the two do not match. -/
  keyPair : Bytes → Bytes → Option KeyPair

/-- The world during one run of `SetupOurCert`; an error is there by its message. -/
structure SetupOs (Key Der : Type) where
  mkdirAll : Option GoString
  /-- Reading `cert.pem`, where there is one. -/
  readCert : Option GoString
  /-- Reading `key.pem`, where there is one. -/
  readKey : Option GoString
  generateKey : Except GoString Key
  serialNumber : Except GoString ℕ
  createCertificate : Key → ℕ → Except GoString Der
  /-- `os.Create(certPath)`. -/
  createCert : Option GoString
  /-- How many bytes of its block reach `cert.pem`. -/
  certWritten : ℕ
  /-- `os.OpenFile(keyPath, ...)`. -/
  openKey : Option GoString
  /-- How many bytes of its block reach `key.pem`. -/
  keyWritten : ℕ
  trustCert : Option GoString
  /-- `errors.Context`. -/
  errorsContext : GoString → GoString → GoString

/-- The support directory: what is in `cert.pem` and `key.pem`, where they exist. -/
structure SupportFiles where
  cert : Option Bytes
  key : Option Bytes
  deriving DecidableEq

section Setup

variable {Key Der KeyPair : Type} (x : X509 Key Der KeyPair)

namespace SupportFiles

/-- The key pair that is stored, if the files are one. -/
def pair (files : SupportFiles) : Option KeyPair :=
  files.cert.bind fun cert => files.key.bind fun key => x.keyPair cert key

/-- `tls.LoadX509KeyPair`. -/
def loadX509KeyPair (os : SetupOs Key Der) (files : SupportFiles) : Option KeyPair :=
  if os.readCert = none ∧ os.readKey = none then files.pair x else none

end SupportFiles

namespace SetupOs

variable (os : SetupOs Key Der)

/-- The first part of `GeneratePumaDevCertificateAuthority`: a new key, and a certificate
for it. -/
def generate : Except GoString (Key × Der) :=
  match os.generateKey with
  | .error err => .error (os.errorsContext err "generating new RSA key".toList)
  | .ok priv =>
      match os.serialNumber with
      | .error err => .error (os.errorsContext err "generating serial number".toList)
      | .ok serialNumber =>
          match os.createCertificate priv serialNumber with
          | .error err => .error (os.errorsContext err "creating CA cert".toList)
          | .ok derBytes => .ok (priv, derBytes)

/-- What reaches `cert.pem`. -/
def writtenCert (derBytes : Der) : Bytes := (x.certPem derBytes).take os.certWritten

/-- What reaches `key.pem`. -/
def writtenKey (priv : Key) : Bytes := (x.keyPem priv).take os.keyWritten

end SetupOs

/-- `GeneratePumaDevCertificateAuthority`. -/
def generatePumaDevCertificateAuthority (os : SetupOs Key Der) (files : SupportFiles) :
    SupportFiles × Option GoString :=
  match os.generate with
  | .error err => (files, some err)
  | .ok (priv, derBytes) =>
      match os.createCert with
      | some err => (files, some (os.errorsContext err "writing cert.pem".toList))
      | none =>
          let files := { files with cert := some (os.writtenCert x derBytes) }
          match os.openKey with
          | some err => (files, some (os.errorsContext err "writing key.pem".toList))
          | none => ({ files with key := some (os.writtenKey x priv) }, none)

/-- What a run of `SetupOurCert` leaves behind. -/
structure Setup (KeyPair : Type) where
  files : SupportFiles
  /-- The certificate that was passed to a `TrustCert` that succeeded. -/
  trusted : Option Bytes
  /-- `CACert`. -/
  caCert : Option KeyPair
  err : Option GoString

/-- `SetupOurCert`, from a value of `CACert`. -/
def setupOurCert (os : SetupOs Key Der) (caCert : Option KeyPair) (files : SupportFiles) :
    Setup KeyPair :=
  match os.mkdirAll with
  | some err => ⟨files, none, caCert, some err⟩
  | none =>
      match files.loadX509KeyPair x os with
      | some tlsCert => ⟨files, none, some tlsCert, none⟩
      | none =>
          match generatePumaDevCertificateAuthority x os files with
          | (files, some certGenErr) => ⟨files, none, caCert, some certGenErr⟩
          | (files, none) =>
              match os.trustCert with
              | some trustCertErr => ⟨files, none, caCert, some trustCertErr⟩
              | none => ⟨files, files.cert, caCert, none⟩

/-! ## What a run comes to -/

/-- The run gets as far as writing a new certificate. -/
structure Regenerates (os : SetupOs Key Der) (files : SupportFiles) (priv : Key)
    (derBytes : Der) : Prop where
  mkdirAll : os.mkdirAll = none
  unloaded : files.loadX509KeyPair x os = none
  generated : os.generate = .ok (priv, derBytes)
  createCert : os.createCert = none

/-- What a run of `SetupOurCert` can come to. -/
inductive SetupOutcome (os : SetupOs Key Der) (caCert : Option KeyPair) (files : SupportFiles) :
    Setup KeyPair → Prop
  /-- It fails before it writes anything. -/
  | stopped {err : GoString} (mkdirAll : os.mkdirAll ≠ none ∨ os.createCert ≠ none ∨
      ∃ err, os.generate = .error err) :
      SetupOutcome os caCert files ⟨files, none, caCert, some err⟩
  /-- It finds a key pair. -/
  | loaded {tlsCert : KeyPair} (mkdirAll : os.mkdirAll = none)
      (loads : files.loadX509KeyPair x os = some tlsCert) :
      SetupOutcome os caCert files ⟨files, none, some tlsCert, none⟩
  /-- It writes a certificate and cannot write the key. -/
  | keyless {priv : Key} {derBytes : Der} {err : GoString}
      (regenerates : Regenerates x os files priv derBytes) (openKey : os.openKey ≠ none) :
      SetupOutcome os caCert files
        ⟨{ files with cert := some (os.writtenCert x derBytes) }, none, caCert, some err⟩
  /-- It writes both, and the certificate is not trusted. -/
  | refused {priv : Key} {derBytes : Der} {err : GoString}
      (regenerates : Regenerates x os files priv derBytes) (openKey : os.openKey = none)
      (trustCert : os.trustCert ≠ none) :
      SetupOutcome os caCert files
        ⟨⟨some (os.writtenCert x derBytes), some (os.writtenKey x priv)⟩, none, caCert,
          some err⟩
  /-- It writes both, and the certificate is trusted. -/
  | trusted {priv : Key} {derBytes : Der}
      (regenerates : Regenerates x os files priv derBytes) (openKey : os.openKey = none)
      (trustCert : os.trustCert = none) :
      SetupOutcome os caCert files
        ⟨⟨some (os.writtenCert x derBytes), some (os.writtenKey x priv)⟩,
          some (os.writtenCert x derBytes), caCert, none⟩

/-- **Every run comes to one of these.** -/
theorem outcome_setupOurCert (os : SetupOs Key Der) (caCert : Option KeyPair)
    (files : SupportFiles) : SetupOutcome x os caCert files (setupOurCert x os caCert files) := by
  unfold setupOurCert
  cases mkdirAll : os.mkdirAll with
  | some err => exact .stopped (Or.inl (by simp [mkdirAll]))
  | none =>
      dsimp only
      cases loads : files.loadX509KeyPair x os with
      | some tlsCert => exact .loaded mkdirAll loads
      | none =>
          unfold generatePumaDevCertificateAuthority
          cases generated : os.generate with
          | error err => exact .stopped (Or.inr (Or.inr ⟨err, generated⟩))
          | ok made =>
              obtain ⟨priv, derBytes⟩ := made
              cases createCert : os.createCert with
              | some err => exact .stopped (Or.inr (Or.inl (by simp [createCert])))
              | none =>
                  have regenerates : Regenerates x os files priv derBytes :=
                    ⟨mkdirAll, loads, generated, createCert⟩
                  cases openKey : os.openKey with
                  | some err => exact .keyless regenerates (by simp [openKey])
                  | none =>
                      cases trustCert : os.trustCert with
                      | some err => exact .refused regenerates openKey (by simp [trustCert])
                      | none => exact .trusted regenerates openKey trustCert

end Setup

end PumaDev
