import PumaDev.Dev.Ssl
import PumaDev.Lib.Machine

/-!
# Is a trusted certificate trusted?

`SetupOurCert` has a certificate trusted in the run that generates it, and in no
other: a run that finds a key pair takes it as "previously trusted".  What it finds
is what earlier runs have left, including those that failed.

`Trustworthy` says of a state that the next run, whatever it meets, returns nil only
with a certificate on disk that has been passed to a `TrustCert` that succeeded.
Runs keep this up exactly as long as none leaves a key pair that loads without
having had it trusted (`trustworthy_iff_trustsWhatItLeaves`).
-/

namespace PumaDev

/-- The support directory, and the certificates a `TrustCert` has succeeded for. -/
structure TrustRecord where
  files : SupportFiles
  trusted : List Bytes

namespace TrustRecord

variable {Key Der KeyPair : Type} (x : X509 Key Der KeyPair)

/-- After a run of `SetupOurCert`, in a process of its own. -/
def after (s : TrustRecord) (os : SetupOs Key Der) : TrustRecord :=
  let run := setupOurCert x os none s.files
  ⟨run.files, run.trusted.toList ++ s.trusted⟩

/-- Runs of `SetupOurCert` over one directory. -/
def setupRuns (files : SupportFiles) : Machine TrustRecord (SetupOs Key Der) where
  init := ⟨files, []⟩
  step s os := some (s.after x os)

/-- If the next run returns nil, the certificate then on disk is trusted: whatever this run
meets, not only for the one that happens to follow. -/
def Trustworthy (s : TrustRecord) : Prop :=
  ∀ os : SetupOs Key Der, (setupOurCert x os none s.files).err = none →
    ∃ cert, (s.after x os).files.cert = some cert ∧ cert ∈ (s.after x os).trusted

/-- The files after a run that has written a new certificate. -/
def leaves (s : TrustRecord) (os : SetupOs Key Der) (priv : Key) (derBytes : Der) :
    SupportFiles where
  cert := some (os.writtenCert x derBytes)
  key := if os.openKey = none then some (os.writtenKey x priv) else s.files.key

/-- A run that writes a new certificate leaves no key pair that loads, unless it goes on
to have the certificate trusted, or the same text was trusted before. -/
def TrustsWhatItLeaves (s : TrustRecord) (os : SetupOs Key Der) : Prop :=
  ∀ priv derBytes, Regenerates x os s.files priv derBytes →
    ((s.leaves x os priv derBytes).pair x).isSome →
      (os.openKey = none ∧ os.trustCert = none) ∨ os.writtenCert x derBytes ∈ s.trusted

/-- A key pair that is stored has a trusted certificate. -/
def PairTrusted (s : TrustRecord) : Prop :=
  ∀ cert, s.files.cert = some cert → (s.files.pair x).isSome → cert ∈ s.trusted

/-- A world in which a run can read, and no more. -/
def readingOs : SetupOs Key Der where
  mkdirAll := none
  readCert := none
  readKey := none
  generateKey := .error "no entropy".toList
  serialNumber := .error "no entropy".toList
  createCertificate _ _ := .error "no key".toList
  createCert := some "read-only file system".toList
  certWritten := 0
  openKey := some "read-only file system".toList
  keyWritten := 0
  trustCert := some "no keychain".toList
  errorsContext err context := context ++ ": ".toList ++ err

/-- The next run is to be trusted exactly when what it may find is. -/
theorem trustworthy_iff {s : TrustRecord} : s.Trustworthy x ↔ s.PairTrusted x := by
  constructor
  · intro trust cert here paired
    obtain ⟨tlsCert, pair⟩ := Option.isSome_iff_exists.mp paired
    have run : setupOurCert x readingOs none s.files = ⟨s.files, none, some tlsCert, none⟩ := by
      simp [setupOurCert, SupportFiles.loadX509KeyPair, readingOs, pair]
    obtain ⟨cert', there, trusted⟩ := trust readingOs (by rw [run])
    simp only [after, run] at there trusted
    rw [here] at there
    cases there
    exact trusted
  · intro trusted os returns
    have outcome := outcome_setupOurCert x os none s.files
    simp only [after]
    generalize setupOurCert x os none s.files = run at outcome returns
    cases outcome with
    | stopped | keyless | refused => cases returns
    | loaded mkdirAll loads =>
        obtain ⟨-, pair⟩ := Option.ite_none_right_eq_some.mp loads
        obtain ⟨cert, here, -⟩ := Option.bind_eq_some_iff.mp pair
        exact ⟨cert, here, trusted cert here (Option.isSome_of_eq_some pair)⟩
    | trusted => exact ⟨_, rfl, List.mem_cons_self⟩

/-- A run that writes a certificate and does not have it trusted. -/
theorem pairTrusted_leaves {s : TrustRecord} {os : SetupOs Key Der} {priv : Key}
    {derBytes : Der} (regenerates : Regenerates x os s.files priv derBytes)
    (fails : ¬ (os.openKey = none ∧ os.trustCert = none)) :
    PairTrusted x ⟨s.leaves x os priv derBytes, s.trusted⟩ ↔ s.TrustsWhatItLeaves x os := by
  constructor
  · intro left priv' derBytes' regenerates' paired
    have same := regenerates'.generated.symm.trans regenerates.generated
    cases same
    exact Or.inr (left _ rfl paired)
  · intro trusts cert here paired
    cases here
    exact (trusts priv derBytes regenerates paired).resolve_left fails

/-- **One run** leaves a trusted pair exactly when it trusts what it leaves. -/
theorem pairTrusted_after {s : TrustRecord} (trusted : s.PairTrusted x) (os : SetupOs Key Der) :
    (s.after x os).PairTrusted x ↔ s.TrustsWhatItLeaves x os := by
  have outcome := outcome_setupOurCert x os none s.files
  simp only [after]
  generalize setupOurCert x os none s.files = run at outcome
  cases outcome with
  | stopped fails =>
      refine iff_of_true trusted fun priv derBytes regenerates => ?_
      rcases fails with mkdirAll | createCert | ⟨err, generated⟩
      · exact absurd regenerates.mkdirAll mkdirAll
      · exact absurd regenerates.createCert createCert
      · rw [regenerates.generated] at generated
        cases generated
  | loaded _ loads =>
      refine iff_of_true trusted fun priv derBytes regenerates => ?_
      rw [regenerates.unloaded] at loads
      cases loads
  | keyless regenerates openKey =>
      rw [← pairTrusted_leaves x regenerates fun both => openKey both.1, leaves, if_neg openKey]
      rfl
  | refused regenerates openKey trustCert =>
      rw [← pairTrusted_leaves x regenerates fun both => trustCert both.2, leaves,
        if_pos openKey]
      rfl
  | trusted _ openKey trustCert =>
      refine iff_of_true (fun cert here _ => ?_) fun _ _ _ _ => Or.inl ⟨openKey, trustCert⟩
      cases here
      exact List.mem_cons_self

/-- **When nil means trusted.**  Begin with a directory without a key pair.  After any
runs, whatever step of each has failed, a further run that returns nil has a trusted
certificate on disk, if and only if each of these runs trusts what it leaves. -/
theorem trustworthy_iff_trustsWhatItLeaves {files : SupportFiles} (unpaired : files.pair x = none)
    (runs : List (SetupOs Key Der)) :
    (∀ s ∈ (setupRuns x files).visited (setupRuns x files).init runs, s.Trustworthy x) ↔
      (setupRuns x files).Guarded (TrustsWhatItLeaves x) (setupRuns x files).init runs := by
  refine (setupRuns x files).visited_iff_guarded (J := fun _ => True)
    (fun _ _ _ _ _ => trivial) ?_ runs trivial ?_
  · intro s os t _ trust h
    cases h
    rw [trustworthy_iff] at trust ⊢
    exact pairTrusted_after x trust os
  · refine (trustworthy_iff x).mpr fun cert _ paired => ?_
    rw [show (setupRuns x files).init.files = files from rfl, unpaired] at paired
    cases paired

/-! ## Two runs -/

/-- Keys are numbers; a certificate has the number of its key. -/
def numbered : X509 ℕ ℕ ℕ where
  certPem n := [1, UInt8.ofNat n]
  keyPem n := [2, UInt8.ofNat n]
  keyPair
    | [1, n], [2, m] => if n = m then some n.toNat else none
    | _, _ => none

/-- A world in which every step succeeds, with the next number. -/
def workingOs (n : ℕ) : SetupOs ℕ ℕ where
  mkdirAll := none
  readCert := none
  readKey := none
  generateKey := .ok n
  serialNumber := .ok n
  createCertificate priv _ := .ok priv
  createCert := none
  certWritten := 2
  openKey := none
  keyWritten := 2
  trustCert := none
  errorsContext err context := context ++ ": ".toList ++ err

/-- Nothing goes wrong in the first run: whatever the next one meets, nil means trusted. -/
theorem trustworthy_workingOs :
    (⟨none, none⟩ : SupportFiles).pair numbered = none ∧
      ∀ s ∈ (setupRuns numbered ⟨none, none⟩).visited (setupRuns numbered ⟨none, none⟩).init
        [workingOs 7], s.Trustworthy numbered :=
  ⟨rfl, (trustworthy_iff_trustsWhatItLeaves numbered rfl [workingOs 7]).mpr
    ⟨fun _ _ _ _ => Or.inl ⟨rfl, rfl⟩, trivial⟩⟩

/-- The first run generates the key pair and the user turns the dialog down; the second
finds the pair and returns nil.  No `TrustCert` has ever succeeded. -/
theorem nil_untrusted :
    ¬ ∀ s ∈ (setupRuns numbered ⟨none, none⟩).visited (setupRuns numbered ⟨none, none⟩).init
      [{ workingOs 7 with trustCert := some "add-trusted-cert had exit status 1.".toList }],
      s.Trustworthy numbered := by
  intro trust
  have refused := trust _ (List.mem_cons_of_mem _ List.mem_cons_self)
  obtain ⟨cert, -, trusted⟩ := refused (workingOs 8) (by decide)
  exact absurd trusted (by decide +revert)

end TrustRecord

end PumaDev
