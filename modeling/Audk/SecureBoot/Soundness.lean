import Audk.SecureBoot.Verification

/-!
# What a successful verification means

The purpose of the handler, stated on the databases, and when the code fulfils it.

* `examineAll_isVerified`: the verdict of the loop over the certificates;
* `dxeImageVerificationHandler_justified_iff`: success is justified unless there is a bypass.
-/

namespace Audk.SecureBoot

open Bytes List Bool

/-! ## the databases -/

def InDatabase (v : Variable) (alg : HashAlg) (digest : List UInt8) : Prop :=
  ∃ lists, v = .found lists ∧ ∃ l, l ∈ lists ∧ l.signatureType = .imageHash alg ∧ digest ∈ l.signatures

/-- a signature with a supported hash algorithm, and the hash of the image by it -/
structure Signature where
  authData : AuthData
  alg : HashAlg
  digest : List UInt8

def signatureOf (e : Env) (c : WinCertificate) : Option Signature :=
  match c.authData with
  | .signature authData => (hashPeImageByType e.toCrypto authData).map fun r => ⟨authData, r.1, r.2⟩
  | _ => none

def signatures (e : Env) (cs : List WinCertificate) : List Signature := cs.filterMap (signatureOf e)

def VerifiedBy (e : Env) (v : Variable) (s : Signature) : Prop :=
  ∃ lists, v = .found lists ∧ ∃ c, c ∈ x509Certs lists ∧ e.authenticodeVerify s.authData c s.digest = true

/-- the first list is the smaller one at the first difference, if there is one -/
def LexLe : List Nat → List Nat → Prop
  | a :: as, b :: bs => a < b ∨ a = b ∧ LexLe as bs
  | as, bs => as = bs

def EfiTime.key (t : EfiTime) : List Nat := [t.year, t.month, t.day, t.hour, t.minute, t.second]

/-- a time stamp that `dbt` trusts shows that the signature was made by that time -/
def TrustedBy (e : Env) (s : Signature) (revocation : EfiTime) : Prop :=
  revocation ≠ ⟨0, 0, 0, 0, 0, 0⟩ ∧ ∃ lists, e.dbt = .found lists ∧
    ∃ root, root ∈ x509Certs lists ∧ ∃ signing,
      e.imageTimestampVerify s.authData root = some signing ∧ LexLe signing.key revocation.key

/-- `dbx` holds a hash of the certificate, and no time stamp saves the signature -/
def RevokedByHash (e : Env) (s : Signature) (cert : List UInt8) : Prop :=
  ∃ tbsCert lists, e.x509GetTBSCert cert = some tbsCert ∧ e.dbx = .found lists ∧
    ∃ l, l ∈ lists ∧ ∃ t, t ∈ revocationTimes e.toCrypto tbsCert l ∧ ¬ TrustedBy e s t

def ForbiddenByDbx (e : Env) (s : Signature) : Prop :=
  VerifiedBy e e.dbx s ∨ ∃ cert, cert ∈ e.pkcs7GetSigners s.authData ∧ RevokedByHash e s cert

def Justified (e : Env) : Option (List WinCertificate) → Prop
  | none => (∃ alg d, e.imageHash alg = some d ∧ InDatabase e.db alg d) ∧
      ∀ alg d, e.imageHash alg = some d → ¬ InDatabase e.dbx alg d
  | some cs =>
      (∃ s, s ∈ signatures e cs ∧ (VerifiedBy e e.db s ∨ InDatabase e.db s.alg s.digest)) ∧
      ∀ s, s ∈ signatures e cs → ¬ ForbiddenByDbx e s ∧ ¬ InDatabase e.dbx s.alg s.digest

/-! ## bypasses -/

def isTooShort (c : WinCertificate) : Bool :=
  match c.authData with
  | .tooShort => true
  | _ => false

/-- the signatures before and behind the first certificate that is too short -/
def examined (e : Env) (cs : List WinCertificate) : List Signature :=
  signatures e (cs.takeWhile fun c => !isTooShort c)
def unexamined (e : Env) (cs : List WinCertificate) : List Signature :=
  signatures e (cs.dropWhile fun c => !isTooShort c)

/-- the certificate check or the image hash check against `db` accepts the signature -/
def acceptedByDb (e : Env) (s : Signature) : Bool :=
  isAllowedByDb e s.authData s.digest ||
    isSignatureFoundInDatabase e.db s.digest s.alg == some true

/-- some signature is accepted by `db`, and so is every later one that `dbx` forbids -/
def LastAccepted (e : Env) : List Signature → Prop
  | [] => False
  | s :: ss => acceptedByDb e s = true ∧
      (∀ t, t ∈ ss → isForbiddenByDbx e t.authData t.digest = true → acceptedByDb e t = true) ∨
      LastAccepted e ss

/-- `db` has the last word although `dbx` forbids a signature, or a certificate that is too short
hides one -/
structure Bypass (e : Env) (cs : List WinCertificate) : Prop where
  noHash : ∀ s, s ∈ examined e cs → isSignatureFoundInDatabase e.dbx s.digest s.alg = some false
  accepted : LastAccepted e (examined e cs)
  forbidden : (∃ s, s ∈ examined e cs ∧ ForbiddenByDbx e s) ∨
    ∃ s, s ∈ unexamined e cs ∧ (ForbiddenByDbx e s ∨ InDatabase e.dbx s.alg s.digest)

section
variable {e : Env}

/-! ## the searches -/

lemma sameBytes_eq {a b : List UInt8} (h : a.length = b.length) : sameBytes a b b.length = true ↔ a = b := by
  unfold sameBytes
  rw [decide_eq_true_iff, take_length, take_of_length_le (by omega)]

variable {c : WinCertificate} {s : Signature} {d : List UInt8} {alg : HashAlg} {v : Variable}

lemma isSignatureFoundInDatabase_iff : isSignatureFoundInDatabase v d alg = some true ↔ InDatabase v alg d := by
  unfold isSignatureFoundInDatabase InDatabase
  cases v with
  | notFound => simp
  | failed => simp
  | found lists =>
    simp only [Option.some.injEq, any_eq_true, and_eq_true, decide_eq_true_iff,
      Variable.found.injEq, exists_eq_left']
    constructor
    · intro h
      obtain ⟨l, hl, ⟨hsize, htype⟩, x, hx, hsame⟩ := h
      have hlen : x.length = d.length := by
        have := l.size_eq x hx
        omega
      rw [sameBytes_eq hlen] at hsame
      exact ⟨l, hl, htype, hsame ▸ hx⟩
    · intro h
      obtain ⟨l, hl, htype, hd⟩ := h
      exact ⟨l, hl, ⟨(l.size_eq d hd).symm, htype⟩, d, hd, (sameBytes_eq rfl).mpr rfl⟩

/-- a search of `dbx` that is not stopped proves that the hash is not there -/
lemma not_inDatabase_of_search (h : isSignatureFoundInDatabase v d alg = some false) : ¬ InDatabase v alg d := by
  intro hin
  rw [isSignatureFoundInDatabase_iff.mpr hin] at h
  cases h

lemma isAllowedByDb_verifiedBy (h : isAllowedByDb e s.authData s.digest = true) : VerifiedBy e e.db s := by
  unfold isAllowedByDb at h
  cases hdb : e.db with
  | notFound => rw [hdb] at h; cases h
  | failed => rw [hdb] at h; cases h
  | found lists =>
    rw [hdb] at h
    cases hfind : (x509Certs lists).find? fun c =>
        e.authenticodeVerify s.authData c s.digest with
    | none => simp [hfind] at h
    | some root =>
      have hverify := List.find?_some hfind
      exact ⟨lists, rfl, root, mem_of_find?_eq_some hfind, hverify⟩

lemma acceptedByDb_spec (h : acceptedByDb e s = true) : VerifiedBy e e.db s ∨ InDatabase e.db s.alg s.digest := by
  rcases or_eq_true_iff.mp h with h | h
  · exact .inl (isAllowedByDb_verifiedBy h)
  · exact .inr (isSignatureFoundInDatabase_iff.mp (by simpa using h))

/-! ## the check against `dbx` -/

lemma isValidSignatureByTimestamp_iff (s r : EfiTime) :
    isValidSignatureByTimestamp s r = true ↔ LexLe s.key r.key := by
  unfold isValidSignatureByTimestamp EfiTime.key
  simp only [LexLe]
  split_ifs <;> simp_all
  omega

/-! ## the loop over the certificates -/

lemma examineSignature_eq (s : Signature) (st : LoopState) :
    (foundOrError (isSignatureFoundInDatabase e.dbx s.digest s.alg) = true →
      (examineSignature e s.authData s.alg s.digest st).1 = true ∧
      (examineSignature e s.authData s.alg s.digest st).2.isVerified = false) ∧
    (foundOrError (isSignatureFoundInDatabase e.dbx s.digest s.alg) = false →
      (examineSignature e s.authData s.alg s.digest st).1 = false ∧
      (examineSignature e s.authData s.alg s.digest st).2.isVerified =
        (st.isVerified && !isForbiddenByDbx e s.authData s.digest || acceptedByDb e s)) := by
  unfold examineSignature acceptedByDb
  cases isForbiddenByDbx e s.authData s.digest <;> cases isAllowedByDb e s.authData s.digest <;>
    cases hv : st.isVerified <;>
    cases foundOrError (isSignatureFoundInDatabase e.dbx s.digest s.alg) <;>
    by_cases hd : isSignatureFoundInDatabase e.db s.digest s.alg = some true <;> simp [hd, hv]

lemma foundOrError_eq_false {r : Option Bool} : foundOrError r = false ↔ r = some false := by
  simp [foundOrError]

lemma examined_cons_tooShort (cs : List WinCertificate) (h : isTooShort c = true) : examined e (c :: cs) = [] := by
  simp [examined, signatures, h]

lemma examined_cons_none (cs : List WinCertificate) (h : isTooShort c = false) (hs : signatureOf e c = none) :
    examined e (c :: cs) = examined e cs := by
  simp [examined, signatures, h, hs]

lemma examined_cons_some (cs : List WinCertificate) (h : isTooShort c = false) (hs : signatureOf e c = some s) :
    examined e (c :: cs) = s :: examined e cs := by
  simp [examined, signatures, h, hs]

lemma examine_cases (c : WinCertificate) :
    (isTooShort c = true ∧ ∀ st, examine e c st = (true, st)) ∨
    (isTooShort c = false ∧ signatureOf e c = none ∧ ∀ st, examine e c st = (false, st)) ∨
    ∃ s, isTooShort c = false ∧ signatureOf e c = some s ∧
      ∀ st, examine e c st = examineSignature e s.authData s.alg s.digest st := by
  unfold isTooShort signatureOf examine
  cases c.authData with
  | tooShort => simp
  | unsupported => simp
  | signature authData =>
    cases h : hashPeImageByType e.toCrypto authData with
    | none => simp [h]
    | some r => simp [h]

/-- the verdict of the loop: no hash in `dbx`, and `db` has the last word -/
lemma examineAll_isVerified (cs : List WinCertificate) (st : LoopState) :
    (examineAll e cs st).isVerified = true ↔
      (∀ s, s ∈ examined e cs → isSignatureFoundInDatabase e.dbx s.digest s.alg = some false) ∧
      (LastAccepted e (examined e cs) ∨ st.isVerified = true ∧ ∀ s, s ∈ examined e cs →
        isForbiddenByDbx e s.authData s.digest = true → acceptedByDb e s = true) := by
  induction cs generalizing st with
  | nil => simp [examineAll, examined, signatures, LastAccepted]
  | cons c cs ih =>
    rw [examineAll]
    rcases examine_cases (e := e) c with ⟨hshort, hc⟩ | ⟨hshort, hnone, hc⟩ | ⟨s, hshort, hs, hc⟩
    · rw [examined_cons_tooShort cs hshort, hc]
      simp [LastAccepted]
    · rw [examined_cons_none cs hshort hnone, hc, if_neg (by simp)]
      exact ih st
    obtain ⟨hfound, hclear⟩ := examineSignature_eq (e := e) s st
    rw [examined_cons_some cs hshort hs, hc]
    cases hx : foundOrError (isSignatureFoundInDatabase e.dbx s.digest s.alg) with
    | true =>
      obtain ⟨h1, h2⟩ := hfound hx
      have hne : isSignatureFoundInDatabase e.dbx s.digest s.alg ≠ some false := fun hf => by
        rw [foundOrError_eq_false.mpr hf] at hx
        cases hx
      rw [if_pos h1, h2]
      simp [hne]
    | false =>
      obtain ⟨h1, h2⟩ := hclear hx
      rw [if_neg (by simp [h1]), ih, h2]
      simp only [LastAccepted, forall_mem_cons, foundOrError_eq_false.mp hx]
      -- the flag the loop goes on with is what the two databases say of this signature
      cases isForbiddenByDbx e s.authData s.digest <;> cases acceptedByDb e s <;>
        simp <;> tauto

lemma mem_signatures {cs : List WinCertificate} : s ∈ signatures e cs ↔ s ∈ examined e cs ∨ s ∈ unexamined e cs := by
  unfold signatures examined unexamined signatures
  conv_lhs => rw [← takeWhile_append_dropWhile (p := fun c => !isTooShort c) (l := cs)]
  rw [filterMap_append, mem_append]

lemma LastAccepted.exists {ss : List Signature} (h : LastAccepted e ss) : ∃ s, s ∈ ss ∧ acceptedByDb e s = true := by
  induction ss with
  | nil => exact h.elim
  | cons s ss ih =>
    rcases h with h | h
    · exact ⟨s, mem_cons_self, h.1⟩
    · obtain ⟨t, ht, hacc⟩ := ih h
      exact ⟨t, mem_cons_of_mem _ ht, hacc⟩

lemma verifyImage_signed (cs : List WinCertificate) :
    (verifyImage e (some cs)).1 = true ↔
      (∀ s, s ∈ examined e cs → isSignatureFoundInDatabase e.dbx s.digest s.alg = some false) ∧
      LastAccepted e (examined e cs) := by
  show (examineAll e cs ⟨false, .authUntested⟩).isVerified = true ↔ _
  rw [examineAll_isVerified]
  simp

lemma justified_signed_iff (cs : List WinCertificate) :
    ((verifyImage e (some cs)).1 = true → Justified e (some cs)) ↔ ¬ Bypass e cs := by
  rw [verifyImage_signed]
  constructor
  · intro h hb
    obtain ⟨-, hnone⟩ := h ⟨hb.noHash, hb.accepted⟩
    rcases hb.forbidden with ⟨s, hs, hf⟩ | ⟨s, hs, hf⟩
    · exact (hnone s (mem_signatures.mpr (.inl hs))).1 hf
    · exact hf.elim (hnone s (mem_signatures.mpr (.inr hs))).1 (hnone s (mem_signatures.mpr (.inr hs))).2
  · intro hb h
    obtain ⟨hno, hacc⟩ := h
    obtain ⟨k, hk, hkacc⟩ := hacc.exists
    refine ⟨⟨k, mem_signatures.mpr (.inl hk), acceptedByDb_spec hkacc⟩, fun s hs => ?_⟩
    rcases mem_signatures.mp hs with hex | hun
    · exact ⟨fun hf => hb ⟨hno, hacc, .inl ⟨s, hex, hf⟩⟩, not_inDatabase_of_search (hno s hex)⟩
    · exact ⟨fun hf => hb ⟨hno, hacc, .inr ⟨s, hun, .inl hf⟩⟩, fun hd => hb ⟨hno, hacc, .inr ⟨s, hun, .inr hd⟩⟩⟩

/-! ## unsigned images -/

lemma unsignedLoop_spec (algs : List HashAlg) (found : Bool) (h : unsignedLoop e algs found = some true) :
    (∀ alg d, alg ∈ algs → e.imageHash alg = some d → ¬ InDatabase e.dbx alg d) ∧
      (found = true ∨ ∃ alg d, e.imageHash alg = some d ∧ InDatabase e.db alg d) := by
  induction algs generalizing found with
  | nil =>
    refine ⟨fun alg d hmem => absurd hmem not_mem_nil, .inl ?_⟩
    simpa [unsignedLoop] using h
  | cons a algs ih =>
    rw [unsignedLoop] at h
    cases hhash : e.imageHash a with
    | none =>
      rw [hhash] at h
      obtain ⟨h1, h2⟩ := ih found h
      refine ⟨fun alg d hmem hd => ?_, h2⟩
      rcases mem_cons.mp hmem with rfl | hmem
      · rw [hhash] at hd
        cases hd
      · exact h1 alg d hmem hd
    | some digest =>
      rw [hhash] at h
      cases hx : foundOrError (isSignatureFoundInDatabase e.dbx digest a) with
      | true => simp [hx] at h
      | false =>
        simp only [hx] at h
        obtain ⟨h1, h2⟩ := ih _ h
        refine ⟨fun alg d hmem hd => ?_, ?_⟩
        · rcases mem_cons.mp hmem with rfl | hmem
          · rw [hhash] at hd
            cases hd
            exact not_inDatabase_of_search (foundOrError_eq_false.mp hx)
          · exact h1 alg d hmem hd
        · rcases h2 with h2 | h2
          · rcases or_eq_true_iff.mp h2 with h2 | h2
            · exact .inl h2
            · exact .inr ⟨a, digest, hhash, isSignatureFoundInDatabase_iff.mp (by simpa using h2)⟩
          · exact .inr h2

lemma justified_unsigned (h : (verifyImage e none).1 = true) : Justified e none := by
  have hloop : unsignedLoop e mHash.reverse false = some true := by simpa [verifyImage] using h
  obtain ⟨h1, h2⟩ := unsignedLoop_spec _ _ hloop
  refine ⟨h2.resolve_left (by simp), fun alg d hd => h1 alg d ?_ hd⟩
  cases alg <;> decide

end

/-! ## the handler -/

variable {certificates : Option (List WinCertificate)} {secureBoot : SecureBootVariable}
  {pcd : VerificationPcd} {source : ImageSource}

lemma dxeImageVerificationHandler_success {e : Env} (hpolicy : policy pcd source = denyExecuteOnSecurityViolation ∨
      policy pcd source = deferExecuteOnSecurityViolation) (hboot : secureBoot.skipsVerification = false) :
    dxeImageVerificationHandler pcd source secureBoot e certificates = .success ↔
      (verifyImage e certificates).1 = true := by
  unfold dxeImageVerificationHandler failed
  rcases hpolicy with h | h <;> cases hv : (verifyImage e certificates).1 <;>
    simp [h, hv, hboot, denyExecuteOnSecurityViolation, deferExecuteOnSecurityViolation, alwaysExecute,
      neverExecute, queryUserOnSecurityViolation, allowExecuteOnSecurityViolation]

/-- **success is justified exactly if the image is unsigned or its signatures allow no bypass** -/
theorem dxeImageVerificationHandler_justified_iff {e : Env}
    (hpolicy : policy pcd source = denyExecuteOnSecurityViolation ∨
      policy pcd source = deferExecuteOnSecurityViolation) (hboot : secureBoot.skipsVerification = false) :
    (dxeImageVerificationHandler pcd source secureBoot e certificates = .success →
      Justified e certificates) ↔ ∀ cs, certificates = some cs → ¬ Bypass e cs := by
  rw [dxeImageVerificationHandler_success hpolicy hboot]
  cases certificates with
  | none => exact ⟨fun _ cs hcs => (nomatch hcs), fun _ h => justified_unsigned h⟩
  | some cs =>
    rw [justified_signed_iff]
    exact ⟨fun h cs' hcs => Option.some.inj hcs ▸ h, fun h => h cs rfl⟩

/-! ## a revoked certificate that `db` still lists -/

/-- a PKCS#7 certificate whose signature uses SHA-256 -/
def sampleCertificate : WinCertificate where
  wCertificateType := winCertTypePkcsSignedData
  dwLength := 49
  bytes := fun i => if i = 9 then 0x82 else if i < 40 then 0 else HashAlg.sha256.oid.getD (i - 40) 0

def certificateList (c : List UInt8) : SignatureList where
  signatureType := .x509
  signatureSize := sizeofGuid + c.length
  signatures := [c]
  size_eq := by simp
  revocation_size := by simp [SignatureType.revocationAlg]

/-- only SHA-256 works, and only the certificate `[1]` verifies a signature -/
def sampleCrypto : Crypto where
  imageHash := fun alg => if alg = .sha256 then some (List.replicate 32 0xAA) else none
  imageHash_length := by
    intro alg d h
    cases alg <;> simp at h
    rw [← h]
    rfl
  digest := fun alg _ => List.replicate alg.digestLength 0xBB
  x509GetTBSCert := some
  authenticodeVerify := fun _ c _ => decide (c = [1])
  pkcs7GetSigners := fun _ => [[2]]
  imageTimestampVerify := fun _ _ => none

def samplePcd : VerificationPcd := ⟨4, 4, 4⟩

def secureBootEnabled : SecureBootVariable := .found variableBsRt 1

def revokedEnv : Env :=
  { sampleCrypto with
    db := .found [certificateList [1]]
    dbx := .found [certificateList [1]]
    dbt := .notFound }

theorem revokedEnv_not_justified :
    policy samplePcd .fixedMedia = denyExecuteOnSecurityViolation ∧
    dxeImageVerificationHandler samplePcd .fixedMedia secureBootEnabled revokedEnv
      (some [sampleCertificate]) = .success ∧
    ¬ Justified revokedEnv (some [sampleCertificate]) := by
  refine ⟨rfl, by decide +kernel, fun h => ?_⟩
  obtain ⟨s, hs, -⟩ := h.1
  exact (h.2 s hs).1 (.inl ⟨_, rfl, [1], by decide, rfl⟩)

def trustedEnv : Env :=
  { sampleCrypto with
    db := .found [certificateList [1]]
    dbx := .notFound
    dbt := .notFound }

theorem trustedEnv_justified : dxeImageVerificationHandler samplePcd .fixedMedia secureBootEnabled trustedEnv
      (some [sampleCertificate]) = .success ∧
    Justified trustedEnv (some [sampleCertificate]) := by
  have hrun : dxeImageVerificationHandler samplePcd .fixedMedia secureBootEnabled trustedEnv
      (some [sampleCertificate]) = .success := by decide +kernel
  refine ⟨hrun, (dxeImageVerificationHandler_justified_iff (.inl rfl) rfl).mpr ?_ hrun⟩
  intro cs _ hb
  -- without `dbx` nothing is forbidden
  have hdbx : trustedEnv.dbx = .notFound := rfl
  have hnone : ∀ s, ¬ ForbiddenByDbx trustedEnv s := by
    intro s hf
    rcases hf with ⟨lists, h, -⟩ | ⟨c, -, tbs, lists, -, h, -⟩
    · rw [hdbx] at h
      cases h
    · rw [hdbx] at h
      cases h
  rcases hb.forbidden with ⟨s, -, hf⟩ | ⟨s, -, hf | ⟨lists, h, -⟩⟩
  · exact hnone s hf
  · exact hnone s hf
  · rw [hdbx] at h
    cases h

end Audk.SecureBoot
