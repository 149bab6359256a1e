import Audk.SecureBoot.Soundness

/-!
# Errors of the search in `dbx`

`IsForbiddenByDbx` with the failures of a search that `isForbiddenByDbx` leaves out.

* `Call.isForbiddenByDbx_eq`: without failures it is `isForbiddenByDbx`;
* `failClosed_iff`: when every reason to reject a signature forbids it;
* `isForbiddenByDbx_append`: appending to `dbx` allows nothing.
-/

namespace Audk.SecureBoot

open List

/-- a signer, whether there is memory for a hash context at each list of `dbx` when it is looked for, and what
`GetVariable` then says of `dbt` -/
structure Signer where
  certificate : List UInt8
  pool : Nat → Bool
  dbt : Variable

structure Call extends Env where
  authData : AuthData
  imageDigest : List UInt8
  signers : List Signer
  signers_eq : pkcs7GetSigners authData = signers.map Signer.certificate

/-- the loop over the lists, from list `i` on -/
def searchLists (c : Crypto) (pool : Nat → Bool) (tbsCert : List UInt8) :
    Nat → List SignatureList → Option (Option EfiTime)
  | _, [] => some none
  | i, l :: ls =>
    if l.signatureType.revocationAlg = none then searchLists c pool tbsCert (i + 1) ls
    else if pool i = false then none
    else match (revocationTimes c tbsCert l).head? with
      | some revocationTime => some (some revocationTime)
      | none => searchLists c pool tbsCert (i + 1) ls

def Signer.isCertHashFoundInDbx (s : Signer) (c : Crypto) (dbx : List SignatureList) : Option (Option EfiTime) :=
  match c.x509GetTBSCert s.certificate with
  | none => none
  | some tbsCert => searchLists c s.pool tbsCert 0 dbx

def Signer.passTimestampCheck (s : Signer) (e : Env) (authData : AuthData) (revocationTime : EfiTime) : Bool :=
  SecureBoot.passTimestampCheck { e with dbt := s.dbt } authData revocationTime

/-- the loop over the signers; what an error leaves in `IsForbidden` is overwritten behind it -/
def Call.signersForbidden (c : Call) (dbx : List SignatureList) : List Signer → Bool
  | [] => false
  | s :: ss =>
    match s.isCertHashFoundInDbx c.toCrypto dbx with
    | some (some revocationTime) =>
      if s.passTimestampCheck c.toEnv c.authData revocationTime then c.signersForbidden dbx ss else true
    | _ => c.signersForbidden dbx ss

def Call.isForbiddenByDbx (c : Call) : Bool :=
  match c.dbx with
  | .notFound => false
  | .failed => true
  | .found lists =>
    if (x509Certs lists).any fun rootCert => c.authenticodeVerify c.authData rootCert c.imageDigest then true
    else if c.signers = [] then true
    else c.signersForbidden lists c.signers

/-! ## reasons to reject -/

def Call.SearchError (c : Call) (lists : List SignatureList) : Prop :=
  ∃ s ∈ c.signers, s.isCertHashFoundInDbx c.toCrypto lists = none

/-- `dbx` has a certificate that verifies the signature, there are no signers, or one is revoked by its hash -/
def Call.Revoked (c : Call) (lists : List SignatureList) : Prop :=
  (∃ rootCert ∈ x509Certs lists, c.authenticodeVerify c.authData rootCert c.imageDigest = true) ∨ c.signers = [] ∨
    ∃ s ∈ c.signers, ∃ t, s.isCertHashFoundInDbx c.toCrypto lists = some (some t) ∧
      s.passTimestampCheck c.toEnv c.authData t = false

def Call.Rejected (c : Call) : Prop :=
  c.dbx = .failed ∨ ∃ lists, c.dbx = .found lists ∧ (c.Revoked lists ∨ c.SearchError lists)

variable {c : Call} {lists : List SignatureList}

lemma signersForbidden_iff (ss : List Signer) : c.signersForbidden lists ss = true ↔
    ∃ s ∈ ss, ∃ t, s.isCertHashFoundInDbx c.toCrypto lists = some (some t) ∧
      s.passTimestampCheck c.toEnv c.authData t = false := by
  induction ss with
  | nil => simp [Call.signersForbidden]
  | cons s ss ih =>
    rw [Call.signersForbidden, exists_mem_cons_iff, ← ih]
    rcases s.isCertHashFoundInDbx c.toCrypto lists with _ | _ | t
    · simp
    · simp
    · cases hpass : s.passTimestampCheck c.toEnv c.authData t <;> simp [hpass]

lemma isForbiddenByDbx_iff : c.isForbiddenByDbx = true ↔
    c.dbx = .failed ∨ ∃ lists, c.dbx = .found lists ∧ c.Revoked lists := by
  unfold Call.isForbiddenByDbx
  cases c.dbx with
  | notFound => simp
  | failed => simp
  | found lists =>
    simp only [reduceCtorEq, false_or, Variable.found.injEq, exists_eq_left']
    unfold Call.Revoked
    rw [← signersForbidden_iff, ← any_eq_true]
    split_ifs <;> simp [*]

/-- **every reason to reject a signature forbids it, unless an error of the search is the only one** -/
theorem failClosed_iff : (c.Rejected → c.isForbiddenByDbx = true) ↔
    ∀ lists, c.dbx = .found lists → c.SearchError lists → c.Revoked lists := by
  rw [isForbiddenByDbx_iff]
  constructor
  · intro h lists hdbx herror
    obtain hfail | ⟨lists', hdbx', hrevoked⟩ := h (.inr ⟨lists, hdbx, .inr herror⟩)
    · rw [hdbx] at hfail
      cases hfail
    · rw [hdbx] at hdbx'
      cases hdbx'
      exact hrevoked
  · rintro h (hfail | ⟨lists, hdbx, hrevoked | herror⟩)
    · exact .inl hfail
    · exact .inr ⟨lists, hdbx, hrevoked⟩
    · exact .inr ⟨lists, hdbx, h lists hdbx herror⟩

/-! ## without failures -/

lemma searchLists_eq {c : Crypto} {pool : Nat → Bool} (hpool : ∀ i, pool i = true) (tbsCert : List UInt8) (i : Nat)
    (ls : List SignatureList) :
    searchLists c pool tbsCert i ls = some (ls.flatMap (revocationTimes c tbsCert)).head? := by
  induction ls generalizing i with
  | nil => rfl
  | cons l ls ih =>
    rw [searchLists, flatMap_cons, head?_append, ih]
    split_ifs with halg hno
    · simp [revocationTimes, halg]
    · exact absurd hno (by rw [hpool]; decide)
    · cases (revocationTimes c tbsCert l).head? <;> rfl

lemma signersForbidden_eq (ss : List Signer) (hpool : ∀ s ∈ ss, ∀ i, s.pool i = true)
    (hdbt : ∀ s ∈ ss, s.dbt = c.dbt) : c.signersForbidden lists ss =
      SecureBoot.signersForbidden c.toEnv c.authData lists (ss.map Signer.certificate) := by
  induction ss with
  | nil => rfl
  | cons s ss ih =>
    have hsearch : s.isCertHashFoundInDbx c.toCrypto lists =
        SecureBoot.isCertHashFoundInDbx c.toCrypto s.certificate lists := by
      unfold Signer.isCertHashFoundInDbx SecureBoot.isCertHashFoundInDbx
      cases c.x509GetTBSCert s.certificate with
      | none => rfl
      | some tbsCert => exact searchLists_eq (hpool s mem_cons_self) tbsCert 0 lists
    have hpass (t : EfiTime) : s.passTimestampCheck c.toEnv c.authData t =
        SecureBoot.passTimestampCheck c.toEnv c.authData t := by
      unfold Signer.passTimestampCheck
      rw [hdbt s mem_cons_self]
    rw [Call.signersForbidden, map_cons, SecureBoot.signersForbidden, hsearch,
      ← ih (forall_mem_cons.mp hpool).2 (forall_mem_cons.mp hdbt).2]
    rcases SecureBoot.isCertHashFoundInDbx c.toCrypto s.certificate lists with _ | _ | t
    · rfl
    · rfl
    · exact congrArg (fun b : Bool => if b then c.signersForbidden lists ss else true) (hpass t)

lemma Call.isForbiddenByDbx_eq (hpool : ∀ s ∈ c.signers, ∀ i, s.pool i = true)
    (hdbt : ∀ s ∈ c.signers, s.dbt = c.dbt) :
    c.isForbiddenByDbx = SecureBoot.isForbiddenByDbx c.toEnv c.authData c.imageDigest := by
  unfold Call.isForbiddenByDbx SecureBoot.isForbiddenByDbx
  simp only [signersForbidden_eq c.signers hpool hdbt, c.signers_eq]
  cases c.signers <;> rfl

/-- a signer whose hash is in `dbx`, and no memory to compute it -/
def noMemory : Call :=
  { sampleCrypto with
    db := .notFound
    dbx := .found [{
      signatureType := .x509Sha256
      signatureSize := 64
      signatures := [replicate 48 0xBB]
      size_eq := by simp [sizeofGuid]
      revocation_size := by simp [SignatureType.revocationAlg, sizeofGuid, sizeofTime, HashAlg.digestLength] }]
    dbt := .notFound
    authData := ⟨fun _ => 0, 0⟩
    imageDigest := []
    signers := [⟨[2], fun _ => false, .notFound⟩]
    signers_eq := rfl }

theorem noMemory_notForbidden : noMemory.Rejected ∧ noMemory.isForbiddenByDbx = false :=
  ⟨.inr ⟨_, rfl, .inr ⟨_, mem_cons_self, rfl⟩⟩, rfl⟩

/-! ## appending to `dbx` -/

lemma searchLists_append {c : Crypto} {pool : Nat → Bool} {tbsCert : List UInt8} {t : EfiTime} {i : Nat}
    (more : List SignatureList) (h : searchLists c pool tbsCert i lists = some (some t)) :
    searchLists c pool tbsCert i (lists ++ more) = some (some t) := by
  induction lists generalizing i with
  | nil => cases h
  | cons l ls ih =>
    rw [cons_append, searchLists]
    rw [searchLists] at h
    split_ifs at h ⊢
    · exact ih h
    · cases hhead : (revocationTimes c tbsCert l).head? with
      | none =>
        rw [hhead] at h
        exact ih h
      | some t' =>
        rw [hhead] at h
        exact h

/-- **what `dbx` forbids stays forbidden when lists are appended to it**, whatever fails in the search: the first
entry that matches a signer stays the first one -/
theorem isForbiddenByDbx_append (more : List SignatureList) (hdbx : c.dbx = .found lists)
    (h : c.isForbiddenByDbx = true) : Call.isForbiddenByDbx { c with dbx := .found (lists ++ more) } = true := by
  refine isForbiddenByDbx_iff.mpr (.inr ⟨_, rfl, ?_⟩)
  rw [isForbiddenByDbx_iff, hdbx] at h
  rcases h with h | ⟨_, h, hroot | hnone | ⟨s, hs, t, hfound, hpass⟩⟩
  · cases h
  · cases h
    obtain ⟨rootCert, hmem, hverify⟩ := hroot
    refine .inl ⟨rootCert, ?_, hverify⟩
    rw [x509Certs, flatMap_append]
    exact mem_append_left _ hmem
  · exact .inr (.inl hnone)
  · cases h
    refine .inr (.inr ⟨s, hs, t, ?_, hpass⟩)
    unfold Signer.isCertHashFoundInDbx at *
    cases htbs : c.x509GetTBSCert s.certificate with
    | none =>
      rw [htbs] at hfound
      cases hfound
    | some tbsCert =>
      rw [htbs] at hfound
      dsimp only
      exact searchLists_append more hfound

theorem revokedSigner_append : ∃ (c : Call) (lists : _), c.dbx = .found lists ∧ c.isForbiddenByDbx = true ∧
    Call.isForbiddenByDbx { c with dbx := .found (lists ++ [certificateList [1]]) } = true :=
  ⟨{ noMemory with signers := [⟨[2], fun _ => true, .notFound⟩], signers_eq := rfl }, _, rfl, rfl,
    isForbiddenByDbx_append _ rfl rfl⟩

end Audk.SecureBoot
