import Audk.PeCoff.InitContract

/-!
# `PeCoffHash.c`: the certificates of an image

A certificate is the offset of its `WIN_CERTIFICATE` in the file.  The state of the programs is the list of
the assertions that were evaluated, with their outcomes, the last one first.

* `CertOk`: a certificate lies in the security directory;
* `certificates_iterate`: the loop ends, and of the assertions only the first one fails.
-/

namespace Audk.PeCoff

open Bytes Prog Arith List Nat

/-! ## the code -/

/-- `PCD_ALIGNMENT_POLICY_CERTIFICATE_SIZES` is set: certificate sizes need not be aligned -/
def certificateSizes (pcd : Pcd) : Bool := pcd.imageLoaderAlignmentPolicy.testBit 2

def alignofWinCertificate : Nat := 4

abbrev CertProg (α : Type) := Prog (List Bool) Status α

/-- `ASSERT`: the outcome is noted, the program goes on -/
def assert (c : Prop) [Decidable c] : CertProg Unit := modify fun log => decide c :: log

def dwLength (f : File) (cert : Nat) : Nat := f.u32 cert

def peCoffGetFirstCertificate (pcd : Pcd) (f : File) (ctx : PeContext) : CertProg Nat := do
  assert (ctx.secDirOffset % alignofWinCertificate ≠ 0)
  assert (ctx.secDirSize = 0 ∨ sizeofWinCertificate ≤ ctx.secDirSize)
  stopIf (ctx.secDirSize = 0) .notFound
  let cert := ctx.secDirOffset
  stopIf (dwLength f cert < sizeofWinCertificate ∨ dwLength f cert > ctx.secDirSize) .volumeCorrupted
  stopIf (certificateSizes pcd = false ∧ ¬ isAligned (dwLength f cert) imageCertificateAlign) .volumeCorrupted
  return cert

/-- `CertOffset` of the certificate behind `cert` -/
def nextCertOffset (pcd : Pcd) (f : File) (ctx : PeContext) (cert : Nat) : Nat :=
  add32 (sub32 cert ctx.secDirOffset)
    (if certificateSizes pcd = false then dwLength f cert else alignValue (dwLength f cert) imageCertificateAlign)

/-- the end of `PeCoffGetNextCertificate`, with the new `CertOffset` -/
def certificateAt (pcd : Pcd) (f : File) (ctx : PeContext) (certOffset : Nat) : CertProg Nat := do
  assert (certOffset ≤ ctx.secDirSize)
  stopIf (certOffset = ctx.secDirSize) .notFound
  stopIf (sub32 ctx.secDirSize certOffset < sizeofWinCertificate) .volumeCorrupted
  let length := dwLength f (ctx.secDirOffset + certOffset)
  stopIf (length < sizeofWinCertificate) .volumeCorrupted
  stopIf (certificateSizes pcd = false ∧ ¬ isAligned length imageCertificateAlign) .volumeCorrupted
  let certEnd := baseOverflowAddU32 certOffset length
  stopIf (certEnd.1 = true ∨ certEnd.2 > ctx.secDirSize) .volumeCorrupted
  return ctx.secDirOffset + certOffset

def peCoffGetNextCertificate (pcd : Pcd) (f : File) (ctx : PeContext) (cert : Nat) : CertProg Nat := do
  assert (isAligned ctx.secDirSize imageCertificateAlign)
  certificateAt pcd f ctx (nextCertOffset pcd f ctx cert)

/-- what a loop over the certificates finds: the certificates, the status it ends with, the assertions -/
structure Certificates where
  certs : List Nat
  status : Status
  asserted : List Bool
deriving DecidableEq

/-- the certificates from `cert` on, for at most `n` calls of the function `next` -/
def certificatesFrom (next : Nat → CertProg Nat) : Nat → Nat → List Bool → Option Certificates
  | 0, _, _ => none
  | n+1, cert, log =>
    match next cert log with
    | (.error st, log) => some ⟨[cert], st, log⟩
    | (.ok cert', log) => (certificatesFrom next n cert' log).map fun r => { r with certs := cert :: r.certs }

def certificates (pcd : Pcd) (f : File) (ctx : PeContext) (n : Nat) : Option Certificates :=
  match peCoffGetFirstCertificate pcd f ctx [] with
  | (.error st, log) => some ⟨[], st, log⟩
  | (.ok cert, log) => certificatesFrom (peCoffGetNextCertificate pcd f ctx) n cert log

/-! ## what they find -/

/-- the certificate lies in the security directory -/
structure CertOk (pcd : Pcd) (f : File) (ctx : PeContext) (cert : Nat) : Prop where
  start : ctx.secDirOffset ≤ cert
  finish : cert + dwLength f cert ≤ ctx.secDirOffset + ctx.secDirSize
  aligned : imageCertificateAlign ∣ cert
  size : sizeofWinCertificate ≤ dwLength f cert
  strict : certificateSizes pcd = false → imageCertificateAlign ∣ dwLength f cert

section
variable {pcd : Pcd} {f : File} {ctx : PeContext} {cert : Nat}

lemma wp_assert {c : Prop} [Decidable c] {log : List Bool} {Q : Unit → List Bool → Prop} {E : Status → List Bool → Prop} :
    wp (assert c) Q E log ↔ Q () (decide c :: log) := Iff.rfl

lemma isAligned_cert {v : Nat} : isAligned v imageCertificateAlign ↔ imageCertificateAlign ∣ v :=
  isAligned_iff (by decide)

lemma peCoffGetFirstCertificate_spec (h : Accepted pcd f ctx) (log : List Bool) :
    wp (peCoffGetFirstCertificate pcd f ctx) (fun cert log' => log' = true :: false :: log ∧ CertOk pcd f ctx cert)
      (fun _ log' => log' = true :: false :: log) log := by
  obtain ⟨hin, hoff, hsize⟩ := h.sec
  -- the assertion has the remainder as its condition, which is zero
  have hfirst : decide (ctx.secDirOffset % alignofWinCertificate ≠ 0) = false := by
    rw [decide_eq_false_iff_not, not_not]
    exact mod_eq_zero_of_dvd (dvd_trans (by decide) hoff)
  have hsecond : decide (ctx.secDirSize = 0 ∨ sizeofWinCertificate ≤ ctx.secDirSize) = true := by
    rw [decide_eq_true_iff]
    by_cases h0 : ctx.secDirSize = 0
    · exact .inl h0
    · exact .inr (hsize h0).2
  unfold peCoffGetFirstCertificate
  rw [wp_bind, wp_assert, hfirst, wp_bind, wp_assert, hsecond, wp_bind, wp_stopIf]
  refine ⟨fun _ => rfl, fun h0 => ?_⟩
  refine wp_stopIf_bind (fun _ => rfl) fun hlen => ?_
  refine wp_stopIf_bind (fun _ => rfl) fun hal => ⟨rfl, ?_⟩
  obtain ⟨h1, h2⟩ := not_or.mp hlen
  refine ⟨le_rfl, Nat.add_le_add_left (not_lt.mp h2) _, hoff, not_lt.mp h1, fun hs => ?_⟩
  rw [← isAligned_cert]
  by_contra hn
  exact hal ⟨hs, hn⟩

lemma CertOk.next_offset (h : Accepted pcd f ctx) (hc : CertOk pcd f ctx cert) :
    nextCertOffset pcd f ctx cert ≤ ctx.secDirSize ∧ imageCertificateAlign ∣ nextCertOffset pcd f ctx cert ∧
      cert + dwLength f cert ≤ ctx.secDirOffset + nextCertOffset pcd f ctx cert := by
  obtain ⟨hin, hoff, hsize⟩ := h.sec
  obtain ⟨h1, h2, h3, h4, h5⟩ := hc
  have h8 : sizeofWinCertificate = 8 := rfl
  have hlt := f.size_lt
  have hne : ctx.secDirSize ≠ 0 := by omega
  have hdvd := (hsize hne).1
  have hrel : imageCertificateAlign ∣ cert - ctx.secDirOffset := dvd_sub h3 hoff
  -- the rounded length still ends in the directory, whose end is aligned
  have hround : roundUp (dwLength f cert) imageCertificateAlign ≤ ctx.secDirSize - (cert - ctx.secDirOffset) :=
    roundUp_le (by decide) (dvd_sub hdvd hrel) (by omega)
  have hle := le_roundUp (dwLength f cert) (show 0 < imageCertificateAlign by decide)
  have hsub : sub32 cert ctx.secDirOffset = cert - ctx.secDirOffset := sub32_eq h1 (by omega)
  have hlen : (if certificateSizes pcd = false then dwLength f cert
      else alignValue (dwLength f cert) imageCertificateAlign) = roundUp (dwLength f cert) imageCertificateAlign := by
    split
    · next hs => exact le_antisymm hle (roundUp_le (by decide) (h5 hs) le_rfl)
    · exact alignValue_eq (by decide) (by decide) (by omega) (by omega)
  unfold nextCertOffset
  rw [hlen, hsub, add32_eq (by omega)]
  exact ⟨by omega, dvd_add hrel (dvd_roundUp _ _), by omega⟩

lemma peCoffGetNextCertificate_spec (h : Accepted pcd f ctx) (hc : CertOk pcd f ctx cert) (log : List Bool) :
    wp (peCoffGetNextCertificate pcd f ctx cert)
      (fun next log' => log' = true :: true :: log ∧ CertOk pcd f ctx next ∧ cert + dwLength f cert ≤ next)
      (fun _ log' => log' = true :: true :: log) log := by
  obtain ⟨hin, hoff, hsize⟩ := h.sec
  obtain ⟨hle, hdvd, hnext⟩ := hc.next_offset h
  have hfirst : decide (isAligned ctx.secDirSize imageCertificateAlign) = true := by
    rw [decide_eq_true_iff, isAligned_cert]
    by_cases h0 : ctx.secDirSize = 0
    · rw [h0]
      exact dvd_zero _
    · exact (hsize h0).1
  unfold peCoffGetNextCertificate
  rw [wp_bind, wp_assert, hfirst]
  unfold certificateAt
  rw [wp_bind, wp_assert, decide_eq_true hle, wp_bind, wp_stopIf]
  refine ⟨fun _ => rfl, fun h0 => ?_⟩
  refine wp_stopIf_bind (fun _ => rfl) fun hroom => ?_
  refine wp_stopIf_bind (fun _ => rfl) fun hlen => ?_
  refine wp_stopIf_bind (fun _ => rfl) fun hal => ?_
  refine wp_stopIf_bind (fun _ => rfl) fun hend => ⟨rfl, ?_, hnext⟩
  obtain ⟨hov, hend⟩ := not_or.mp hend
  rw [baseOverflowAddU32_snd (by simpa using hov)] at hend
  refine ⟨le_add_right _ _, ?_, dvd_add hoff hdvd, not_lt.mp hlen, fun hs => ?_⟩
  · rw [add_assoc]
    exact Nat.add_le_add_left (not_lt.mp hend) _
  · rw [← isAligned_cert]
    by_contra hn
    exact hal ⟨hs, hn⟩

/-! ## the loop -/

/-- certificates inside the security directory, one behind the other -/
structure Iterates (pcd : Pcd) (f : File) (ctx : PeContext) (certs : List Nat) : Prop where
  inside : ∀ c ∈ certs, CertOk pcd f ctx c
  ascending : certs.Pairwise fun c c' => c + dwLength f c ≤ c'

/-- every call moves on by a certificate header or more -/
lemma certificatesFrom_spec (h : Accepted pcd f ctx) (hc : CertOk pcd f ctx cert) (log : List Bool) :
    ∃ r, (∀ n, ctx.secDirOffset + ctx.secDirSize - cert < sizeofWinCertificate * n →
        certificatesFrom (peCoffGetNextCertificate pcd f ctx) n cert log = some r) ∧
      Iterates pcd f ctx r.certs ∧ (∀ c ∈ r.certs, cert ≤ c) ∧ ∃ k, r.asserted = List.replicate k true ++ log := by
  have h8 : sizeofWinCertificate = 8 := rfl
  -- by the number of bytes that are left in the directory
  induction hm : ctx.secDirOffset + ctx.secDirSize - cert using Nat.strong_induction_on generalizing cert log with
  | _ m ih =>
    have hspec := peCoffGetNextCertificate_spec h hc log
    have hsize := hc.size
    have hfin := hc.finish
    rcases hnext : peCoffGetNextCertificate pcd f ctx cert log with ⟨st | next, log'⟩
    · have hlog := wp_error hspec hnext
      refine ⟨⟨[cert], st, log'⟩, ?_, ⟨?_, pairwise_singleton _ _⟩, ?_, 2, hlog⟩
      · intro n hn
        rw [h8] at hn
        obtain ⟨n, rfl⟩ : ∃ k, n = k + 1 := ⟨n - 1, by omega⟩
        rw [certificatesFrom, hnext]
      · intro c hmem
        rw [mem_singleton.mp hmem]
        exact hc
      · intro c hmem
        rw [mem_singleton.mp hmem]
    · obtain ⟨hlog, hnc, hle⟩ := wp_ok hspec hnext
      obtain ⟨r, hr, hit, hfrom, k, hk⟩ := ih (ctx.secDirOffset + ctx.secDirSize - next) (by omega) hnc log' rfl
      refine ⟨{ r with certs := cert :: r.certs }, ?_, ⟨?_, ?_⟩, ?_, k + 2, ?_⟩
      · intro n hn
        rw [h8] at hn
        obtain ⟨n, rfl⟩ : ∃ k, n = k + 1 := ⟨n - 1, by omega⟩
        have hn' : ctx.secDirOffset + ctx.secDirSize - next < sizeofWinCertificate * n := by
          rw [h8]
          omega
        rw [certificatesFrom, hnext]
        show (certificatesFrom _ n next log').map _ = _
        rw [hr n hn']
        rfl
      · intro c hmem
        rcases mem_cons.mp hmem with rfl | hmem
        · exact hc
        · exact hit.inside c hmem
      · exact pairwise_cons.mpr ⟨fun c hmem => hle.trans (hfrom c hmem), hit.ascending⟩
      · intro c hmem
        rcases mem_cons.mp hmem with rfl | hmem
        · exact le_rfl
        · have := hfrom c hmem
          omega
      · show r.asserted = _
        rw [hk, hlog, replicate_add, append_assoc]
        rfl

/-- **the loop over the certificates of an accepted image ends, with certificates inside the security directory
one behind the other; the first assertion always fails, as it asks for an offset that is not aligned, and all
others hold** -/
theorem certificates_iterate {arch : Arch} {origin : ImageOrigin} {reads : List Span}
    (hrun : peCoffInitializeContext pcd arch origin f [] = (.ok ctx, reads)) :
    ctx.secDirOffset + ctx.secDirSize ≤ f.size ∧
    ∃ r, (∀ n, ctx.secDirSize < sizeofWinCertificate * n → certificates pcd f ctx n = some r) ∧
      Iterates pcd f ctx r.certs ∧ (∃ k, r.asserted = List.replicate k true ++ [false]) ∧
      ((∀ a ∈ r.asserted, a = true) ↔ ctx.secDirOffset % alignofWinCertificate ≠ 0) := by
  obtain ⟨-, h⟩ := accepted_of_run hrun
  obtain ⟨hin, hoff, -⟩ := h.sec
  refine ⟨hin, ?_⟩
  have hzero : ctx.secDirOffset % alignofWinCertificate = 0 := mod_eq_zero_of_dvd (dvd_trans (by decide) hoff)
  have hspec := peCoffGetFirstCertificate_spec h []
  have hiff : ∀ l : List Bool, (∃ k, l = List.replicate k true ++ [false]) →
      ((∀ a ∈ l, a = true) ↔ ctx.secDirOffset % alignofWinCertificate ≠ 0) := by
    rintro l ⟨k, rfl⟩
    constructor
    · intro hall
      cases hall false (mem_append_right _ mem_cons_self)
    · intro hne
      exact absurd hzero hne
  rcases hfirst : peCoffGetFirstCertificate pcd f ctx [] with ⟨st | cert, log⟩
  · have hlog := wp_error hspec hfirst
    have hasserted : ∃ k, log = List.replicate k true ++ [false] := ⟨1, hlog⟩
    refine ⟨⟨[], st, log⟩, ?_, ⟨nofun, List.Pairwise.nil⟩, hasserted, hiff log hasserted⟩
    intro n _
    unfold certificates
    rw [hfirst]
  · obtain ⟨hlog, hc⟩ := wp_ok hspec hfirst
    obtain ⟨r, hr, hit, -, k, hk⟩ := certificatesFrom_spec h hc log
    have hasserted : ∃ k, r.asserted = List.replicate k true ++ [false] := by
      refine ⟨k + 1, ?_⟩
      rw [hk, hlog, replicate_add, append_assoc]
      rfl
    refine ⟨r, ?_, hit, hasserted, hiff _ hasserted⟩
    intro n hn
    unfold certificates
    rw [hfirst]
    exact hr n (lt_of_le_of_lt (Nat.sub_le_iff_le_add'.mpr (Nat.add_le_add_right hc.start _)) hn)

end

/-! ## an image with two certificates -/

/-- the file `gapImage` without a relocation directory and with two certificates of `8` bytes -/
def certImage : File where
  bytes := put (put (put (put (put gapImage.bytes 164 4 0) 152 4 208) 156 4 16) 208 4 8) 216 4 8
  size := 224
  size_lt := by norm_num

def certContext : PeContext :=
  { gapContext with fileSize := 224, relocDirSize := 0, secDirOffset := 208, secDirSize := 16 }

lemma certImage_run : (peCoffInitializeContext .default .x64 .userImage certImage []).1 = .ok certContext := by
  decide +kernel

theorem certImage_iterates : ∃ r, (∀ n, 16 < sizeofWinCertificate * n →
    certificates .default certImage certContext n = some r) ∧ Iterates .default certImage certContext r.certs := by
  obtain ⟨-, r, hr, hit, -⟩ := certificates_iterate (Prod.ext certImage_run rfl)
  exact ⟨r, hr, hit⟩

/-- both certificates are found, but the first assertion fails -/
theorem certImage_assertion_fails :
    (∃ reads, peCoffInitializeContext .default .x64 .userImage certImage [] = (.ok certContext, reads)) ∧
    certificates .default certImage certContext 3 =
      some ⟨[208, 216], .notFound, [true, true, true, true, true, false]⟩ :=
  ⟨⟨_, Prod.ext certImage_run rfl⟩, by decide +kernel⟩

end Audk.PeCoff
