import Audk.PeCoff.Hash
import Audk.PeCoff.Load

/-!
# The Authenticode hash covers the loaded image

Two accepted files whose hashed data is the same load to the same image, up to the two header fields
that the hash leaves out.  The headers are compared in the order in which they are hashed: each part
tells how the next one has to be read.

* `sameHeaders_of_hashed`: files with the same hashed headers do;
* `peCoffLoadImage_hashed`: the images agree.
-/

namespace Audk.PeCoff

open Bytes Prog List

/-- the checksum, and the entry of the security directory where there is one -/
def Unhashed (f : File) (i : Nat) : Prop :=
  (exeHdrOffset f + offsetofCheckSum ≤ i ∧ i < exeHdrOffset f + offsetofCheckSum + 4) ∨
    directoryEntrySecurity < numberOfRvaAndSizes f ∧ dirEntry f directoryEntrySecurity ≤ i ∧
      i < dirEntry f directoryEntrySecurity + sizeofDataDirectory

structure SameHeaders (f g : File) : Prop where
  exe : exeHdrOffset f = exeHdrOffset g
  offset : sectionsOffset f = sectionsOffset g
  number : numberOfSections f = numberOfSections g
  hdrs : sizeOfHeaders f = sizeOfHeaders g
  bytes : ∀ i, i < sizeOfHeaders f → ¬ Unhashed f i → f.bytes i = g.bytes i

section
variable {pcd : Pcd} {f g : File} {ctx ctx' : PeContext}

variable {r r' : List UInt8} {m m' : Mem}

lemma le_eq_of_sameOn {lo hi off n : Nat} (h : SameOn m m' lo hi) (h1 : lo ≤ off)
    (h2 : off + n ≤ hi) : le m off n = le m' off n := le_congr (h.mono h1 h2)

lemma exeHdrOffset_eq (hf : sizeofDosHeader ≤ f.size) (hg : sizeofDosHeader ≤ g.size)
    (h : SameOn f.bytes g.bytes 0 (0 + offsetofCheckSum)) : exeHdrOffset f = exeHdrOffset g := by
  have h1 : f.u16 0 = g.u16 0 := le_eq_of_sameOn h (by omega) (by decide)
  have h2 : f.u32 60 = g.u32 60 := le_eq_of_sameOn h (by omega) (by decide)
  have h3 : hasDosHeader f ↔ hasDosHeader g := by
    unfold hasDosHeader
    rw [h1]
    exact and_congr_left fun _ => ⟨fun _ => hg, fun _ => hf⟩
  unfold exeHdrOffset
  rw [h2]
  simp only [h3]

lemma commonHeader_eq (hexe : exeHdrOffset f = exeHdrOffset g)
    (h : SameOn f.bytes g.bytes 0 (0 + (exeHdrOffset f + offsetofCheckSum))) :
    peType f = peType g ∧ sectionsOffset f = sectionsOffset g ∧
      numberOfSections f = numberOfSections g ∧ sizeOfHeaders f = sizeOfHeaders g := by
  have h88 : offsetofCheckSum = 88 := rfl
  have hfield : ∀ off n, off + n ≤ 88 → le f.bytes (exeHdrOffset f + off) n = le g.bytes (exeHdrOffset f + off) n :=
    fun off n hn => le_eq_of_sameOn h (by omega) (by omega)
  unfold peType sectionsOffset numberOfSections sizeOfHeaders File.u16 File.u32
  rw [hfield 24 2 (by omega), hfield 20 2 (by omega), hfield 6 2 (by omega), hfield 84 4 (by omega), hexe]
  exact ⟨rfl, rfl, rfl, rfl⟩

/-- whether or not there is a security directory, the tail starts with the number of directories -/
lemma hashedTail_start (h : Accepted pcd f ctx) :
    ∃ n r, hashedTail f = chunk f.bytes (exeHdrOffset f + offsetofCheckSum + 4) n ++ r ∧
      (peType f).sizeofNtHeaders ≤ offsetofCheckSum + 4 + n := by
  obtain ⟨h1, h2, h3, -, -⟩ := h.header_order
  unfold hashedTail
  by_cases hn : directoryEntrySecurity < numberOfRvaAndSizes f
  · rw [if_pos hn]
    refine ⟨_, _, rfl, ?_⟩
    unfold dirEntry
    omega
  · rw [if_neg hn]
    refine ⟨_, [], (append_nil _).symm, ?_⟩
    omega

lemma numberOfRvaAndSizes_eq (hf : Accepted pcd f ctx) (hg : Accepted pcd g ctx')
    (hexe : exeHdrOffset f = exeHdrOffset g) (htype : peType f = peType g)
    (h : hashedTail f ++ r = hashedTail g ++ r') : numberOfRvaAndSizes f = numberOfRvaAndSizes g := by
  obtain ⟨n, q, htail, hn⟩ := hashedTail_start hf
  obtain ⟨n', q', htail', hn'⟩ := hashedTail_start hg
  rw [htail, htail', append_assoc, append_assoc, ← hexe] at h
  rw [← htype] at hn'
  have hsame := chunk_append_inj h (show (peType f).sizeofNtHeaders - (offsetofCheckSum + 4) ≤ n by omega) (by omega)
  have hoff : offsetofCheckSum + 4 ≤ (peType f).numberOfRvaAndSizes ∧
      (peType f).numberOfRvaAndSizes + 4 ≤ (peType f).sizeofNtHeaders := by
    cases peType f <;> decide
  unfold numberOfRvaAndSizes File.u32
  rw [← hexe, ← htype]
  exact le_eq_of_sameOn hsame (by omega) (by omega)

lemma hashedTail_inj (hf : Accepted pcd f ctx) (hexe : exeHdrOffset f = exeHdrOffset g)
    (htype : peType f = peType g) (hhdrs : sizeOfHeaders f = sizeOfHeaders g)
    (hnum : numberOfRvaAndSizes f = numberOfRvaAndSizes g)
    (h : hashedTail f ++ r = hashedTail g ++ r') :
    r = r' ∧ ∀ i, exeHdrOffset f + offsetofCheckSum ≤ i → i < sizeOfHeaders f → ¬ Unhashed f i →
      f.bytes i = g.bytes i := by
  obtain ⟨h1, h2, h3, -, h5⟩ := hf.header_order
  have hdir : dirEntry f directoryEntrySecurity = dirEntry g directoryEntrySecurity := by
    unfold dirEntry
    rw [hexe, htype]
  unfold hashedTail at h
  unfold Unhashed
  rw [← hnum, ← hexe, ← hhdrs, ← hdir] at h
  by_cases hn : directoryEntrySecurity < numberOfRvaAndSizes f
  · have h6 := h5 hn
    rw [if_pos hn, if_pos hn, append_assoc, append_assoc] at h
    obtain ⟨hs, h⟩ := chunk_append_eq h
    obtain ⟨hs', h⟩ := chunk_append_eq h
    refine ⟨h, fun i hlo hhi hi => ?_⟩
    by_cases hlt : i < dirEntry f directoryEntrySecurity
    · exact hs i (by omega) (by omega)
    · exact hs' i (by omega) (by omega)
  · rw [if_neg hn, if_neg hn] at h
    obtain ⟨hs, h⟩ := chunk_append_eq h
    exact ⟨h, fun i hlo hhi hi => hs i (by omega) (by omega)⟩

lemma sameHeaders_of_hashed (hf : Accepted pcd f ctx) (hg : Accepted pcd g ctx')
    (h : hashedHeaders f ++ r = hashedHeaders g ++ r') :
    SameHeaders f g ∧ r = r' := by
  obtain ⟨hf1, hf2, hf3, hf4, -⟩ := hf.header_order
  obtain ⟨hg1, hg2, hg3, hg4, -⟩ := hg.header_order
  have h64 : sizeofDosHeader = 64 := rfl
  have h88 : offsetofCheckSum = 88 := rfl
  unfold hashedHeaders at h
  rw [append_assoc, append_assoc] at h
  -- the two prefixes have at least the checksum offset in common, which holds the DOS header
  have hexe := exeHdrOffset_eq (by omega) (by omega)
    (chunk_append_inj h (show offsetofCheckSum ≤ _ by omega) (by omega))
  rw [← hexe] at h
  obtain ⟨hpre, htail⟩ := chunk_append_eq h
  obtain ⟨htype, hoffset, hnumber, hhdrs⟩ := commonHeader_eq hexe hpre
  have hnum := numberOfRvaAndSizes_eq hf hg hexe htype htail
  obtain ⟨hr, hbytes⟩ := hashedTail_inj hf hexe htype hhdrs hnum htail
  refine ⟨⟨hexe, hoffset, hnumber, hhdrs, fun i hi hun => ?_⟩, hr⟩
  by_cases hlt : i < exeHdrOffset f + offsetofCheckSum
  · exact hpre i (by omega) (by omega)
  · exact hbytes i (by omega) hi hun

/-! ## sections -/

lemma SameHeaders.sectionAt_eq (hf : Accepted pcd f ctx) (h : SameHeaders f g) {j : Nat}
    (hj : j < numberOfSections f) :
    sectionAt f (sectionsOffset f) j = sectionAt g (sectionsOffset g) j := by
  obtain ⟨h1, h2, h3, -, h5⟩ := hf.header_order
  have hsame : SameOn f.bytes g.bytes (sectionsOffset f) (sizeOfHeaders f) := by
    intro i hlo hhi
    refine h.bytes i hhi fun hun => ?_
    rcases hun with hun | ⟨hn, hun⟩
    · omega
    · have := h5 hn
      omega
  have hfield : ∀ off, off + 4 ≤ 40 →
      f.u32 (sectionsOffset f + sizeofSectionHeader * j + off) =
        g.u32 (sectionsOffset f + sizeofSectionHeader * j + off) := by
    intro off hoff
    have h40 : sizeofSectionHeader * j = 40 * j := rfl
    exact le_eq_of_sameOn hsame (by omega) (by omega)
  unfold sectionAt sectionHeader
  rw [← h.offset, hfield 8 (by omega), hfield 12 (by omega), hfield 16 (by omega),
    hfield 20 (by omega), hfield 36 (by omega)]

lemma SameHeaders.sectionTable_eq (hf : Accepted pcd f ctx) (hg : Accepted pcd g ctx')
    (h : SameHeaders f g) : sectionTable f ctx = sectionTable g ctx' := by
  unfold sectionTable
  rw [hf.number, hg.number, hf.offset, hg.offset, ← h.number]
  exact map_congr_left fun j hj => h.sectionAt_eq hf (mem_range.mp hj)

lemma rawData_inj {ss : List SectionHeader}
    (h : ss.flatMap (rawData f) ++ r = ss.flatMap (rawData g) ++ r') {s : SectionHeader} (hs : s ∈ ss) :
    SameOn f.bytes g.bytes s.pointerToRawData (s.pointerToRawData + s.sizeOfRawData) := by
  induction ss with
  | nil => exact absurd hs not_mem_nil
  | cons t ss ih =>
    rw [flatMap_cons, flatMap_cons, append_assoc, append_assoc] at h
    obtain ⟨hsame, h⟩ := chunk_append_eq h
    rcases mem_cons.mp hs with rfl | hs
    · exact hsame
    · exact ih h hs

lemma referenceImage_eq (hf : Accepted pcd f ctx) (hg : Accepted pcd g ctx') (h : SameHeaders f g)
    (hraw : ∀ s, s ∈ sectionTable f ctx →
      SameOn f.bytes g.bytes s.pointerToRawData (s.pointerToRawData + s.sizeOfRawData))
    {size : Nat} (hm : ReferenceImage pcd f ctx size m)
    (hm' : ReferenceImage pcd g ctx' size m') {i : Nat} (hi : i < size)
    (hun : ¬ (i < loadedHeaderSize pcd f ctx ∧ Unhashed f i)) : m i = m' i := by
  have hsec : ∀ j, j < ctx.numberOfSections →
      sectionAt f ctx.sectionsOffset j = sectionAt g ctx'.sectionsOffset j := by
    intro j hj
    rw [hf.offset, hg.offset]
    exact h.sectionAt_eq hf (hf.number ▸ hj)
  have hnum : ctx.numberOfSections = ctx'.numberOfSections := by
    rw [hf.number, hg.number, h.number]
  have hloaded : loadedHeaderSize pcd f ctx = loadedHeaderSize pcd g ctx' := by
    unfold loadedHeaderSize
    rw [hsec 0 hf.pos, hf.hdrs, hg.hdrs, h.hdrs]
  by_cases hin : ∃ j, j < ctx.numberOfSections ∧ (sectionAt f ctx.sectionsOffset j).Holds i
  · obtain ⟨j, hj, hholds⟩ := hin
    rw [hm.sections j hj i hholds, hm'.sections j (hnum ▸ hj) i (hsec j hj ▸ hholds), ← hsec j hj]
    have hmem : sectionAt f ctx.sectionsOffset j ∈ sectionTable f ctx := mem_map_of_mem (mem_range.mpr hj)
    obtain ⟨h1, h2⟩ := hholds
    have h3 : (sectionAt f ctx.sectionsOffset j).dataSize ≤
        (sectionAt f ctx.sectionsOffset j).sizeOfRawData := min_le_left _ _
    exact hraw _ hmem _ (by omega) (by omega)
  have hout : ∀ j, j < ctx.numberOfSections → ¬ (sectionAt f ctx.sectionsOffset j).Holds i :=
    fun j hj hc => hin ⟨j, hj, hc⟩
  by_cases hhdr : i < loadedHeaderSize pcd f ctx
  · rw [hm.headers i hhdr, hm'.headers i (hloaded ▸ hhdr)]
    refine h.bytes i ?_ fun hc => hun ⟨hhdr, hc⟩
    unfold loadedHeaderSize at hhdr
    rw [hf.hdrs] at hhdr
    split at hhdr
    · exact hhdr
    · omega
  · rw [hm.zeros i hi (not_lt.mp hhdr) hout,
      hm'.zeros i hi (hloaded ▸ not_lt.mp hhdr) fun j hj => by
        rw [← hsec j (hnum ▸ hj)]
        exact hout j (hnum ▸ hj)]

/-- **files with the same hashed data load to the same image**, except for the copies of the checksum
and of the security directory entry in the loaded headers -/
theorem peCoffLoadImage_hashed {η : Type} {arch arch' : Arch} {origin origin' : ImageOrigin}
    {log log' : List Span} {update update' : HashUpdate η} {allocated allocated' : Bool} {c c' : η}
    {s s' : HashState η} (hf : peCoffInitializeContext pcd arch origin f [] = (.ok ctx, log))
    (hg : peCoffInitializeContext pcd arch' origin' g [] = (.ok ctx', log'))
    (hhf : peCoffHashImageAuthenticode pcd update f ctx allocated (.start c) = (.ok (), s))
    (hhg : peCoffHashImageAuthenticode pcd update' g ctx' allocated' (.start c') = (.ok (), s'))
    (hfed : s.fed = s'.fed) {size : Nat} (hsize : ctx.sizeOfImage ≤ size)
    (hsize' : ctx'.sizeOfImage ≤ size) (hlt : size < 2^32) (m m' : Mem) {i : Nat} (hi : i < size)
    (hun : ¬ (i < loadedHeaderSize pcd f ctx ∧ Unhashed f i)) :
    (peCoffLoadImage pcd f ctx size (.start m)).2.image i =
      (peCoffLoadImage pcd g ctx' size (.start m')).2.image i := by
  obtain ⟨-, haf⟩ := accepted_of_run hf
  obtain ⟨-, hag⟩ := accepted_of_run hg
  have hsf := peCoffHashImageAuthenticode_spec update (.start c) haf allocated
  have hsg := peCoffHashImageAuthenticode_spec update' (.start c') hag allocated'
  obtain ⟨r, hr⟩ := wp_ok hsf hhf
  obtain ⟨r', hr'⟩ := wp_ok hsg hhg
  have hstream := hr.symm.trans (hfed.trans hr')
  obtain ⟨hhdrs, hrest⟩ := sameHeaders_of_hashed haf hag hstream
  rw [← hhdrs.sectionTable_eq haf hag] at hrest
  obtain ⟨-, hrefl⟩ := wp_total (peCoffLoadImage_spec haf hsize hlt m)
  obtain ⟨-, hrefr⟩ := wp_total (peCoffLoadImage_spec hag hsize' hlt m')
  exact referenceImage_eq haf hag hhdrs
    (fun s hs => rawData_inj hrest (mem_sortedSections.mpr hs)) hrefl.2 hrefr.2 hi hun

end

/-- a PE32 file with sixteen bytes of section data and the given checksum -/
def checksumImage (checksum : Nat) : File where
  bytes := ofFields [(0, 4, 0x4550), (4, 2, 0x14c), (6, 2, 1), (20, 2, 144), (24, 2, 0x10b),
    (40, 4, 0x1000), (56, 4, 0x1000), (84, 4, 208), (88, 4, checksum), (92, 2, 10), (116, 4, 6),
    (176, 4, 0x1000), (180, 4, 0x1000), (184, 4, 16), (188, 4, 208), (204, 4, 0x60000020),
    (208, 8, 0x1122334455667788), (216, 8, 0x99AABBCCDDEEFF00)]
  size := 224
  size_lt := (by norm_num : 224 < 4294967296)

def checksumContext : PeContext :=
  { gapContext with fileSize := 224, relocDirRva := 0, relocDirSize := 0 }

theorem checksumImages_load_alike : (peCoffLoadImage .default (checksumImage 1) checksumContext 0x2000
      (.start fun _ => 0xAF)).2.image 0x1004 =
    (peCoffLoadImage .default (checksumImage 2) checksumContext 0x2000 (.start fun _ => 0)).2.image 0x1004 := by
  have h1 : (peCoffInitializeContext .default .x64 .userImage (checksumImage 1) []).1 =
      .ok checksumContext := by decide +kernel
  have h2 : (peCoffInitializeContext .default .x64 .userImage (checksumImage 2) []).1 =
      .ok checksumContext := by decide +kernel
  have h3 : (peCoffHashImageAuthenticode .default (fun c _ => (true, c)) (checksumImage 1)
      checksumContext true (.start ())).1 = .ok () := by decide +kernel
  have h4 : (peCoffHashImageAuthenticode .default (fun c _ => (true, c)) (checksumImage 2)
      checksumContext true (.start ())).1 = .ok () := by decide +kernel
  exact peCoffLoadImage_hashed (Prod.ext h1 rfl) (Prod.ext h2 rfl) (Prod.ext h3 rfl) (Prod.ext h4 rfl)
    (by decide +kernel) (by decide) (by decide) (by norm_num) _ _ (by norm_num)
    fun h => absurd h.1 (by decide +kernel)

end Audk.PeCoff
