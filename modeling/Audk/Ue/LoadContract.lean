import Audk.Ue.Load

/-!
# `UeLoadImage` builds the image

The file cursor, the image cursor and the end of the previous data run through the segment table side by
side (`LoadInv`).  With them every access of a round is in bounds and the destination becomes the reference
image.  The size that the context gives for an XIP image may have wrapped: then it is too small for the
segments, and that is the only case in which the load goes wrong.

* `Loads`: what a load has to do;
* `ueLoadImage_loads_iff`: it does so for all sizes from `ImageSize` on exactly if `ImageSize` is exact.
-/

namespace Audk.Ue

open Bytes Arith

def InData (f : File) (k i : Nat) : Prop := segmentAddress f k ≤ i ∧ i < segmentAddress f k + (segmentAt f k).fileSize

structure RoundSafe (f : File) (size k : Nat) (s : LoadState) : Prop where
  header : minSizeOfUeHeader + sizeofUeSegment * k ≤ f.size
  gap : s.prevSegmentDataEnd ≤ s.imageAddress
  target : s.imageAddress + (segmentAt f k).fileSize ≤ size
  source : s.fileOffset + (segmentAt f k).fileSize ≤ f.size
  asserted : (segmentAt f k).fileSize ≤ (segmentAt f k).size

/-- the destination of `size` bytes is the reference image, and no access was out of bounds -/
structure Loads (f : File) (ctx : UeContext) (size : Nat) (destination : Mem) : Prop where
  inside : ∀ k, k < numSegments f → segmentAddress f k + (segmentAt f k).size ≤ size
  data : ∀ k, k < numSegments f → ∀ i, i < (segmentAt f k).fileSize →
    ueLoadImage f ctx destination size (segmentAddress f k + i) = f.bytes (segmentFileOffset f k + i)
  zeros : ∀ i, i < size → (∀ k, k < numSegments f → ¬ InData f k i) → ueLoadImage f ctx destination size i = 0
  rounds : ∀ k, k < numSegments f → RoundSafe f size k (loadSegments f ctx destination k)
  trailer : (loadSegments f ctx destination (numSegments f)).prevSegmentDataEnd ≤ size

/-- the end of the data of the first `k` segments -/
def dataEnd (f : File) : Nat → Nat
  | 0 => 0
  | k+1 => segmentAddress f k + (segmentAt f k).fileSize

structure LoadInv (f : File) (k : Nat) (s : LoadState) : Prop where
  address : s.imageAddress = segmentAddress f k
  offset : s.fileOffset = segmentFileOffset f k
  prevEnd : s.prevSegmentDataEnd = dataEnd f k
  data : ∀ j, j < k → ∀ i, i < (segmentAt f j).fileSize →
    s.image (segmentAddress f j + i) = f.bytes (segmentFileOffset f j + i)
  zeros : ∀ i, i < dataEnd f k → (∀ j, j < k → ¬ InData f j i) → s.image i = 0

section
variable {f : File} {ctx : UeContext} {n : Nat}

section
variable (h : ∀ j, j < n → (segmentAt f j).fileSize ≤ (segmentAt f j).size)
include h

lemma dataEnd_le_address :
    dataEnd f n ≤ segmentAddress f n := by
  cases n with
  | zero => exact Nat.zero_le _
  | succ n => exact Nat.add_le_add_left (h n (Nat.lt_succ_self n)) _

lemma segment_le_dataEnd {j : Nat}
    (hj : j < n) : segmentAddress f j + (segmentAt f j).fileSize ≤ dataEnd f n := by
  cases n with
  | zero => exact absurd hj (Nat.not_lt_zero j)
  | succ n =>
    rcases Nat.lt_succ_iff_lt_or_eq.mp hj with hj | rfl
    · calc segmentAddress f j + (segmentAt f j).fileSize
          ≤ segmentAddress f (j + 1) := Nat.add_le_add_left (h j (by omega)) _
        _ ≤ segmentAddress f n := segmentAddress_mono f hj
        _ ≤ segmentAddress f n + (segmentAt f n).fileSize := Nat.le_add_right _ _
    · exact le_rfl

end

lemma LoadInv.step {k : Nat} {s : LoadState} (h : LoadInv f k s)
    (hle : ∀ j, j < k + 1 → (segmentAt f j).fileSize ≤ (segmentAt f j).size)
    (haddr : segmentAddress f (k + 1) < 2^32) (hoff : segmentFileOffset f (k + 1) < 2^32) :
    LoadInv f (k + 1) (loadSegment f k s) := by
  have hfs := hle k (Nat.lt_succ_self k)
  have hend := dataEnd_le_address fun j hj => hle j (Nat.lt_succ_of_lt hj)
  have haddr' : segmentAddress f k + (segmentAt f k).size < 2^32 := haddr
  have hoff' : segmentFileOffset f k + (segmentAt f k).fileSize < 2^32 := hoff
  have hsub : sub32 (segmentAddress f k) (dataEnd f k) = segmentAddress f k - dataEnd f k := sub32_eq hend (by omega)
  -- the new destination, address by address
  have himage : ∀ i, (loadSegment f k s).image i =
      if segmentAddress f k ≤ i ∧ i < segmentAddress f k + (segmentAt f k).fileSize then
        f.bytes (segmentFileOffset f k + (i - segmentAddress f k))
      else if dataEnd f k ≤ i ∧ i < segmentAddress f k then 0 else s.image i := by
    intro i
    show copy (zero s.image s.prevSegmentDataEnd (sub32 s.imageAddress s.prevSegmentDataEnd)) s.imageAddress
      f.bytes s.fileOffset (segmentAt f k).fileSize i = _
    rw [h.address, h.offset, h.prevEnd, hsub]
    unfold copy zero
    rw [Nat.add_sub_cancel' hend]
  refine ⟨?_, ?_, ?_, ?_, ?_⟩
  · show add32 s.imageAddress (segmentAt f k).size = _
    rw [h.address, add32_eq haddr']
    rfl
  · show add32 s.fileOffset (segmentAt f k).fileSize = _
    rw [h.offset, add32_eq hoff']
    rfl
  · show add32 s.imageAddress (segmentAt f k).fileSize = _
    rw [h.address, add32_eq (by omega)]
    rfl
  · intro j hj i hi
    rw [himage]
    rcases Nat.lt_succ_iff_lt_or_eq.mp hj with hj | rfl
    · have hj' := segment_le_dataEnd (fun j hj => hle j (Nat.lt_succ_of_lt hj)) hj
      rw [if_neg (by omega), if_neg (by omega)]
      exact h.data j hj i hi
    · rw [if_pos ⟨Nat.le_add_right _ _, Nat.add_lt_add_left hi _⟩, Nat.add_sub_cancel_left]
  · intro i hi hn
    have hk : ¬ (segmentAddress f k ≤ i ∧ i < segmentAddress f k + (segmentAt f k).fileSize) :=
      hn k (Nat.lt_succ_self k)
    rw [himage, if_neg hk]
    split
    · rfl
    · next hgap =>
      apply h.zeros i
      · have hlt : i < segmentAddress f k + (segmentAt f k).fileSize := hi
        omega
      · exact fun j hj => hn j (Nat.lt_succ_of_lt hj)

lemma loadSegments_inv (destination : Mem) (hctx : ctx.segmentsFileOffset = headerSize f)
    (hle : ∀ j, j < n → (segmentAt f j).fileSize ≤ (segmentAt f j).size)
    (haddr : segmentAddress f n < 2^32) (hoff : segmentFileOffset f n < 2^32) :
    LoadInv f n (loadSegments f ctx destination n) := by
  induction n with
  | zero => exact ⟨rfl, hctx, rfl, fun j hj => absurd hj (Nat.not_lt_zero j), fun i hi => absurd hi (Nat.not_lt_zero i)⟩
  | succ n ih =>
    have h := ih (fun j hj => hle j (Nat.lt_succ_of_lt hj))
      (lt_of_le_of_lt (Nat.le_add_right _ _) haddr) (lt_of_le_of_lt (Nat.le_add_right _ _) hoff)
    exact h.step hle haddr hoff

/-- the header of an accepted image is small, so a wrapped size is below the segments -/
lemma wrapped_lt (hexact : ¬ exactImageSize f < 2^32) (haddr : segmentAddress f (numSegments f) < 2^32) :
    exactImageSize f % 2^32 < segmentAddress f (numSegments f) := by
  have h1 := headerSize_le f
  have h2 := segmentAlignment_le f
  unfold exactImageSize at hexact ⊢
  split at hexact
  · next hx =>
    rw [if_pos hx]
    omega
  · omega

lemma Initialized.fileOffset_le {w : Bool} (h : Initialized f ctx w) (hexact : exactImageSize f < 2^32) :
    segmentFileOffset f (numSegments f) ≤ f.size := by
  calc segmentFileOffset f (numSegments f)
      ≤ loadTablesStart f := le_roundUp _ (by decide)
    _ = ctx.loadTablesFileOffset := (h.exact hexact).1.symm
    _ ≤ ctx.fileSize := h.loadTables_le
    _ = f.size := h.fileSize

lemma segmentFileOffset_mono (f : File) {i j : Nat} (h : i ≤ j) : segmentFileOffset f i ≤ segmentFileOffset f j := by
  induction j with
  | zero => exact (Nat.le_zero.mp h) ▸ le_rfl
  | succ j ih =>
    rcases Nat.le_succ_iff.mp h with h | rfl
    · exact (ih h).trans (Nat.le_add_right _ _)
    · exact le_rfl

lemma Initialized.loads {w : Bool} (h : Initialized f ctx w) (hexact : exactImageSize f < 2^32) {size : Nat}
    (hsize : ctx.imageSize ≤ size) (hlt : size < 2^32) (destination : Mem) : Loads f ctx size destination := by
  have himage : ctx.imageSize = exactImageSize f := by
    rw [h.imageSize, Nat.mod_eq_of_lt hexact]
  have hseg : segmentAddress f (numSegments f) ≤ size := by
    rw [himage] at hsize
    exact (Nat.le_add_right _ _).trans hsize
  have hfile := h.fileOffset_le hexact
  have hfile_lt := lt_of_le_of_lt hfile f.size_lt
  have hlast : ctx.lastSegmentIndex + 1 = numSegments f := by
    rw [h.lastIndex]
    rfl
  have hinv : ∀ k, k ≤ numSegments f → LoadInv f k (loadSegments f ctx destination k) := fun k hk =>
    loadSegments_inv destination h.segmentsOffset (fun j hj => h.fileSize_le j (lt_of_lt_of_le hj hk))
      (lt_of_le_of_lt (segmentAddress_mono f hk) h.address_lt)
      (lt_of_le_of_lt (segmentFileOffset_mono f hk) hfile_lt)
  have hn := hinv (numSegments f) le_rfl
  have hend : dataEnd f (numSegments f) ≤ size := (dataEnd_le_address h.fileSize_le).trans hseg
  have hmem : ∀ i, ueLoadImage f ctx destination size i =
      if dataEnd f (numSegments f) ≤ i ∧ i < size then 0
      else (loadSegments f ctx destination (numSegments f)).image i := by
    intro i
    show zero (loadSegments f ctx destination (ctx.lastSegmentIndex + 1)).image
      (loadSegments f ctx destination (ctx.lastSegmentIndex + 1)).prevSegmentDataEnd
      (sub32 size (loadSegments f ctx destination (ctx.lastSegmentIndex + 1)).prevSegmentDataEnd) i = _
    rw [hlast, hn.prevEnd, sub32_eq hend hlt]
    unfold zero
    rw [Nat.add_sub_cancel' hend]
  refine ⟨?_, ?_, ?_, ?_, ?_⟩
  · intro k hk
    exact (segmentAddress_mono f hk).trans hseg
  · intro k hk i hi
    have hle := segment_le_dataEnd h.fileSize_le hk
    rw [hmem, if_neg (by omega)]
    exact hn.data k hk i hi
  · intro i hi hno
    rw [hmem]
    split
    · rfl
    · next hout => exact hn.zeros i (by omega) hno
  · intro k hk
    have hk' := hinv k (Nat.le_of_lt hk)
    have hfs := h.fileSize_le k hk
    have htable : minSizeOfUeHeader + sizeofUeSegment * k ≤ f.size := by
      have h1 := (tablesEnd_le_headerSize f).trans h.headers
      have h2 : k ≤ ueHeaderLastSegmentIndex f := Nat.lt_succ_iff.mp hk
      have h3 := Nat.mul_le_mul_right sizeofUeSegment h2
      unfold tablesEnd loadTableHeaders at h1
      rw [Nat.mul_comm]
      omega
    refine ⟨htable, ?_, ?_, ?_, hfs⟩
    · rw [hk'.prevEnd, hk'.address]
      exact dataEnd_le_address fun j hj => h.fileSize_le j (hj.trans hk)
    · rw [hk'.address]
      calc segmentAddress f k + (segmentAt f k).fileSize
          ≤ segmentAddress f (k + 1) := Nat.add_le_add_left hfs _
        _ ≤ segmentAddress f (numSegments f) := segmentAddress_mono f hk
        _ ≤ size := hseg
    · rw [hk'.offset]
      exact (segmentFileOffset_mono f hk).trans hfile
  · rw [hn.prevEnd]
    exact hend

/-- **an accepted image is loaded into every destination of at least `ImageSize` bytes exactly if its size
fits in 32 bits** -/
theorem ueLoadImage_loads_iff {w : Bool} (hrun : ueInitializeContext f false = (.ok ctx, w)) :
    (∀ size, ctx.imageSize ≤ size → size < 2^32 → ∀ destination, Loads f ctx size destination) ↔
      exactImageSize f < 2^32 := by
  have h := initialized_of_run hrun
  constructor
  · intro hall
    by_contra hexact
    have hlt : ctx.imageSize < 2^32 := h.imageSize ▸ Nat.mod_lt _ (Nat.two_pow_pos 32)
    have hload := hall ctx.imageSize le_rfl hlt fun _ => 0
    have hin : segmentAddress f (numSegments f) ≤ ctx.imageSize :=
      hload.inside (ueHeaderLastSegmentIndex f) (Nat.lt_succ_self _)
    have hwrap := wrapped_lt hexact h.address_lt
    rw [h.imageSize] at hin
    exact Nat.not_lt.mpr hin hwrap
  · intro hexact size hsize hlt destination
    exact h.loads hexact hsize hlt destination

end

theorem pageImage_loads : ueInitializeContext (pageImage 0xFFC) false = (.ok (pageContext 0xFFC), false) ∧
    Loads (pageImage 0xFFC) (pageContext 0xFFC) 0x1000 fun _ => 0 := by
  have hrun : ueInitializeContext (pageImage 0xFFC) false = (.ok (pageContext 0xFFC), false) := by
    decide +kernel
  exact ⟨hrun, (ueLoadImage_loads_iff hrun).mpr (by decide +kernel) _ (by decide) (by norm_num) _⟩

/-- the size of `wrapImage` is zero, but its segment has almost `4` GiB -/
theorem wrapImage_not_loaded : ueInitializeContext wrapImage false = (.ok wrapContext, true) ∧
    wrapContext.imageSize = 0 ∧ ∀ destination, ¬ Loads wrapImage wrapContext 0 destination := by
  refine ⟨by decide +kernel, rfl, fun destination h => ?_⟩
  exact absurd (h.inside 0 (by decide +kernel)) (by decide +kernel)

end Audk.Ue
