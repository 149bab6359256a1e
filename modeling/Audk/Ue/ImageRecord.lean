import Audk.Base.ImageRecord
import Audk.Ue.InitContract

/-!
# The permissions record of a UE image: `UefiImageLoaderGetImageRecordUe`

Segments of equal permissions that follow each other make up one record segment.

* `RecordDescribes`: what a record has to say of an image;
* `uefiImageLoaderGetImageRecordUe_describes_iff`: it does exactly for images that are not XIP; the
  size of an XIP image counts its header, which the record leaves out.
-/

namespace Audk.Ue

open Bytes Prog Runs List Nat

/-! ## the code -/

def internalPermissionsToAttributes : SegmentPerm → Nat
  | .x => efiMemoryRp ||| efiMemoryRo
  | .rx => efiMemoryRo
  | .rw => efiMemoryXp
  | .r => efiMemoryXp ||| efiMemoryRo

structure PermRange where
  rangeSize : Nat
  permissions : SegmentPerm
  segments : List RecordSegment

def PermRange.segment (r : PermRange) : RecordSegment := ⟨r.rangeSize, internalPermissionsToAttributes r.permissions⟩

def recordSegment (s : Segment) (r : PermRange) : PermRange :=
  if s.permissions = r.permissions then { r with rangeSize := add32 r.rangeSize s.size }
  else ⟨s.size, s.permissions, r.segments ++ [r.segment]⟩

/-- the range after the first `i + 1` segments -/
def recordSegments (f : File) : Nat → PermRange
  | 0 => ⟨(segmentAt f 0).size, (segmentAt f 0).permissions, []⟩
  | i+1 => recordSegment (segmentAt f (i+1)) (recordSegments f i)

/-- `UefiImageLoaderGetImageRecordUe`; `pool` says whether `AllocatePool` succeeds -/
def uefiImageLoaderGetImageRecordUe (pool : Bool) (f : File) (ctx : UeContext) (imageAddress : Nat) :
    Option ImageRecord :=
  if pool = true then
    let r := recordSegments f ctx.lastSegmentIndex
    some {
      slots := ctx.lastSegmentIndex + 1
      segments := r.segments ++ [r.segment]
      startAddress := imageAddress
      endAddress := imageAddress + ctx.imageSize }
  else none

/-! ## what the record has to say -/

section
variable (f : File)

/-- segment `i` of an image whose first segment is at `first` contains the address -/
def InSegment (first i a : Nat) : Prop :=
  first + segmentAddress f i ≤ a ∧ a < first + segmentAddress f (i+1)

def Permitted (a v : Nat) : Prop :=
  ∀ i, i < numSegments f → InSegment f 0 i a → v = internalPermissionsToAttributes (segmentAt f i).permissions

/-- where the first segment is in the image buffer: images are only used in place if they are XIP,
and the buffer is then the file -/
def firstSegment (ctx : UeContext) (inplace : Bool) : Nat :=
  if inplace = true then ctx.segmentsFileOffset else 0

structure RecordDescribes (ctx : UeContext) (inplace : Bool) (record : ImageRecord) : Prop where
  sum : total record.segments = record.endAddress - record.startAddress
  count : record.numSegments ≤ numSegments f
  value : ∀ i a, i < numSegments f → InSegment f (firstSegment ctx inplace) i a →
    valueAt record.segments a = some (internalPermissionsToAttributes (segmentAt f i).permissions)
  distinct : List.IsChain (fun s t => s.value ≠ t.value) record.segments

end

/-! ## the loop -/

lemma internalPermissionsToAttributes_inj {p q : SegmentPerm}
    (h : internalPermissionsToAttributes p = internalPermissionsToAttributes q) : p = q := by
  cases p <;> cases q <;> first | rfl | exact absurd h (by decide)

section
variable {f : File}

structure PermRangeInv (f : File) (i : Nat) (r : PermRange) : Prop where
  permissions : r.permissions = (segmentAt f i).permissions
  range : ∃ start, Tiles r.segments (Permitted f) start ∧
    start + r.rangeSize = segmentAddress f (i+1) ∧
    ∀ a, start ≤ a → a < segmentAddress f (i+1) → Permitted f a (internalPermissionsToAttributes r.permissions)
  count : r.segments.length ≤ i
  distinct : List.IsChain (fun s t => s.value ≠ t.value) (r.segments ++ [r.segment])

lemma permitted_segment {i a : Nat} (h : InSegment f 0 i a) :
    Permitted f a (internalPermissionsToAttributes (segmentAt f i).permissions) := by
  intro j hj hja
  unfold InSegment at h hja
  rcases lt_trichotomy i j with hij | rfl | hji
  · have := segmentAddress_mono f (show i + 1 ≤ j from hij)
    omega
  · rfl
  · have := segmentAddress_mono f (show j + 1 ≤ i from hji)
    omega

lemma permRangeInv_zero (f : File) : PermRangeInv f 0 (recordSegments f 0) where
  permissions := rfl
  range := by
    refine ⟨0, tiles_nil _, rfl, fun a _ ha => permitted_segment ⟨zero_le _, ?_⟩⟩
    rwa [zero_add]
  count := le_rfl
  distinct := isChain_singleton _

variable {ctx : UeContext} {i : Nat} {w : Bool}

lemma PermRangeInv.step {r : PermRange} (h : PermRangeInv f i r) (hlt : segmentAddress f (i+2) < 2^32) :
    PermRangeInv f (i+1) (recordSegment (segmentAt f (i+1)) r) := by
  obtain ⟨start, htiles, hend, hrange⟩ := h.range
  have hnext : segmentAddress f (i+2) = segmentAddress f (i+1) + (segmentAt f (i+1)).size := rfl
  have hseg : ∀ a, segmentAddress f (i+1) ≤ a → a < segmentAddress f (i+2) →
      Permitted f a (internalPermissionsToAttributes (segmentAt f (i+1)).permissions) := by
    intro a h1 h2
    refine permitted_segment ⟨?_, ?_⟩
    · rwa [zero_add]
    · rwa [zero_add]
  unfold recordSegment
  by_cases hp : (segmentAt f (i+1)).permissions = r.permissions
  · rw [if_pos hp, add32_eq (by omega)]
    refine ⟨hp.symm, ⟨start, htiles, ?_, ?_⟩, h.count.trans (le_succ i), ?_⟩
    · show start + (r.rangeSize + (segmentAt f (i+1)).size) = segmentAddress f (i+2)
      omega
    · intro a h1 h2
      rcases lt_or_ge a (segmentAddress f (i+1)) with ha | ha
      · exact hrange a h1 ha
      · have := hseg a ha h2
        rwa [hp] at this
    · -- the last record segment keeps its attributes
      have := h.distinct
      rw [isChain_append] at this ⊢
      refine ⟨this.1, isChain_singleton _, fun s hs t ht => ?_⟩
      cases ht
      exact this.2.2 s hs r.segment rfl
  · rw [if_neg hp]
    refine ⟨rfl, ⟨segmentAddress f (i+1), htiles.snoc hend hrange, hnext.symm, hseg⟩, ?_, ?_⟩
    · rw [length_append]
      exact succ_le_succ h.count
    · rw [isChain_append]
      refine ⟨h.distinct, isChain_singleton _, ?_⟩
      intro s hs t ht
      rw [List.getLast?_append, List.getLast?_singleton, Option.some_or] at hs
      cases hs
      cases ht
      exact fun hc => hp (internalPermissionsToAttributes_inj hc).symm

lemma recordSegments_inv (hlt : segmentAddress f (i+1) < 2^32) : PermRangeInv f i (recordSegments f i) := by
  induction i with
  | zero => exact permRangeInv_zero f
  | succ i ih =>
    have hmono := segmentAddress_mono f (le_succ (i+1))
    exact (ih (lt_of_le_of_lt hmono hlt)).step hlt

/-! ## the record -/

lemma recordSegments_tiles (hlt : segmentAddress f (i+1) < 2^32) :
    Tiles ((recordSegments f i).segments ++ [(recordSegments f i).segment]) (Permitted f)
      (segmentAddress f (i+1)) := by
  obtain ⟨start, htiles, hend, hrange⟩ := (recordSegments_inv hlt).range
  exact htiles.snoc hend hrange

lemma Initialized.imageSize_ne_of_xip (h : Initialized f ctx w)
    (hx : ctx.xip = true) : ctx.imageSize ≠ segmentAddress f (numSegments f) := by
  have hx' : ueHeaderXip f = true := h.xip ▸ hx
  have hle := (headerSize_le f).trans (segmentAlignment_le f)
  have hpos : 24 ≤ headerSize f := by
    refine le_trans ?_ (tablesEnd_le_headerSize f)
    unfold tablesEnd loadTableHeaders minSizeOfUeHeader
    omega
  rw [h.imageSize]
  unfold exactImageSize
  rw [if_pos hx']
  omega

lemma Initialized.imageSize_of_not_xip (h : Initialized f ctx w)
    (hx : ¬ ctx.xip = true) : ctx.imageSize = segmentAddress f (numSegments f) := by
  rw [h.imageSize]
  unfold exactImageSize
  rw [if_neg (h.xip ▸ hx), add_zero]
  exact mod_eq_of_lt h.address_lt

/-- **the record of an accepted image describes it exactly when the image is not XIP** -/
theorem uefiImageLoaderGetImageRecordUe_describes_iff {ctx : UeContext} {w pool inplace : Bool}
    {imageAddress : Nat} {record : ImageRecord} (hrun : ueInitializeContext f false = (.ok ctx, w))
    (hplace : inplace = true → ctx.xip = true)
    (hrec : uefiImageLoaderGetImageRecordUe pool f ctx imageAddress = some record) :
    RecordDescribes f ctx inplace record ↔ ueHeaderXip f = false := by
  have h := initialized_of_run hrun
  have hlt : segmentAddress f (ueHeaderLastSegmentIndex f + 1) < 2^32 := h.address_lt
  unfold uefiImageLoaderGetImageRecordUe at hrec
  by_cases hpool : pool = true
  · rw [if_pos hpool, h.lastIndex] at hrec
    cases hrec
    have ht := recordSegments_tiles hlt
    rw [← h.xip]
    constructor
    · intro hr
      by_contra hx
      have hsum := hr.sum
      rw [Nat.add_sub_cancel_left] at hsum
      exact h.imageSize_ne_of_xip (by simpa using hx) (hsum.symm.trans ht.sum)
    · intro hx
      have hx' : ¬ ctx.xip = true := by simp [hx]
      have hfirst : firstSegment ctx inplace = 0 := if_neg fun hc => hx' (hplace hc)
      refine ⟨?_, ?_, ?_, (recordSegments_inv hlt).distinct⟩
      · show total _ = imageAddress + ctx.imageSize - imageAddress
        rw [Nat.add_sub_cancel_left, h.imageSize_of_not_xip hx']
        exact ht.sum
      · show List.length (_ ++ [_]) ≤ numSegments f
        rw [length_append]
        exact succ_le_succ (recordSegments_inv hlt).count
      · intro i a hi ha
        rw [hfirst] at ha
        have hmono := segmentAddress_mono f (show i + 1 ≤ ueHeaderLastSegmentIndex f + 1 from hi)
        obtain ⟨v, hv, hp⟩ := ht.value a (by
          have := ha.2
          omega)
        rw [← hp i hi ha]
        exact hv
  · rw [if_neg hpool] at hrec
    cases hrec

end

/-! ## two images -/

theorem pageImage_record_describes : RecordDescribes (pageImage 0) (pageContext 0) false
      ⟨1, [⟨0x1000, efiMemoryRo⟩], 0x5000, 0x6000⟩ := by
  have hrun : ueInitializeContext (pageImage 0) false = (.ok (pageContext 0), false) := by
    decide +kernel
  have hrec : uefiImageLoaderGetImageRecordUe true (pageImage 0) (pageContext 0) 0x5000 =
      some ⟨1, [⟨0x1000, efiMemoryRo⟩], 0x5000, 0x6000⟩ := by decide +kernel
  exact (uefiImageLoaderGetImageRecordUe_describes_iff hrun (by decide) hrec).mpr (by decide +kernel)

def xipImage : File where
  bytes := ofFields [(0, 2, ueHeaderMagic), (8, 8, 0x100000000000000), (16, 4, 0x100001), (20, 4, 0x1000)]
  size := 0x2000
  size_lt := by norm_num

def xipContext : UeContext :=
  { pageContext 0 with
    fileSize := 0x2000
    xip := true
    segmentsFileOffset := 0x1000
    loadTablesFileOffset := 0x2000
    imageSize := 0x2000 }

theorem xipImage_record_short :
    ueInitializeContext xipImage false = (.ok xipContext, false) ∧
    ∃ record, uefiImageLoaderGetImageRecordUe true xipImage xipContext 0x5000 = some record ∧
      total record.segments = 0x1000 ∧ record.endAddress - record.startAddress = 0x2000 ∧
      ¬ RecordDescribes xipImage xipContext false record := by
  refine ⟨by decide +kernel, _, rfl, by decide +kernel, by decide +kernel, fun hr => ?_⟩
  have hsum := hr.sum
  revert hsum
  decide +kernel

end Audk.Ue
