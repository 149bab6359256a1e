import Audk.Base.Firmware

/-!
# UE: layout of the headers and the image context

The header has `16` bytes; the segment table and the table of load tables follow it.  All fields are
little-endian, see `UeImage.h`.

* `segmentAt`, `loadTableAt`: entries of the two tables;
* `UeContext`: `UE_LOADER_IMAGE_CONTEXT`.
-/

namespace Audk.Ue

open Bytes

/-! ## layout -/

def ueHeaderMagic : Nat := 0x4555
def minSizeOfUeHeader : Nat := 24
def sizeofUeSegment : Nat := 8
def sizeofUeLoadTable : Nat := 4
def ueLoadTableAlignment : Nat := 8

def ueLoadTableIdReloc : Nat := 0

inductive SegmentPerm where
  | x | rx | rw | r
deriving DecidableEq

/-- bits 21:20 of the field `ImageInfo` of a segment -/
def ueSegmentPermissions (imageInfo : Nat) : SegmentPerm :=
  match imageInfo / 2^20 % 4 with
  | 0 => .x
  | 1 => .rx
  | 2 => .rw
  | _ => .r

/-- `UE_SEGMENT_SIZE`: the upper bits are shifted out of the `UINT32` -/
def ueSegmentSize (imageInfo : Nat) : Nat := imageInfo * 2^12 % 2^32

def ueLoadTableId (fileInfo : Nat) : Nat := fileInfo / 2^29

def ueLoadTableSize (fileInfo : Nat) : Nat := fileInfo * 2^3 % 2^32

/-! ## the header of a file -/

section
variable (f : File)

def magic : Nat := f.u16 0
def type : Nat := le f.bytes 2 1
def tableCounts : Nat := le f.bytes 3 1
def entryPointAddress : Nat := f.u32 4
def imageInfo : Nat := f.u64 8

def ueHeaderSubsystem : Nat := type f % 2^3
def ueHeaderArch : Nat := type f / 2^3
def ueHeaderNumLoadTables : Nat := tableCounts f % 2^3
def ueHeaderLastSegmentIndex : Nat := tableCounts f / 2^3
def ueHeaderBaseAddress : Nat := imageInfo f * 2^12 % 2^64
def ueHeaderSegmentAlignment : Nat := 2^(imageInfo f / 2^60 + 12)
def ueHeaderXip : Bool := (imageInfo f).testBit 56
def ueHeaderFixedAddress : Bool := (imageInfo f).testBit 57
def ueHeaderRelocsStripped : Bool := (imageInfo f).testBit 58
def ueHeaderChainedFixups : Bool := (imageInfo f).testBit 59

end

structure Segment where
  imageInfo : Nat
  fileSize : Nat

def Segment.size (s : Segment) : Nat := ueSegmentSize s.imageInfo
def Segment.permissions (s : Segment) : SegmentPerm := ueSegmentPermissions s.imageInfo

def segmentAt (f : File) (i : Nat) : Segment where
  imageInfo := f.u32 (16 + sizeofUeSegment * i)
  fileSize := f.u32 (16 + sizeofUeSegment * i + 4)

/-- the file offset of the table of load tables -/
def loadTableHeaders (f : File) : Nat := minSizeOfUeHeader + ueHeaderLastSegmentIndex f * sizeofUeSegment

/-- the field `FileInfo` of load table `i` -/
def loadTableAt (f : File) (i : Nat) : Nat := f.u32 (loadTableHeaders f + sizeofUeLoadTable * i)

lemma tableCounts_lt (f : File) : tableCounts f < 2^8 := le_lt f.bytes 3 1

lemma lastSegmentIndex_lt (f : File) : ueHeaderLastSegmentIndex f < 32 := by
  have h := tableCounts_lt f
  unfold ueHeaderLastSegmentIndex
  omega

lemma numLoadTables_lt (f : File) : ueHeaderNumLoadTables f < 8 := Nat.mod_lt _ (by norm_num)

lemma segmentAlignment_pow2 (f : File) : isPow2 (ueHeaderSegmentAlignment f) := isPow2_iff.mpr ⟨_, rfl⟩

lemma segmentAlignment_le (f : File) : ueHeaderSegmentAlignment f ≤ 2^27 := by
  have h := f.u64_lt 8
  apply Nat.pow_le_pow_right (by norm_num)
  unfold imageInfo
  omega

lemma le_segmentAlignment (f : File) : 2^12 ≤ ueHeaderSegmentAlignment f :=
  Nat.pow_le_pow_right (by norm_num) (Nat.le_add_left _ _)

/-- `UE_LOADER_IMAGE_CONTEXT` without its pointers; `fileSize` is `UnsignedFileSize` -/
structure UeContext where
  fileSize : Nat
  subsystem : Nat
  machine : Nat
  fixedAddress : Bool
  xip : Bool
  lastSegmentIndex : Nat
  segmentsFileOffset : Nat
  segmentAlignment : Nat
  relocsStripped : Bool
  numLoadTables : Nat
  loadTablesFileOffset : Nat
  relocTableSize : Nat
  imageSize : Nat
  entryPointAddress : Nat
  baseAddress : Nat
deriving DecidableEq

end Audk.Ue
