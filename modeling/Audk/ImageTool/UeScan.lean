import Audk.Ue.Relocate

/-!
# The scan of UE images in `ImageTool`

The tool reads the relocation table of a loaded image with a decoder of its own, which collects the fixups in a buffer.

* `internalProcessRelocChain`, `internalApplyRelocation`: the fixups of a head;
* `scanUeGetRelocInfo`: the scan.

The tool copies the data of each segment to a buffer of its own.  Their bytes are in one memory here, each at its address
in the image: no access goes beyond the segment of its address.  Allocations succeed.
-/

namespace Audk.ImageTool

open Bytes Prog Ue

@[irreducible] def maxUint32 : Nat := 2^32 - 1

lemma maxUint32_eq : maxUint32 = 2^32 - 1 := by
  unfold maxUint32
  rfl

def efiImageRelBasedHighlow : Nat := 3
def efiImageRelBasedDir64 : Nat := 10

/-! ## segments -/

structure ToolSegment where
  imageAddress : Nat
  imageSize : Nat

/-- the loop of `ScanUeGetSegmentInfo`: `SegmentAddress` and the segments after `k` rounds -/
def scanSegments (f : File) : Nat → Nat × List ToolSegment
  | 0 => (0, [])
  | k+1 =>
    let r := scanSegments f k
    (add32 r.1 (segmentAt f k).size, r.2 ++ [⟨r.1, (segmentAt f k).size⟩])

def scanUeGetSegmentInfo (f : File) (ctx : UeContext) : List ToolSegment :=
  (scanSegments f (ctx.lastSegmentIndex + 1)).2

/-- `ImageGetSegmentByAddress`: the segment, the offset in it and what remains of it -/
def imageGetSegmentByAddress (address : Nat) : List ToolSegment → Option (ToolSegment × Nat × Nat)
  | [] => none
  | s :: segments =>
    if s.imageAddress ≤ address ∧ address < add32 s.imageAddress s.imageSize then
      some (s, sub32 address s.imageAddress, sub32 s.imageSize (sub32 address s.imageAddress))
    else imageGetSegmentByAddress address segments

/-! ## the buffer -/

/-- `image_tool_dynamic_buffer`, of elements of one type -/
structure DynamicBuffer (α : Type) where
  allocatedSize : Nat
  dataSize : Nat
  memory : List α

def DynamicBuffer.init {α : Type} : DynamicBuffer α := ⟨0, 0, []⟩

def imageToolDynamicBufferGrowth : Nat := 0x1000

def imageToolBufferExpand {α : Type} (b : DynamicBuffer α) (size : Nat) : Nat × DynamicBuffer α :=
  if sub32 b.allocatedSize b.dataSize < size then
    match baseOverflowAlignUpU32 size imageToolDynamicBufferGrowth with
    | (true, _) => (maxUint32, b)
    | (false, newAllocatedSize) =>
      match baseOverflowAddU32 newAllocatedSize b.allocatedSize with
      | (true, _) => (maxUint32, b)
      | (false, newAllocatedSize) =>
        (b.dataSize, { b with allocatedSize := newAllocatedSize, dataSize := add32 b.dataSize size })
  else (b.dataSize, { b with dataSize := add32 b.dataSize size })

/-- `ImageToolBufferAppend`, on the result of `ImageToolBufferExpand` -/
def appendExpanded {α : Type} (data : α) (r : Nat × DynamicBuffer α) : Nat × DynamicBuffer α :=
  if r.1 ≠ maxUint32 then (r.1, { r.2 with memory := r.2.memory ++ [data] }) else r

def imageToolBufferAppend {α : Type} (b : DynamicBuffer α) (data : α) (size : Nat) : Nat × DynamicBuffer α :=
  appendExpanded data (imageToolBufferExpand b size)

/-! ## fixups -/

structure ToolReloc where
  type : Nat
  target : Nat
deriving DecidableEq

def sizeofToolReloc : Nat := 8

structure ScanState where
  data : Mem
  buffer : DynamicBuffer ToolReloc

abbrev Scan (α : Type) := Prog ScanState Status α

def toolRelocType (relocType : Nat) : Nat :=
  if relocType = ueReloc64 then efiImageRelBasedDir64 else efiImageRelBasedHighlow

def appendReloc (reloc : ToolReloc) : Scan Unit := do
  let buffer ← gets ScanState.buffer
  let r := imageToolBufferAppend buffer reloc sizeofToolReloc
  modify fun s => { s with buffer := r.2 }
  stopIf (r.1 = maxUint32) .outOfResources

def chainStep (segments : List ToolSegment) (c : ChainState) : Scan ChainState :=
  match imageGetSegmentByAddress c.relocTarget segments with
  | none => fail .volumeCorrupted
  | some (segment, offsetInSegment, remRelocTargetSize) => do
    let fixup := segment.imageAddress + offsetInSegment
    stopIf (c.relocType ≠ ueReloc64 ∧ c.relocType ≠ ueReloc32) .unsupported
    stopIf (remRelocTargetSize < linkWidth c.relocType) .volumeCorrupted
    let data ← gets ScanState.data
    match link data c.relocType fixup with
    | none => fail .unsupported
    | some l =>
      modify fun s => { s with data := put s.data fixup l.width l.value }
      appendReloc ⟨toolRelocType c.relocType, c.relocTarget⟩
      let relocTarget := add32 c.relocTarget l.width
      if l.nextOffset = ueFixupOffsetEnd then return ⟨c.relocType, relocTarget, true⟩
      else return ⟨l.nextType, add32 relocTarget l.nextOffset, false⟩

/-- `InternalProcessRelocChain`; a chain has fewer than `bound` links -/
def internalProcessRelocChain (segments : List ToolSegment) (bound firstRelocType chainStart : Nat) : Scan Nat := do
  let c ← repeatWhile (fun c => c.finished = false) (chainStep segments) .aborted (bound + 2)
    ⟨firstRelocType, chainStart, false⟩
  return c.relocTarget

def segmentsEnd (segments : List ToolSegment) : Nat :=
  let lastSegment := segments.getLast?.getD ⟨0, 0⟩
  add32 lastSegment.imageAddress lastSegment.imageSize

def internalApplyRelocation (segments : List ToolSegment) (relocType relocTarget : Nat) : Scan Nat := do
  let rem := baseOverflowSubU32 (segmentsEnd segments) relocTarget
  stopIf (rem.1 = true) .volumeCorrupted
  match relocWidth relocType with
  | none => fail .unsupported
  | some fixupSize =>
    stopIf (rem.2 < fixupSize) .volumeCorrupted
    appendReloc ⟨toolRelocType relocType, relocTarget⟩
    return add32 relocTarget fixupSize

/-! ## the table -/

def headFixups (segments : List ToolSegment) (bound : Nat) (chaining : Bool) (fixupInfo : Nat) (t : TableState) :
    Scan TableState :=
  if chaining = true ∧ fixupInfo % 2^4 ≠ ueReloc32NoMeta then do
    let relocTarget ← internalProcessRelocChain segments bound (fixupInfo % 2^4) t.relocTarget
    return { t with relocTarget := relocTarget }
  else do
    let relocTarget ← internalApplyRelocation segments (fixupInfo % 2^4) t.relocTarget
    return { t with relocTarget := relocTarget }

/-- the body of the loop over the heads of a root; table offsets are file offsets -/
def headStep (f : File) (segments : List ToolSegment) (endOfRelocTable bound : Nat) (chaining : Bool) (t : TableState) :
    Scan TableState := do
  let fixupInfo := le f.bytes t.tableOffset 2
  let t ← headFixups segments bound chaining fixupInfo { t with tableOffset := add32 t.tableOffset sizeofUeHead }
  if fixupInfo / 2^4 = ueFixupOffsetEnd then return { t with finished := true }
  else do
    stopIf (sub32 endOfRelocTable sizeofUeHead < t.tableOffset) .volumeCorrupted
    return { t with relocTarget := add32 t.relocTarget (fixupInfo / 2^4) }

def rootStep (f : File) (heads : TableState → Scan TableState) (tableSize : Nat) (t : TableState) : Scan TableState := do
  let sum := baseOverflowAddU32 t.relocTarget (le f.bytes t.tableOffset 4)
  stopIf (sum.1 = true) .volumeCorrupted
  let t ← repeatWhile (fun t => t.finished = false) heads .aborted (tableSize + 2)
    { t with
      tableOffset := add32 t.tableOffset sizeofUeFixupRoot
      relocTarget := sum.2
      finished := false }
  return { t with tableOffset := alignValue t.tableOffset sizeofUeFixupRoot }

/-- `ScanUeGetRelocInfo`; the buffer has no memory if nothing was appended -/
def scanUeGetRelocInfo (f : File) (ctx : UeContext) (segments : List ToolSegment) : Scan (List ToolReloc) :=
  if ctx.relocTableSize = 0 then return []
  else do
    let endOfRelocTable := add32 ctx.loadTablesFileOffset ctx.relocTableSize
    let heads := headStep f segments endOfRelocTable (ctx.imageSize + segmentsEnd segments) (ueHeaderChainedFixups f)
    let _ ← repeatWhile (fun t => t.tableOffset ≤ sub32 endOfRelocTable minSizeOfUeFixupRoot)
      (rootStep f heads ctx.relocTableSize) .aborted (ctx.relocTableSize + 1) ⟨ctx.loadTablesFileOffset, 0, 0, true⟩
    let buffer ← gets ScanState.buffer
    stopIf (buffer.allocatedSize = 0) .outOfResources
    return buffer.memory

/-- the fixups that the tool lists for an image with the content `image` -/
def listedRelocs (f : File) (ctx : UeContext) (image : Mem) : Except Status (List ToolReloc) :=
  (scanUeGetRelocInfo f ctx (scanUeGetSegmentInfo f ctx) ⟨image, .init⟩).1

end Audk.ImageTool
