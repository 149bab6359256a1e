import Audk.Ue.InitContract

/-!
# `UeLoadImage`

The segments are copied one after another; what lies between the data of a segment and the next
segment is zeroed before the next one is copied, the rest of the buffer at the end.

* `loadSegment`, `loadSegments`: the body of the loop and the loop;
* `ueLoadImage`: the memory at the destination.
-/

namespace Audk.Ue

open Bytes

structure LoadState where
  image : Mem
  prevSegmentDataEnd : Nat
  fileOffset : Nat
  imageAddress : Nat

def loadSegment (f : File) (i : Nat) (s : LoadState) : LoadState where
  image := copy (zero s.image s.prevSegmentDataEnd (sub32 s.imageAddress s.prevSegmentDataEnd))
    s.imageAddress f.bytes s.fileOffset (segmentAt f i).fileSize
  prevSegmentDataEnd := add32 s.imageAddress (segmentAt f i).fileSize
  fileOffset := add32 s.fileOffset (segmentAt f i).fileSize
  imageAddress := add32 s.imageAddress (segmentAt f i).size

/-- the first `k` rounds of the loop -/
def loadSegments (f : File) (ctx : UeContext) (destination : Mem) : Nat → LoadState
  | 0 => ⟨destination, 0, ctx.segmentsFileOffset, 0⟩
  | k+1 => loadSegment f k (loadSegments f ctx destination k)

def ueLoadImage (f : File) (ctx : UeContext) (destination : Mem) (destinationSize : Nat) : Mem :=
  let s := loadSegments f ctx destination (ctx.lastSegmentIndex + 1)
  zero s.image s.prevSegmentDataEnd (sub32 destinationSize s.prevSegmentDataEnd)

end Audk.Ue
