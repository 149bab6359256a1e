import Audk.Lib.Runs
import Audk.Base.Overflow

/-!
# `UEFI_IMAGE_RECORD`: the memory permissions of a loaded image

* `RecordSegment`: `Size` and `Attributes` of one segment;
* `ImageRecord`: the record; `segments` are the slots in use, the other ones are zeroed.
-/

namespace Audk

open Runs

def efiMemoryRp : Nat := 0x2000
def efiMemoryXp : Nat := 0x4000
def efiMemoryRo : Nat := 0x20000

/-- `UEFI_IMAGE_RECORD_SEGMENT`: the value of the run is the field `Attributes` -/
abbrev RecordSegment := Run Nat

/-- `UEFI_IMAGE_RECORD` with the number of segments that were allocated for it -/
structure ImageRecord where
  slots : Nat
  segments : List RecordSegment
  startAddress : Nat
  endAddress : Nat
deriving DecidableEq

def ImageRecord.numSegments (r : ImageRecord) : Nat := r.segments.length

end Audk
