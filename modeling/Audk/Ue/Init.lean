import Audk.Ue.Format

/-!
# `UeInitializeContextPreHash` and `UeInitializeContextPostHash`

The code computes file offsets with unchecked `UINT32` additions and argues in comments that they
cannot overflow.  The state of the programs below records whether one of them did.

* `internalVerifySegments`, `internalVerifyLoadTables`: the two loops;
* `ueInitializeContext`: both functions in a row.
-/

namespace Audk.Ue

open Bytes Prog

/-- the state is set once a 32-bit addition has wrapped -/
abbrev UeInit (α : Type) := Prog Bool Status α

def addU32 (a b : Nat) : UeInit Nat := fun w => (.ok (add32 a b), w || decide (2^32 ≤ a + b))

def alignU32 (v a : Nat) : UeInit Nat := addU32 v (alignValueAddend v a)

/-! ## segments -/

structure SegmentEnds where
  fileOffset : Nat
  imageAddress : Nat

def verifySegment (f : File) (segmentAlignment i : Nat) (e : SegmentEnds) : UeInit SegmentEnds := do
  let s := segmentAt f i
  stopIf (s.size < s.fileSize) .unsupported
  stopIf (¬ isAligned s.size segmentAlignment) .unsupported
  let sum := baseOverflowAddU32 e.imageAddress s.size
  stopIf (sum.1 = true) .unsupported
  let fileOffset ← addU32 e.fileOffset s.fileSize
  return ⟨fileOffset, sum.2⟩

def internalVerifySegments (f : File) (ctx : UeContext) : UeInit UeContext := do
  let e ← loop (verifySegment f ctx.segmentAlignment) 0 (ctx.lastSegmentIndex + 1) ⟨ctx.segmentsFileOffset, 0⟩
  let fileOffset ← alignU32 e.fileOffset ueLoadTableAlignment
  stopIf (ctx.fileSize < fileOffset) .unsupported
  let imageSize ← if ctx.xip = true then addU32 e.imageAddress ctx.segmentsFileOffset
    else pure e.imageAddress
  return { ctx with loadTablesFileOffset := fileOffset, imageSize := imageSize }

/-! ## load tables -/

/-- the locals of the loop over the load tables; no table was seen yet where `PrevLoadTableId` is
`-1` -/
structure LoadTableEnds where
  prevId : Option Nat
  fileOffset : Nat

def verifyLoadTable (f : File) (i : Nat) (e : LoadTableEnds) : UeInit LoadTableEnds := do
  let id := ueLoadTableId (loadTableAt f i)
  stopIf (∃ p ∈ e.prevId, id ≤ p) .unsupported
  let sum := baseOverflowAddU32 e.fileOffset (ueLoadTableSize (loadTableAt f i))
  stopIf (sum.1 = true) .unsupported
  return ⟨some id, sum.2⟩

def internalVerifyLoadTables (f : File) (ctx : UeContext) : UeInit UeContext := do
  let e ← loop (verifyLoadTable f) 0 ctx.numLoadTables ⟨none, ctx.loadTablesFileOffset⟩
  let reloc := 0 < ctx.numLoadTables ∧ ueLoadTableId (loadTableAt f 0) = ueLoadTableIdReloc
  stopIf (reloc ∧ ctx.relocsStripped = true) .unsupported
  stopIf (e.fileOffset ≠ ctx.fileSize) .unsupported
  return { ctx with
    relocTableSize := if reloc then ueLoadTableSize (loadTableAt f 0) else 0 }

/-! ## initialization -/

/-- `UeInitializeContextPreHash`: the rest of the context is zeroed -/
def ueInitializeContextPreHash (f : File) : UeInit UeContext := do
  stopIf (f.size < minSizeOfUeHeader) .unsupported
  stopIf (magic f ≠ ueHeaderMagic) .unsupported
  return ⟨f.size, 0, 0, false, false, 0, 0, 0, false, 0, 0, 0, 0, 0, 0⟩

def internalInitializeContextLate (f : File) (ctx : UeContext) : UeInit UeContext := do
  stopIf (ctx.imageSize < ctx.entryPointAddress) .unsupported
  internalVerifyLoadTables f ctx

/-- the local `HeaderSize` of `UeInitializeContextPostHash` -/
def postHashHeaderSize (f : File) : UeInit Nat := do
  let loadTables ← addU32 minSizeOfUeHeader (ueHeaderLastSegmentIndex f * sizeofUeSegment)
  let tablesEnd ← addU32 loadTables (ueHeaderNumLoadTables f * sizeofUeLoadTable)
  if ueHeaderXip f = true then alignU32 tablesEnd (ueHeaderSegmentAlignment f)
  else return tablesEnd

def ueInitializeContextPostHash (f : File) (ctx : UeContext) : UeInit UeContext := do
  let segmentAlignment := ueHeaderSegmentAlignment f
  let headerSize ← postHashHeaderSize f
  stopIf (ctx.fileSize < headerSize) .unsupported
  stopIf (¬ isAligned (ueHeaderBaseAddress f) segmentAlignment) .unsupported
  let ctx ← internalVerifySegments f { ctx with
    fixedAddress := ueHeaderFixedAddress f
    relocsStripped := ueHeaderRelocsStripped f
    xip := ueHeaderXip f
    segmentAlignment := segmentAlignment
    segmentsFileOffset := headerSize
    lastSegmentIndex := ueHeaderLastSegmentIndex f
    numLoadTables := ueHeaderNumLoadTables f }
  internalInitializeContextLate f { ctx with
    baseAddress := ueHeaderBaseAddress f
    entryPointAddress := entryPointAddress f
    subsystem := ueHeaderSubsystem f
    machine := ueHeaderArch f }

/-- both functions, as the image library calls them -/
def ueInitializeContext (f : File) : UeInit UeContext := do
  let ctx ← ueInitializeContextPreHash f
  ueInitializeContextPostHash f ctx

end Audk.Ue
