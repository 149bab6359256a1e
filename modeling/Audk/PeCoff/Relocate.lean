import Audk.PeCoff.Format
import Audk.PeCoff.Thumb

/-!
# `PeCoffRelocate.c`: relocating a loaded image

The relocation table lies in the image that is patched, so every step reads it from the memory the
steps before have left.  The state logs the reads of the table, the writes to the runtime context
and which bookkeeping entry belongs to which relocation target.

* `peCoffLoaderGetRuntimeContextSize`: the size of the bookkeeping;
* `internalApplyRelocationRuntime`, `runtimeBlock`, `peCoffRuntimeRelocateImage`: the second one.

The two loops over the blocks run on fuel; running out of it is an outcome of its own.
-/

namespace Audk.PeCoff

open Bytes Prog

structure RuntimeContext where
  relocDirRva : Nat
  relocDirSize : Nat
  fixupData : Nat → Nat

def sizeofRuntimeContext : Nat := 8

structure RelocState where
  image : Mem
  runtime : RuntimeContext
  reads : List Span
  contextWrites : List Span
  pairs : List (Nat × Nat)

def RelocState.start (m : Mem) (rt : RuntimeContext) : RelocState := ⟨m, rt, [], [], []⟩

/-- a loop that does not end is told apart from a failure -/
inductive Stop where
  | status (s : Status)
  | fuel
deriving DecidableEq

abbrev Relocator (α : Type) := Prog RelocState Stop α

def relBasedAbsolute : Nat := 0
def relBasedHighlow : Nat := 3
def relBasedArmMov32t : Nat := 7
def relBasedDir64 : Nat := 10

def relocTypePolicyArm (pcd : Pcd) : Bool := pcd.imageLoaderRelocTypePolicy.testBit 0

def corrupted : Stop := .status .volumeCorrupted

/-! ## accesses -/

def tableRead (off n : Nat) : Relocator Nat :=
  fun s => (.ok (le s.image off n), { s with reads := ⟨off, n⟩ :: s.reads })

/-- `FixupData[index] = value` for an entry without a target -/
def storeFixup (index value : Nat) (s : RelocState) : RelocState :=
  { s with
    runtime := { s.runtime with
      fixupData := fun i => if i = index then value else s.runtime.fixupData i }
    contextWrites := ⟨sizeofRuntimeContext + 8 * index, 8⟩ :: s.contextWrites }

def recordAbsolute : Option Nat → Relocator Unit
  | none => pure ()
  | some index => modify (storeFixup index 0)

/-- patch the image and record the patched bytes of the target -/
def patchTarget (patch : Mem → Mem) (target width : Nat) : Option Nat → Relocator Unit
  | none => modify fun s => { s with image := patch s.image }
  | some index => modify fun s =>
    storeFixup index (le (patch s.image) target width)
      { s with image := patch s.image, pairs := (index, target) :: s.pairs }

/-! ## the first relocation -/

def targetsDirectory (ctx : PeContext) (target width : Nat) : Prop :=
  target + width > ctx.relocDirRva ∧ add32 ctx.relocDirRva ctx.relocDirSize > target

instance (ctx : PeContext) (target width : Nat) : Decidable (targetsDirectory ctx target width) :=
  inferInstanceAs (Decidable (_ ∧ _))

def applyFixup (pcd : Pcd) (ctx : PeContext) (type target remSize adjust : Nat)
    (fixup : Option Nat) : Relocator Unit :=
  if type = relBasedHighlow then do
    stopIf (4 > remSize) corrupted
    stopIf (targetsDirectory ctx target 4) corrupted
    patchTarget (fun m => put m target 4 ((le m target 4 + adjust) % 2^32)) target 4 fixup
  else if type = relBasedDir64 then do
    stopIf (8 > remSize) corrupted
    stopIf (targetsDirectory ctx target 8) corrupted
    patchTarget (fun m => put m target 8 ((le m target 8 + adjust) % 2^64)) target 8 fixup
  else if type = relBasedArmMov32t then do
    stopIf (relocTypePolicyArm pcd = false) corrupted
    stopIf (8 > remSize) corrupted
    stopIf (¬ isAligned target 2) corrupted
    stopIf (targetsDirectory ctx target 8) corrupted
    patchTarget (fun m => peCoffThumbMovwMovtImmediateFixup m target adjust) target 8 fixup
  else fail (.status .unsupported)

def internalApplyRelocation (pcd : Pcd) (ctx : PeContext) (block index adjust : Nat)
    (fixup : Option Nat) : Relocator Unit := do
  let reloc ← tableRead (block + sizeofBaseRelocationBlock + 2 * index) 2
  if reloc >>> 12 = relBasedAbsolute then recordAbsolute (fixup.map (· + index))
  else do
    let va ← tableRead block 4
    let target := baseOverflowAddU32 va (reloc &&& 0x0FFF)
    stopIf (target.1 = true) corrupted
    let remSize := baseOverflowSubU32 ctx.sizeOfImage target.2
    stopIf (remSize.1 = true) corrupted
    applyFixup pcd ctx (reloc >>> 12) target.2 remSize.2 adjust (fixup.map (· + index))

/-- the size of a block as far as the next one -/
def relocBlockSize (pcd : Pcd) (sizeOfBlock : Nat) : Relocator Nat :=
  if pcd.relocationBlockSizes = false then do
    stopIf (¬ isAligned sizeOfBlock 4) corrupted
    pure sizeOfBlock
  else pure (alignValue sizeOfBlock 4)

/-- one block; returns the next `RelocBlockOffset` and `FixupDataIndex` -/
def relocateBlock (pcd : Pcd) (ctx : PeContext) (adjust offsetMax : Nat) (runtime : Bool)
    (off fixupIndex : Nat) : Relocator (Nat × Nat) := do
  let sizeOfBlock ← tableRead (off + 4) 4
  let sizeOfRelocs := baseOverflowSubU32 sizeOfBlock sizeofBaseRelocationBlock
  stopIf (sizeOfRelocs.1 = true) corrupted
  stopIf (sizeOfRelocs.2 > sub32 offsetMax off) corrupted
  let blockSize ← relocBlockSize pcd sizeOfBlock
  loop (fun i _ => internalApplyRelocation pcd ctx off i adjust
    (if runtime = true then some fixupIndex else none)) 0 (sizeOfRelocs.2 / 2) ()
  pure (add32 off blockSize,
    if runtime = true then add32 fixupIndex (sizeOfRelocs.2 / 2) else fixupIndex)

def relocateBlocks (pcd : Pcd) (ctx : PeContext) (adjust offsetMax : Nat) (runtime : Bool)
    (fuel off fixupIndex : Nat) : Relocator (Nat × Nat) :=
  repeatWhile (fun r => r.1 ≤ offsetMax)
    (fun r => relocateBlock pcd ctx adjust offsetMax runtime r.1 r.2) .fuel fuel (off, fixupIndex)

/-- the end of the directory the last block has to reach -/
def alignedTop (pcd : Pcd) (top : Nat) : Relocator Nat :=
  if pcd.relocationBlockSizes = false then pure top
  else do
    let aligned := baseOverflowAlignUpU32 top 4
    stopIf (aligned.1 = true) corrupted
    pure aligned.2

def initRuntimeContext (ctx : PeContext) : Option Nat → Relocator Unit
  | none => pure ()
  | some _ => modify fun s => { s with
      runtime := { s.runtime with relocDirRva := ctx.relocDirRva, relocDirSize := ctx.relocDirSize }
      contextWrites := ⟨0, sizeofRuntimeContext⟩ :: s.contextWrites }

/-- clear the bookkeeping behind the last entry -/
def zeroRemaining (fixupIndex : Nat) : Option Nat → Relocator Unit
  | none => pure ()
  | some size => modify fun s => { s with
      runtime := { s.runtime with
        fixupData := fun i =>
          if fixupIndex ≤ i ∧ sizeofRuntimeContext + 8 * i < size then 0 else s.runtime.fixupData i }
      contextWrites := ⟨sizeofRuntimeContext + 8 * fixupIndex,
        (size + 2^64 - sizeofRuntimeContext - 8 * fixupIndex) % 2^64⟩ :: s.contextWrites }

/-- `size` is `RuntimeContextSize` where a runtime context is given -/
def peCoffRelocateImage (pcd : Pcd) (ctx : PeContext) (baseAddress : Nat) (size : Option Nat)
    (fuel : Nat) : Relocator Unit := do
  initRuntimeContext ctx size
  if ctx.relocDirSize = 0 then pure ()
  else if size = none ∧ sub64 baseAddress ctx.imageBase = 0 then pure ()
  else do
    let top ← alignedTop pcd (add32 ctx.relocDirRva ctx.relocDirSize)
    let r ← relocateBlocks pcd ctx (sub64 baseAddress ctx.imageBase)
      (sub32 (add32 ctx.relocDirRva ctx.relocDirSize) sizeofBaseRelocationBlock) size.isSome fuel
      ctx.relocDirRva 0
    stopIf (r.1 ≠ top) corrupted
    zeroRemaining r.2 size

def peCoffLoaderGetRuntimeContextSize (ctx : PeContext) : Except Status Nat :=
  let fixupDataSize := baseOverflowMulU32 ctx.relocDirSize 4
  if fixupDataSize.1 = true then .error .unsupported
  else
    let size := baseOverflowAddU32 fixupDataSize.2 sizeofRuntimeContext
    if size.1 = true then .error .unsupported else .ok size.2

/-! ## the second relocation -/

/-- patch the target if it still holds the recorded bytes -/
def patchUnchanged (pcd : Pcd) (patch : Mem → Mem) (target width fixupData : Nat) : Relocator Unit := do
  let value ← gets fun s => le s.image target width
  if fixupData ≠ value then
    stopIf (pcd.imageLoaderRtRelocAllowTargetMismatch = false) corrupted
  else modify fun s => { s with image := patch s.image }

def internalApplyRelocationRuntime (pcd : Pcd) (target type adjust fixupData : Nat) : Relocator Unit :=
  if type = relBasedHighlow then
    patchUnchanged pcd (fun m => put m target 4 ((le m target 4 + adjust) % 2^32)) target 4 fixupData
  else if type = relBasedDir64 then
    patchUnchanged pcd (fun m => put m target 8 ((le m target 8 + adjust) % 2^64)) target 8 fixupData
  else if type = relBasedArmMov32t then
    patchUnchanged pcd (fun m => peCoffThumbMovwMovtImmediateFixup m target adjust) target 8 fixupData
  else pure ()

/-- one entry of a block, with its bookkeeping entry `fixupIndex` -/
def runtimeEntry (pcd : Pcd) (block adjust index fixupIndex : Nat) : Relocator Unit := do
  let reloc ← tableRead (block + sizeofBaseRelocationBlock + 2 * index) 2
  if reloc >>> 12 = relBasedAbsolute then pure ()
  else do
    let va ← tableRead block 4
    let target := add32 va (reloc &&& 0x0FFF)
    modify fun s => { s with pairs := (fixupIndex, target) :: s.pairs }
    let fixupData ← gets fun s => s.runtime.fixupData fixupIndex
    internalApplyRelocationRuntime pcd target (reloc >>> 12) adjust fixupData

def runtimeBlock (pcd : Pcd) (adjust off fixupIndex : Nat) : Relocator (Nat × Nat) := do
  let sizeOfBlock ← tableRead (off + 4) 4
  loop (fun i _ => runtimeEntry pcd off adjust i (add32 fixupIndex i)) 0
    (sub32 sizeOfBlock sizeofBaseRelocationBlock / 2) ()
  let sizeOfBlock' ← tableRead (off + 4) 4
  pure (add32 off (if pcd.relocationBlockSizes = false then sizeOfBlock'
      else alignValue sizeOfBlock' 4),
    add32 fixupIndex (sub32 sizeOfBlock sizeofBaseRelocationBlock / 2))

def runtimeBlocks (pcd : Pcd) (adjust top fuel off fixupIndex : Nat) : Relocator (Nat × Nat) :=
  repeatWhile (fun r => r.1 < top) (fun r => runtimeBlock pcd adjust r.1 r.2) .fuel fuel (off, fixupIndex)

def peCoffRuntimeRelocateImage (pcd : Pcd) (imageAddress baseAddress fuel : Nat) : Relocator Unit := do
  let rt ← gets fun s => s.runtime
  if rt.relocDirSize = 0 then pure ()
  else if sub64 baseAddress imageAddress = 0 then pure ()
  else do
    let _ ← runtimeBlocks pcd (sub64 baseAddress imageAddress)
      (add32 rt.relocDirRva rt.relocDirSize) fuel rt.relocDirRva 0
    pure ()

end Audk.PeCoff
