import Audk.Ue.Load

/-!
# Relocation of UE images

The relocation table is a list of roots, each with a list of heads.  In a chained image a head starts
a chain of fixups whose links are stored in the image itself and are overwritten as it is relocated,
so that the code keeps an unchained copy of the table in the runtime context.

* `headStep`, `rootStep`: the bodies of the loops over the heads of a root and over the roots;
* `ueRelocateImage`, `ueRelocateImageForRuntime`: the two phases.

`FixupData` is a local variable without an initial value; the programs take what is in it.
-/

namespace Audk.Ue

open Bytes Prog

def ueReloc32 : Nat := 0
def ueReloc64 : Nat := 1
def ueReloc32NoMeta : Nat := 2

def sizeofUeFixupRoot : Nat := 4
def sizeofUeHead : Nat := 2
def minSizeOfUeFixupRoot : Nat := 6

/-- `UE_HEAD_FIXUP_OFFSET_END` and `UE_CHAINED_RELOC_FIXUP_OFFSET_END` -/
def ueFixupOffsetEnd : Nat := 0xFFF

/-! ## the runtime context -/

/-- `UE_LOADER_RUNTIME_CONTEXT`; a list of what is in the buffer `FixupData` -/
structure RuntimeContext where
  fixupSize : Nat
  fixupData : List Nat
  unchainedRelocsSize : Nat
  unchainedRelocs : Mem

def RuntimeContext.zero : RuntimeContext := ⟨0, [], 0, fun _ => 0⟩

/-- `UnchainReloc` with a `MetaSource`: append `size` bytes to the table, and a value to the data.
The reallocation keeps as much of the buffers as the recorded sizes say. -/
def RuntimeContext.append (size value : Nat) (fixupData : Option Nat) (c : RuntimeContext) : RuntimeContext :=
  let c := { c with
    unchainedRelocs := put c.unchainedRelocs c.unchainedRelocsSize size value
    unchainedRelocsSize := add32 c.unchainedRelocsSize size }
  match fixupData with
  | none => c
  | some d => { c with
      fixupData := c.fixupData.take (c.fixupSize / 8) ++ [d]
      fixupSize := add32 c.fixupSize 8 }

/-- `UnchainReloc` without a `MetaSource`: set the offset of the last head; the last head of a root
is padded -/
def RuntimeContext.setOffset (relocOffset : Nat) (c : RuntimeContext) : RuntimeContext :=
  let index := sub32 c.unchainedRelocsSize sizeofUeHead
  let hdr := relocOffset * 2^4 + le c.unchainedRelocs index 2 % 2^4
  let table := put c.unchainedRelocs index 2 hdr
  let addend := alignValueAddend c.unchainedRelocsSize sizeofUeFixupRoot
  if relocOffset = ueFixupOffsetEnd ∧ addend ≠ 0 then
    { c with
      unchainedRelocs := Bytes.zero table c.unchainedRelocsSize addend
      unchainedRelocsSize := add32 c.unchainedRelocsSize addend }
  else { c with unchainedRelocs := table }

/-! ## one fixup -/

/-- the image, and the runtime context where there is one -/
structure RelocState where
  image : Mem
  context : Option RuntimeContext

abbrev UeReloc (α : Type) := Prog RelocState Status α

/-- the update of the runtime context, which only the first phase makes -/
def unchainReloc (isRuntime : Bool) (update : RuntimeContext → RuntimeContext) : UeReloc Unit :=
  modify fun s => if isRuntime = true then s else { s with context := s.context.map update }

def relocWidth (relocType : Nat) : Option Nat :=
  if relocType = ueReloc32 then some 4
  else if relocType = ueReloc64 then some 8
  else if relocType = ueReloc32NoMeta then some 4
  else none

/-- the value at `FixupPointer`; there is nothing to read behind the buffer -/
def readFixupData (fixupPointer : Nat) : UeReloc Nat := do
  let data ← gets fun s => s.context.bind fun c => c.fixupData[fixupPointer]?
  match data with
  | some d => return d
  | none => fail .aborted

/-- `InternalApplyRelocation` in the first phase: the new target and the new `FixupData` -/
def internalApplyRelocation (imageSize relocType relocTarget adjust fixupData : Nat) : UeReloc (Nat × Nat) := do
  let rem := baseOverflowSubU32 imageSize relocTarget
  stopIf (rem.1 = true) .volumeCorrupted
  match relocWidth relocType with
  | none => fail .unsupported
  | some width =>
    stopIf (rem.2 < width) .volumeCorrupted
    let image ← gets RelocState.image
    let value := (le image relocTarget width + adjust) % 256^width
    modify fun s => { s with image := put s.image relocTarget width value }
    return (add32 relocTarget width, if relocType = ueReloc32NoMeta then value else fixupData)

/-- `InternalApplyRelocation` in the second phase: a target that has changed is skipped, or the
relocation fails -/
def internalApplyRelocationRuntime (pcd : Pcd)
    (imageSize relocType relocTarget adjust fixupPointer : Nat) : UeReloc Nat := do
  let rem := baseOverflowSubU32 imageSize relocTarget
  stopIf (rem.1 = true) .volumeCorrupted
  match relocWidth relocType with
  | none => fail .unsupported
  | some width =>
    stopIf (rem.2 < width) .volumeCorrupted
    let image ← gets RelocState.image
    let value := le image relocTarget width
    let fixupData ← readFixupData fixupPointer
    if value ≠ fixupData % 256^width then
      if pcd.imageLoaderRtRelocAllowTargetMismatch = true then return relocTarget
      else fail .volumeCorrupted
    else
      modify fun s => { s with image := put s.image relocTarget width ((value + adjust) % 256^width) }
      return add32 relocTarget width

/-! ## chains -/

structure ChainState where
  relocType : Nat
  relocTarget : Nat
  finished : Bool

/-- a link of a chain: how many bytes it has, the value, the offset and type of the next link -/
structure Link where
  width : Nat
  value : Nat
  nextOffset : Nat
  nextType : Nat

/-- the link in the bytes of the image; all links of a chain of 32-bit fixups have the same type -/
def link (image : Mem) (relocType relocTarget : Nat) : Option Link :=
  if relocType = ueReloc64 then
    let info := le image relocTarget 8
    some ⟨8, info / 2^16, info % 2^16 / 2^4, info % 2^4⟩
  else if relocType = ueReloc32 then
    let info := le image relocTarget 4
    some ⟨4, info / 2^12, info % 2^12, ueReloc32⟩
  else none

def linkWidth (relocType : Nat) : Nat := if relocType = ueReloc64 then 8 else 4

def chainStep (imageSize adjust : Nat) (c : ChainState) : UeReloc ChainState := do
  let rem := baseOverflowSubU32 imageSize c.relocTarget
  stopIf (rem.1 = true) .volumeCorrupted
  stopIf (c.relocType ≠ ueReloc64 ∧ c.relocType ≠ ueReloc32) .unsupported
  stopIf (rem.2 < linkWidth c.relocType) .volumeCorrupted
  let image ← gets RelocState.image
  match link image c.relocType c.relocTarget with
  | none => fail .unsupported
  | some l =>
    let value := (l.value + adjust) % 256^l.width
    modify fun s => { s with image := put s.image c.relocTarget l.width value }
    unchainReloc false (RuntimeContext.append sizeofUeHead (l.nextOffset * 2^4 + c.relocType) (some value))
    let relocTarget := add32 c.relocTarget l.width
    if l.nextOffset = ueFixupOffsetEnd then return ⟨c.relocType, relocTarget, true⟩
    else return ⟨l.nextType, add32 relocTarget l.nextOffset, false⟩

/-- `InternalProcessRelocChain`: the target behind the chain.  A link has at least one byte, so there
are fewer than `ImageSize` of them. -/
def internalProcessRelocChain (imageSize firstRelocType chainStart adjust : Nat) : UeReloc Nat := do
  let c ← repeatWhile (fun c => c.finished = false) (chainStep imageSize adjust) .aborted
    (imageSize + 2) ⟨firstRelocType, chainStart, false⟩
  return c.relocTarget

/-! ## the table -/

structure RelocTable where
  bytes : Mem
  size : Nat

structure TableState where
  tableOffset : Nat
  relocTarget : Nat
  fixupData : Nat
  finished : Bool

/-- what is behind a head: the end of the root or the next head -/
def nextHead {σ : Type} (table : RelocTable) (fixupInfo : Nat) (t : TableState) : Prog σ Status TableState :=
  if fixupInfo / 2^4 = ueFixupOffsetEnd then return { t with finished := true }
  else do
    stopIf (sub32 table.size sizeofUeHead < t.tableOffset) .volumeCorrupted
    return { t with relocTarget := add32 t.relocTarget (fixupInfo / 2^4) }

def headFixups (imageSize : Nat) (chaining : Bool) (adjust fixupInfo : Nat) (t : TableState) : UeReloc TableState :=
  if chaining = true ∧ fixupInfo % 2^4 ≠ ueReloc32NoMeta then do
    let relocTarget ← internalProcessRelocChain imageSize (fixupInfo % 2^4) t.relocTarget adjust
    return { t with relocTarget := relocTarget }
  else do
    let r ← internalApplyRelocation imageSize (fixupInfo % 2^4) t.relocTarget adjust t.fixupData
    unchainReloc false (RuntimeContext.append sizeofUeHead fixupInfo (some r.2))
    return { t with relocTarget := r.1, fixupData := r.2 }

/-- the body of the loop over the heads of a root in the first phase -/
def headStep (imageSize : Nat) (table : RelocTable) (chaining : Bool) (adjust : Nat)
    (t : TableState) : UeReloc TableState := do
  let fixupInfo := le table.bytes t.tableOffset 2
  let t ← headFixups imageSize chaining adjust fixupInfo
    { t with tableOffset := add32 t.tableOffset sizeofUeHead }
  unchainReloc false (RuntimeContext.setOffset (fixupInfo / 2^4))
  nextHead table fixupInfo t

/-- in the second phase `fixupData` counts the fixups, as `FixupPointer` does -/
def headStepRuntime (pcd : Pcd) (imageSize : Nat) (table : RelocTable) (adjust : Nat)
    (t : TableState) : UeReloc TableState := do
  let fixupInfo := le table.bytes t.tableOffset 2
  let relocTarget ← internalApplyRelocationRuntime pcd imageSize (fixupInfo % 2^4) t.relocTarget adjust t.fixupData
  nextHead table fixupInfo { t with
    tableOffset := add32 t.tableOffset sizeofUeHead
    relocTarget := relocTarget
    fixupData := t.fixupData + 1 }

/-- the body of the loop over the roots; `heads` is the body of the inner loop -/
def rootStep (table : RelocTable) (isRuntime : Bool) (heads : TableState → UeReloc TableState)
    (t : TableState) : UeReloc TableState := do
  let firstOffset := le table.bytes t.tableOffset 4
  let sum := baseOverflowAddU32 t.relocTarget firstOffset
  stopIf (sum.1 = true) .volumeCorrupted
  unchainReloc isRuntime (RuntimeContext.append sizeofUeFixupRoot firstOffset none)
  let t ← repeatWhile (fun t => t.finished = false) heads .aborted (table.size + 2)
    { t with
      tableOffset := add32 t.tableOffset sizeofUeFixupRoot
      relocTarget := sum.2
      finished := false }
  return { t with tableOffset := alignValue t.tableOffset sizeofUeFixupRoot }

def relocateRoots (table : RelocTable) (isRuntime : Bool)
    (heads : TableState → UeReloc TableState) (fixupData : Nat) : UeReloc Unit := do
  let _ ← repeatWhile (fun t => t.tableOffset ≤ sub32 table.size minSizeOfUeFixupRoot)
    (rootStep table isRuntime heads) .aborted (table.size + 1) ⟨0, 0, fixupData, true⟩
  return ()

def internaRelocateImage (imageSize oldBaseAddress : Nat) (table : RelocTable) (chaining : Bool)
    (baseAddress fixupData : Nat) : UeReloc Unit :=
  let adjust := sub64 baseAddress oldBaseAddress
  if table.size = 0 ∨ (adjust = 0 ∧ chaining = false) then return ()
  else relocateRoots table false (headStep imageSize table chaining adjust) fixupData

def internaRelocateImageRuntime (pcd : Pcd) (imageSize oldBaseAddress : Nat) (table : RelocTable)
    (baseAddress : Nat) : UeReloc Unit :=
  let adjust := sub64 baseAddress oldBaseAddress
  if table.size = 0 ∨ adjust = 0 then return ()
  else relocateRoots table true (headStepRuntime pcd imageSize table adjust) 0

/-! ## the two phases -/

def relocTable (f : File) (ctx : UeContext) : RelocTable :=
  ⟨fun i => f.bytes (ctx.loadTablesFileOffset + i), ctx.relocTableSize⟩

def linkedAddress (ctx : UeContext) : Nat :=
  if ctx.xip = true then (ctx.baseAddress + ctx.segmentsFileOffset) % 2^64 else ctx.baseAddress

def ueRelocateImage (f : File) (ctx : UeContext) (baseAddress fixupData : Nat) : UeReloc Unit :=
  internaRelocateImage ctx.imageSize (linkedAddress ctx) (relocTable f ctx) (ueHeaderChainedFixups f)
    baseAddress fixupData

/-- `UeRelocateImageForRuntime` on an image at `imageAddress` -/
def ueRelocateImageForRuntime (pcd : Pcd) (imageAddress imageSize : Nat) (c : RuntimeContext)
    (baseAddress : Nat) : UeReloc Unit :=
  internaRelocateImageRuntime pcd imageSize imageAddress ⟨c.unchainedRelocs, c.unchainedRelocsSize⟩ baseAddress

end Audk.Ue
