import Audk.Lib.Slots
import Audk.Mem.Types

/-!
# `CoreGetMemoryMap`

The descriptors are written into the slots of the caller's buffer, one after the other; each new one
is merged with an earlier one if the two are adjacent and agree.

* `entryDescriptor`, `gcdDescriptor`: the descriptor of an entry of `gMemoryMap` and of a GCD range;
* `coreGetMemoryMap`: the function, with the number of descriptors it asks for, `bufferEntries`.

The freed-page guard is disabled, so that `MergeGuardPages` does nothing.
-/

namespace Audk.Mem

open Prog Slots

abbrev MapProg (β : Type) := SlotProg MemoryDescriptor β

/-- `EFI_PAGES_TO_SIZE ((UINTN)pages)` -/
def efiPagesToSizeN (arch : Arch) (pages : Nat) : Nat :=
  pages % (arch.maxAddress + 1) * efiPageSize % (arch.maxAddress + 1)

/-! ## merging -/

/-- the descriptor that `MergeMemoryMapDescriptor` leaves in the place of `m`, if it can merge `d` -/
def mergedWith (arch : Arch) (m d : MemoryDescriptor) : Option MemoryDescriptor :=
  if m.type ≠ d.type then none
  else if m.attr ≠ d.attr then none
  else if (m.physicalStart + efiPagesToSizeN arch m.numberOfPages) % 2^64 = d.physicalStart then
    some { m with numberOfPages := (m.numberOfPages + d.numberOfPages) % 2^64 }
  else if sub64 m.physicalStart (efiPagesToSizeN arch d.numberOfPages) = d.physicalStart then
    some
      { m with
        physicalStart := d.physicalStart
        virtualStart := d.virtualStart
        numberOfPages := (m.numberOfPages + d.numberOfPages) % 2^64 }
  else none

/-- the loop of `MergeMemoryMapDescriptor`: the last descriptor is in slot `last` -/
def mergeFrom (arch : Arch) (last : Nat) : Nat → Nat → MapProg Nat
  | _, 0 => pure (last + 1)
  | k, n+1 => do
    let m ← peek k
    let d ← peek last
    match mergedWith arch m d with
    | some x => do
      write k x
      pure last
    | none => mergeFrom arch last (k+1) n

/-- `MergeMemoryMapDescriptor`: the next available slot -/
def mergeMemoryMapDescriptor (arch : Arch) (last : Nat) : MapProg Nat := mergeFrom arch last 0 last

def addDescriptor (arch : Arch) (d : MemoryDescriptor) (next : Nat) : MapProg Nat := do
  write next d
  mergeMemoryMapDescriptor arch next

/-- `MergeMemoryMap` joins `d` with the next descriptor `e` -/
def Joins (d e : MemoryDescriptor) : Prop :=
  d.type = e.type ∧ d.attr = e.attr ∧ (d.physicalStart + efiPagesToSize d.numberOfPages) % 2^64 = e.physicalStart

instance (d e : MemoryDescriptor) : Decidable (Joins d e) := inferInstanceAs (Decidable (_ ∧ _))

def joined (d e : MemoryDescriptor) : MemoryDescriptor :=
  { d with numberOfPages := (d.numberOfPages + e.numberOfPages) % 2^64 }

/-- the inner loop of `MergeMemoryMap`: slot `j` takes the following descriptors in -/
def absorb (j : Nat) : Nat → Nat → MapProg Nat
  | next, 0 => pure next
  | next, n+1 => do
    let d ← peek j
    let e ← peek next
    if Joins d e then do
      write j (joined d e)
      absorb j (next+1) n
    else pure next

/-- one turn of `MergeMemoryMap`; the state is the next old and the next new descriptor -/
def mergeTurn (n : Nat) (s : Nat × Nat) : MapProg (Nat × Nat) := do
  let d ← peek s.1
  write s.2 d
  let next ← absorb s.2 (s.1+1) (n - (s.1+1))
  pure (next, s.2 + 1)

/-- `MergeMemoryMap` on `n` descriptors: the number of descriptors left -/
def mergeMemoryMap (n : Nat) : MapProg Nat := do
  let s ← repeatWhile (fun s : Nat × Nat => s.1 < n) (mergeTurn n) .stuck (n+1) (0, 0)
  pure s.2

/-! ## the descriptors -/

/-- a conventional range that lies in a special bin is reported with the type of the bin -/
def reportedType (stats : Nat → MemoryTypeStatistics) (e : MemoryMapEntry) : Nat :=
  if e.type = efiConventionalMemory then
    (List.range efiMaxMemoryType).foldl (fun type t =>
      if (stats t).special ∧ (stats t).numberOfPages > 0 ∧ e.start ≥ (stats t).baseAddress ∧
          e.end_ ≤ (stats t).maximumAddress then t else type) e.type
  else e.type

def entryDescriptor (stats : Nat → MemoryTypeStatistics) (e : MemoryMapEntry) : MemoryDescriptor where
  type := reportedType stats e
  physicalStart := e.start
  virtualStart := e.virtualStart
  numberOfPages := (e.end_ - e.start + 1) % 2^64 / efiPageSize
  attr :=
    if reportedType stats e < efiMaxMemoryType ∧ (stats (reportedType stats e)).runtime then
      e.attr ||| efiMemoryRuntime
    else e.attr

def GcdMapEntry.IsRuntimeMmio (g : GcdMapEntry) : Prop :=
  g.gcdMemoryType = .memoryMappedIo ∧ g.attributes &&& efiMemoryRuntime = efiMemoryRuntime

instance (g : GcdMapEntry) : Decidable g.IsRuntimeMmio := inferInstanceAs (Decidable (_ ∧ _))

/-- the GCD entries that are counted when the size of the buffer is computed -/
def GcdMapEntry.IsCounted (g : GcdMapEntry) : Prop :=
  g.gcdMemoryType = .persistent ∨ g.gcdMemoryType = .reserved ∨ g.IsRuntimeMmio

instance (g : GcdMapEntry) : Decidable g.IsCounted := inferInstanceAs (Decidable (_ ∨ _))

def gcdRange (g : GcdMapEntry) (type attr : Nat) : MemoryDescriptor where
  type := type
  physicalStart := g.baseAddress
  virtualStart := 0
  numberOfPages := (g.endAddress - g.baseAddress + 1) % 2^64 / efiPageSize
  attr := attr

/-- the descriptor for a merged GCD range, if it is reported -/
def gcdDescriptor (g : GcdMapEntry) : Option MemoryDescriptor :=
  if g.gcdMemoryType = .reserved ∨ g.IsRuntimeMmio then
    some (gcdRange g
      (if g.gcdMemoryType = .reserved then efiReservedMemoryType
        else if g.attributes &&& efiMemoryPortIo = efiMemoryPortIo then efiMemoryMappedIOPortSpace
        else efiMemoryMappedIO)
      ((g.attributes &&& (2^64 - 1 - efiMemoryPortIo)) |||
        (g.capabilities &&& (efiCacheAttributeMask ||| efiMemoryAttributeMask))))
  else if g.gcdMemoryType = .persistent then
    some (gcdRange g efiPersistentMemory
      (g.attributes ||| efiMemoryNv |||
        (g.capabilities &&& (efiCacheAttributeMask ||| efiMemoryAttributeMask))))
  else if g.gcdMemoryType = .unaccepted then
    some (gcdRange g efiUnacceptedMemoryType
      (g.attributes ||| (g.capabilities &&& (efiMemoryAccessMask ||| efiCacheAttributeMask))))
  else none

def SameGcd (g h : GcdMapEntry) : Prop :=
  g.capabilities = h.capabilities ∧ g.attributes = h.attributes ∧
    g.gcdMemoryType = h.gcdMemoryType ∧ g.gcdIoType = h.gcdIoType

instance (g h : GcdMapEntry) : Decidable (SameGcd g h) := inferInstanceAs (Decidable (_ ∧ _))

/-! ## the passes over the two maps -/

def writeEntries (arch : Arch) (stats : Nat → MemoryTypeStatistics) : List MemoryMapEntry → Nat → MapProg Nat :=
  forEach fun e next => addDescriptor arch (entryDescriptor stats e) next

def emitGcd (arch : Arch) (g : GcdMapEntry) (next : Nat) : MapProg Nat :=
  match gcdDescriptor g with
  | some d => addDescriptor arch d next
  | none => pure next

/-- the entries of the GCD map; `merged` is `MergeGcdMapEntry` -/
def writeGcd (arch : Arch) : List GcdMapEntry → GcdMapEntry → Nat → MapProg Nat
  | [], merged, next => emitGcd arch merged next
  | g :: gs, merged, next =>
    if SameGcd merged g then writeGcd arch gs { merged with endAddress := g.endAddress } next
    else do
      let next ← emitGcd arch merged next
      writeGcd arch gs g next

def zeroGcd : GcdMapEntry := ⟨0, 0, 0, 0, .nonExistent, .nonExistent⟩

def clearAccess (n : Nat) : MapProg Unit :=
  loop (fun k _ => change k fun d => { d with attr := d.attr &&& (2^64 - 1 - efiMemoryAccessMask) }) 0 n ()

structure MapSource where
  arch : Arch
  stats : Nat → MemoryTypeStatistics
  gMemoryMap : List MemoryMapEntry
  mGcdMemorySpaceMap : List GcdMapEntry

def bufferEntries (m : MapSource) : Nat := m.mGcdMemorySpaceMap.countP (fun g => g.IsCounted) + m.gMemoryMap.length

/-- `*MemoryMapSize` is returned with the status, `none` for success -/
structure GetMapResult where
  status : Option Status
  memoryMapSize : Nat
deriving DecidableEq

def coreGetMemoryMap (m : MapSource) (size memoryMapSize : Nat) : MapProg GetMapResult :=
  if memoryMapSize < size * bufferEntries m then
    pure ⟨some .bufferTooSmall, size * bufferEntries m⟩
  else do
    let next ← writeEntries m.arch m.stats m.gMemoryMap 0
    let next ← writeGcd m.arch m.mGcdMemorySpaceMap zeroGcd next
    clearAccess next
    let n ← mergeMemoryMap next
    pure ⟨none, size * n⟩

end Audk.Mem
