import Audk.Base.MemoryDescriptor

/-!
# The memory maps of the DXE core: `MEMORY_MAP`, GCD entries, type statistics

* `GcdMapEntry`: an entry of `mGcdMemorySpaceMap`;
* `MemoryTypeStatistics`: the bin of a memory type.
-/

namespace Audk.Mem

def efiReservedMemoryType : Nat := 0
def efiBootServicesData : Nat := 4
def efiRuntimeServicesCode : Nat := 5
def efiRuntimeServicesData : Nat := 6
def efiConventionalMemory : Nat := 7
def efiACPIMemoryNVS : Nat := 10
def efiMemoryMappedIO : Nat := 11
def efiMemoryMappedIOPortSpace : Nat := 12
def efiPersistentMemory : Nat := 14
def efiUnacceptedMemoryType : Nat := 15
def efiMaxMemoryType : Nat := 16

/-- the memory types `0x70000000` and above are left to OEMs and OS loaders -/
def memoryTypeOemReservedMin : Nat := 0x70000000

def efiMemoryUc : Nat := 0x1
def efiMemoryWc : Nat := 0x2
def efiMemoryWt : Nat := 0x4
def efiMemoryWb : Nat := 0x8
def efiMemoryUce : Nat := 0x10
def efiMemoryWp : Nat := 0x1000
def efiMemoryNv : Nat := 0x8000
def efiMemorySp : Nat := 0x40000
def efiMemoryCpuCrypto : Nat := 0x80000
def efiMemoryRuntime : Nat := 0x8000000000000000
def efiMemoryPortIo : Nat := 0x4000000000000000

def efiCacheAttributeMask : Nat :=
  efiMemoryUc ||| efiMemoryWc ||| efiMemoryWt ||| efiMemoryWb ||| efiMemoryUce ||| efiMemoryWp

def efiMemoryAttributeMask : Nat := efiMemoryAccessMask ||| efiMemorySp ||| efiMemoryCpuCrypto

/-- `MEMORY_MAP`: the fields that describe a range -/
structure MemoryMapEntry where
  type : Nat
  start : Nat
  end_ : Nat
  virtualStart : Nat
  attr : Nat
deriving DecidableEq

def MemoryMapEntry.Covers (e : MemoryMapEntry) (a : Nat) : Prop := e.start ≤ a ∧ a ≤ e.end_

structure MemoryMapEntry.Paged (e : MemoryMapEntry) : Prop where
  start_aligned : efiPageSize ∣ e.start
  end_aligned : efiPageSize ∣ e.end_ + 1
  nonempty : e.start ≤ e.end_

def DisjointEntries (e f : MemoryMapEntry) : Prop := e.end_ < f.start ∨ f.end_ < e.start

lemma DisjointEntries.symm {e f : MemoryMapEntry} (h : DisjointEntries e f) : DisjointEntries f e := Or.symm h

structure MemoryTypeStatistics where
  baseAddress : Nat
  maximumAddress : Nat
  currentNumberOfPages : Nat
  numberOfPages : Nat
  informationIndex : Nat
  special : Bool
  runtime : Bool

inductive GcdMemoryType where
  | nonExistent | reserved | systemMemory | memoryMappedIo | persistent | moreReliable | unaccepted
deriving DecidableEq

inductive GcdIoType where
  | nonExistent | reserved | io
deriving DecidableEq

/-- `EFI_GCD_MAP_ENTRY`: the fields that describe a range -/
structure GcdMapEntry where
  baseAddress : Nat
  endAddress : Nat
  capabilities : Nat
  attributes : Nat
  gcdMemoryType : GcdMemoryType
  gcdIoType : GcdIoType

def GcdMapEntry.Covers (g : GcdMapEntry) (a : Nat) : Prop := g.baseAddress ≤ a ∧ a ≤ g.endAddress

instance (g : GcdMapEntry) (a : Nat) : Decidable (g.Covers a) := inferInstanceAs (Decidable (_ ∧ _))

end Audk.Mem
