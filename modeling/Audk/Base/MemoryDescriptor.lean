import Audk.Base.Firmware
import Audk.Base.ImageRecord

/-!
# `EFI_MEMORY_DESCRIPTOR` and the page arithmetic of `UINT64` addresses

* `efiPagesToSize`, `efiSizeToPages`: the conversions on `UINT64`;
* `Arch.maxAddress`: `MAX_ADDRESS`, the largest `UINTN`.
-/

namespace Audk

def efiPageSize : Nat := 0x1000

def efiMemoryAccessMask : Nat := efiMemoryRp ||| efiMemoryXp ||| efiMemoryRo

structure MemoryDescriptor where
  type : Nat
  physicalStart : Nat
  virtualStart : Nat
  numberOfPages : Nat
  attr : Nat
deriving DecidableEq

def MemoryDescriptor.stop (d : MemoryDescriptor) : Nat := d.physicalStart + d.numberOfPages * efiPageSize

def MemoryDescriptor.Covers (d : MemoryDescriptor) (a : Nat) : Prop := d.physicalStart ≤ a ∧ a < d.stop

def efiPagesToSize (pages : Nat) : Nat := pages * efiPageSize % 2^64

def efiSizeToPages (size : Nat) : Nat := size / efiPageSize + if size % efiPageSize ≠ 0 then 1 else 0

lemma efiSizeToPages_mul {size : Nat} (h : efiPageSize ∣ size) : efiSizeToPages size * efiPageSize = size := by
  unfold efiSizeToPages
  rw [if_neg (not_not_intro (Nat.mod_eq_zero_of_dvd h)), Nat.add_zero, Nat.div_mul_cancel h]

/-- `MAX_ADDRESS`; an EBC program has the word size of its host, which is taken to have 64 bits -/
def Arch.maxAddress : Arch → Nat
  | .ia32 | .arm => 2^32 - 1
  | _ => 2^64 - 1

lemma Arch.maxAddress_lt (a : Arch) : a.maxAddress < 2^64 := by
  cases a <;> norm_num [Arch.maxAddress]

lemma Arch.maxAddress_not_aligned (a : Arch) : ¬ efiPageSize ∣ a.maxAddress := by
  cases a <;> norm_num [Arch.maxAddress, efiPageSize]

def Arch.maxAllocAddress : Arch → Nat
  | .aarch64 | .riscv64 | .loongArch64 => 0xFFFFFFFFFFFF
  | a => a.maxAddress

def Arch.sizeofMemoryMap : Arch → Nat
  | .ia32 | .arm => 56
  | _ => 64

def Describes (map : List MemoryDescriptor) (a type attr : Nat) : Prop :=
  ∃ d ∈ map, d.Covers a ∧ d.type = type ∧ d.attr = attr

def DisjointRanges (d e : MemoryDescriptor) : Prop := ∀ a, ¬ (d.Covers a ∧ e.Covers a)

lemma DisjointRanges.symm {d e : MemoryDescriptor} (h : DisjointRanges d e) : DisjointRanges e d :=
  fun a ha => h a ha.symm

end Audk
