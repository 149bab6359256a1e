import Audk.Lib.Bytes
import Audk.Lib.Prog
import Audk.Base.Overflow

/-!
# What the image code is built with: status codes, platform constants, PCDs, files

* `File`: a file buffer with its `UINT32` size;
* `File.read`: a read of the buffer, which is also recorded in the log of reads.
-/

namespace Audk

open Bytes

inductive Status where
  | loadError | invalidParameter | unsupported | bufferTooSmall | outOfResources
  | volumeCorrupted | notFound | accessDenied | notStarted | aborted | securityViolation | notAvailableYet
  | writeProtected | volumeFull | deviceError | alreadyStarted
deriving DecidableEq

inductive Arch where
  | ia32 | x64 | ebc | arm | aarch64 | riscv64 | loongArch64

def Arch.defaultPageAllocationGranularity (_ : Arch) : Nat := 0x1000

def Arch.runtimePageAllocationGranularity : Arch → Nat
  | .aarch64 | .loongArch64 => 0x10000
  | _ => 0x1000

lemma Arch.default_pow2 (a : Arch) : isPow2 a.defaultPageAllocationGranularity := by
  cases a <;> decide

lemma Arch.runtime_pow2 (a : Arch) : isPow2 a.runtimePageAllocationGranularity := by
  cases a <;> decide

lemma Arch.default_lt (a : Arch) : a.defaultPageAllocationGranularity < 2^32 := by
  cases a <;> decide

lemma Arch.runtime_lt (a : Arch) : a.runtimePageAllocationGranularity < 2^32 := by
  cases a <;> decide

inductive ImageOrigin where
  | fv | optionROM | userImage
deriving DecidableEq

def ImageOrigin.toNat : ImageOrigin → Nat
  | .fv => 0
  | .optionROM => 1
  | .userImage => 2

/-- the policy PCDs of the image loader -/
structure Pcd where
  imageLoaderAlignmentPolicy : Nat
  imageLoaderWXorX : Bool
  imageLoaderRemoveXForWX : Bool
  imageLoaderAllowMisalignedOffset : Bool
  imageLoaderLoadHeader : Bool
  imageLoaderHashProhibitOverlap : Bool
  imageLoaderRelocTypePolicy : Nat
  imageLoaderRtRelocAllowTargetMismatch : Bool
  imageProtectionPolicy : Nat

/-- the values `MdePkg.dec` declares -/
def Pcd.default : Pcd where
  imageLoaderAlignmentPolicy := 0xFFFFFFFF
  imageLoaderWXorX := true
  imageLoaderRemoveXForWX := false
  imageLoaderAllowMisalignedOffset := false
  imageLoaderLoadHeader := true
  imageLoaderHashProhibitOverlap := true
  imageLoaderRelocTypePolicy := 0xFFFFFFFF
  imageLoaderRtRelocAllowTargetMismatch := false
  imageProtectionPolicy := 7

/-- `PCD_ALIGNMENT_POLICY_CONTIGUOUS_SECTIONS` is set: sections need not be contiguous -/
def Pcd.contiguousSections (p : Pcd) : Bool := p.imageLoaderAlignmentPolicy.testBit 0

/-- `PCD_ALIGNMENT_POLICY_RELOCATION_BLOCK_SIZES` is set: block sizes need not be aligned -/
def Pcd.relocationBlockSizes (p : Pcd) : Bool := p.imageLoaderAlignmentPolicy.testBit 1

/-! ## files -/

/-- a file buffer; its size is a `UINT32` -/
structure File where
  bytes : Mem
  size : Nat
  size_lt : size < 2^32

def File.u16 (f : File) (off : Nat) : Nat := le f.bytes off 2
def File.u32 (f : File) (off : Nat) : Nat := le f.bytes off 4
def File.u64 (f : File) (off : Nat) : Nat := le f.bytes off 8

lemma File.u32_lt (f : File) (off : Nat) : f.u32 off < 2^32 := le_lt f.bytes off 4
lemma File.u64_lt (f : File) (off : Nat) : f.u64 off < 2^64 := le_lt f.bytes off 8

/-- a parser reads a file, logs its reads and may stop with a status -/
abbrev Parser (α : Type) := Prog (List Span) Status α

def File.read (f : File) (off n : Nat) : Parser Nat := fun log => (.ok (le f.bytes off n), ⟨off, n⟩ :: log)

def File.read16 (f : File) (off : Nat) : Parser Nat := f.read off 2
def File.read32 (f : File) (off : Nat) : Parser Nat := f.read off 4

section
variable {f : File} {off : Nat} {Q : Nat → List Span → Prop} {E : Status → List Span → Prop} {log : List Span}

lemma wp_read {n : Nat} : Prog.wp (f.read off n) Q E log ↔ Q (le f.bytes off n) (⟨off, n⟩ :: log) := Iff.rfl
lemma wp_read16 : Prog.wp (f.read16 off) Q E log ↔ Q (f.u16 off) (⟨off, 2⟩ :: log) := Iff.rfl
lemma wp_read32 : Prog.wp (f.read32 off) Q E log ↔ Q (f.u32 off) (⟨off, 4⟩ :: log) := Iff.rfl

end

def File.Covers (f : File) (log : List Span) : Prop := ∀ s ∈ log, s.Within 0 f.size

lemma File.covers_nil (f : File) : f.Covers [] := by
  intro s hs
  cases hs

lemma File.covers_cons {f : File} {log : List Span} (off n : Nat) (h : f.Covers log)
    (hn : off + n ≤ f.size) : f.Covers (⟨off, n⟩ :: log) := by
  intro s hs
  rcases List.mem_cons.mp hs with rfl | hs
  · exact Span.within_of_le (Nat.zero_le _) hn
  · exact h s hs

end Audk
