import Audk.PeCoff.Format

/-!
# `PeCoffInit.c`: accepting a PE image

`peCoffInitializeContext` parses and verifies a file.  It is written as the source is, one stop for
each rejected condition, and every read of the file goes through the log.

* `internalValidateRelocInfo`: the relocation directory;
* `internalInitializePe`: the NT headers; its switch, its size checks and its two directories are
  `peOptionalHeader`, `peHeaderSizes`, `peRelocDir` and `peSecDir`.
-/

namespace Audk.PeCoff

open Bytes Prog

/-! ## the section table -/

/-- the alignment after a section at `va`: fall back to page sizes, then to none -/
def lowerSectionAlignment (arch : Arch) (va alignment : Nat) : Nat :=
  if isAligned va alignment then alignment
  else if isAligned va arch.runtimePageAllocationGranularity then
    arch.runtimePageAllocationGranularity
  else if arch.defaultPageAllocationGranularity < arch.runtimePageAllocationGranularity ∧
      isAligned va arch.defaultPageAllocationGranularity then
    arch.defaultPageAllocationGranularity
  else 1

def verifySectionWXorX (pcd : Pcd) (f : File) (hdr : Nat) : Parser Unit :=
  if pcd.imageLoaderWXorX && !pcd.imageLoaderRemoveXForWX then do
    let characteristics ← f.read32 (hdr + 36)
    stopIf (characteristics &&& (scnMemExecute ||| scnMemWrite) = scnMemExecute ||| scnMemWrite) .volumeCorrupted
  else pure ()

/-- the position check; returns the section alignment it leaves -/
def verifySectionAddress (pcd : Pcd) (arch : Arch) (va nextSectRva alignment : Nat) : Parser Nat :=
  if pcd.contiguousSections = false then do
    stopIf (va ≠ nextSectRva) .volumeCorrupted
    pure alignment
  else do
    stopIf (va < nextSectRva) .volumeCorrupted
    pure (lowerSectionAlignment arch va alignment)

def verifySectionRawData (f : File) (hdr : Nat) : Parser Unit := do
  let sizeOfRawData ← f.read32 (hdr + 16)
  if 0 < sizeOfRawData then do
    let pointerToRawData ← f.read32 (hdr + 20)
    let sectRawEnd := baseOverflowAddU32 pointerToRawData sizeOfRawData
    stopIf (sectRawEnd.1 = true) .volumeCorrupted
    stopIf (sectRawEnd.2 > f.size) .volumeCorrupted
  else pure ()

/-- `VirtualAddress + VirtualSize`, rounded up where sections must be contiguous -/
def nextSectionRva (pcd : Pcd) (va virtualSize alignment : Nat) : Parser Nat := do
  let sectEnd := baseOverflowAddU32 va virtualSize
  stopIf (sectEnd.1 = true) .volumeCorrupted
  if pcd.contiguousSections = false then do
    let aligned := baseOverflowAlignUpU32 sectEnd.2 alignment
    stopIf (aligned.1 = true) .volumeCorrupted
    pure aligned.2
  else pure sectEnd.2

/-- one turn of the loop over the sections; the state is `(NextSectRva, SectionAlignment)` -/
def internalVerifySection (pcd : Pcd) (arch : Arch) (f : File) (sectionsOffset i : Nat)
    (st : Nat × Nat) : Parser (Nat × Nat) := do
  let hdr := sectionsOffset + sizeofSectionHeader * i
  verifySectionWXorX pcd f hdr
  let va ← f.read32 (hdr + 12)
  let alignment ← verifySectionAddress pcd arch va st.1 st.2
  verifySectionRawData f hdr
  let virtualSize ← f.read32 (hdr + 8)
  let next ← nextSectionRva pcd va virtualSize alignment
  pure (next, alignment)

def firstSectionRva (pcd : Pcd) (va sizeOfHeaders alignment : Nat) : Parser Nat :=
  if va = 0 then pure 0
  else if pcd.contiguousSections = false then do
    let aligned := baseOverflowAlignUpU32 sizeOfHeaders alignment
    stopIf (aligned.1 = true) .volumeCorrupted
    pure aligned.2
  else pure sizeOfHeaders

/-- `(SectionAlignment, SizeOfImage)` for an image whose last section ends at `nextSectRva` -/
def finalSizeOfImage (pcd : Pcd) (arch : Arch) (nextSectRva alignment : Nat) : Nat × Nat :=
  if pcd.contiguousSections = false then (alignment, nextSectRva)
  else if (baseOverflowAlignUpU32 nextSectRva alignment).1 = false then
    (alignment, (baseOverflowAlignUpU32 nextSectRva alignment).2)
  else if (baseOverflowAlignUpU32 nextSectRva arch.runtimePageAllocationGranularity).1 = false then
    (arch.runtimePageAllocationGranularity,
      (baseOverflowAlignUpU32 nextSectRva arch.runtimePageAllocationGranularity).2)
  else if arch.defaultPageAllocationGranularity < arch.runtimePageAllocationGranularity then
    if (baseOverflowAlignUpU32 nextSectRva arch.defaultPageAllocationGranularity).1 = false then
      (arch.defaultPageAllocationGranularity,
        (baseOverflowAlignUpU32 nextSectRva arch.defaultPageAllocationGranularity).2)
    else (1, (baseOverflowAlignUpU32 nextSectRva arch.defaultPageAllocationGranularity).2)
  else (1, (baseOverflowAlignUpU32 nextSectRva arch.runtimePageAllocationGranularity).2)

/-- the context with its section alignment and image size, and `StartAddress` -/
def internalVerifySections (pcd : Pcd) (arch : Arch) (f : File) (ctx : PeContext) : Parser (PeContext × Nat) := do
  stopIf (ctx.numberOfSections = 0) .volumeCorrupted
  let va ← f.read32 (ctx.sectionsOffset + 12)
  let startAddress ← firstSectionRva pcd va ctx.sizeOfHeaders ctx.sectionAlignment
  let st ← loop (internalVerifySection pcd arch f ctx.sectionsOffset) 0 ctx.numberOfSections
    (startAddress, ctx.sectionAlignment)
  let final := finalSizeOfImage pcd arch st.1 st.2
  pure ({ ctx with sectionAlignment := final.1, sizeOfImage := final.2 }, startAddress)

/-! ## the relocation directory -/

def internalValidateRelocInfo (ctx : PeContext) (startAddress : Nat) : Parser Unit := do
  if ctx.relocDirSize ≠ 0 then do
    stopIf (sizeofBaseRelocationBlock > ctx.relocDirSize) .volumeCorrupted
    stopIf (startAddress > ctx.relocDirRva) .volumeCorrupted
    let sectRvaEnd := baseOverflowAddU32 ctx.relocDirRva ctx.relocDirSize
    stopIf (sectRvaEnd.1 = true ∨ sectRvaEnd.2 > ctx.sizeOfImage) .volumeCorrupted
    stopIf (¬ isAligned ctx.relocDirRva 4) .volumeCorrupted
  else pure ()
  stopIf (¬ isAligned ctx.imageBase ctx.sectionAlignment) .volumeCorrupted

/-! ## the NT headers -/

def peOptionalHeader (pcd : Pcd) (f : File) (exe : Nat) : Parser ImageType := do
  let magic ← f.read16 (exe + sizeofNtHeadersCommon)
  if magic = 0x10b then do
    stopIf (ImageType.pe32.sizeofNtHeaders > sub32 f.size exe) .volumeCorrupted
    pure .pe32
  else if magic = 0x20b then do
    stopIf (ImageType.pe32Plus.sizeofNtHeaders > sub32 f.size exe) .volumeCorrupted
    stopIf (pcd.imageLoaderAllowMisalignedOffset = false ∧ ¬ isAligned exe 8) .volumeCorrupted
    pure .pe32Plus
  else fail .unsupported

def imageProtection (pcd : Pcd) (origin : ImageOrigin) (alignment : Nat) : Parser Unit :=
  if alignment < efiPageSize ∧ pcd.imageProtectionPolicy.testBit origin.toNat = true then do
    stopIf (pcd.imageProtectionPolicy.testBit 31 = true ∧ origin = .fv) .securityViolation
    fail .notStarted
  else pure ()

/-- the size checks of the headers; returns `SectionsOffset` and `NumberOfSections` -/
def peHeaderSizes (pcd : Pcd) (f : File) (exe : Nat) (type : ImageType)
    (numberOfRvaAndSizes sizeOfHeaders : Nat) : Parser (Nat × Nat) := do
  let sizeOfOptionalHeader ← f.read16 (exe + 20)
  let sections := baseOverflowAddU32 (add32 exe sizeofNtHeadersCommon) sizeOfOptionalHeader
  stopIf (sections.1 = true) .volumeCorrupted
  stopIf (pcd.imageLoaderAllowMisalignedOffset = false ∧ ¬ isAligned sections.2 4) .volumeCorrupted
  let minSizeOfOptionalHeader := type.sizeofNtHeaders - sizeofNtHeadersCommon +
    numberOfRvaAndSizes * sizeofDataDirectory
  let numberOfSections ← f.read16 (exe + 6)
  let minSizeOfHeaders := baseOverflowAddU32 sections.2 (numberOfSections * sizeofSectionHeader)
  stopIf (minSizeOfHeaders.1 = true) .volumeCorrupted
  stopIf (minSizeOfOptionalHeader > sizeOfOptionalHeader) .volumeCorrupted
  stopIf (minSizeOfHeaders.2 > sizeOfHeaders) .volumeCorrupted
  stopIf (sizeOfHeaders > f.size) .volumeCorrupted
  pure (sections.2, numberOfSections)

def peRelocDir (f : File) (dataDirectory numberOfRvaAndSizes : Nat) (relocsStripped : Bool) : Parser (Nat × Nat) :=
  if directoryEntryBaseReloc < numberOfRvaAndSizes then do
    let rva ← f.read32 (dataDirectory + sizeofDataDirectory * directoryEntryBaseReloc)
    let size ← f.read32 (dataDirectory + sizeofDataDirectory * directoryEntryBaseReloc + 4)
    stopIf (relocsStripped = true ∧ size ≠ 0) .volumeCorrupted
    pure (rva, size)
  else pure (0, 0)

def peSecDir (f : File) (dataDirectory numberOfRvaAndSizes : Nat) : Parser (Nat × Nat) :=
  if directoryEntrySecurity < numberOfRvaAndSizes then do
    let offset ← f.read32 (dataDirectory + sizeofDataDirectory * directoryEntrySecurity)
    let size ← f.read32 (dataDirectory + sizeofDataDirectory * directoryEntrySecurity + 4)
    let secDirEnd := baseOverflowAddU32 offset size
    stopIf (secDirEnd.1 = true ∨ secDirEnd.2 > f.size) .volumeCorrupted
    stopIf (¬ isAligned offset imageCertificateAlign) .volumeCorrupted
    stopIf (size ≠ 0 ∧ (¬ isAligned size imageCertificateAlign ∨ size < sizeofWinCertificate)) .volumeCorrupted
    pure (offset, size)
  else pure (0, 0)

def internalInitializePe (pcd : Pcd) (arch : Arch) (origin : ImageOrigin) (f : File) (exe : Nat) :
    Parser PeContext := do
  let type ← peOptionalHeader pcd f exe
  let subsystem ← f.read16 (exe + 92)
  let sizeOfHeaders ← f.read32 (exe + 84)
  let imageBase ← f.read (exe + type.imageBase.1) type.imageBase.2
  let addressOfEntryPoint ← f.read32 (exe + 40)
  let sectionAlignment ← f.read32 (exe + 56)
  let numberOfRvaAndSizes ← f.read32 (exe + type.numberOfRvaAndSizes)
  stopIf (numberOfRvaAndSizes > numberOfDirectoryEntries) .volumeCorrupted
  stopIf (¬ isPow2 sectionAlignment) .volumeCorrupted
  imageProtection pcd origin sectionAlignment
  let sections ← peHeaderSizes pcd f exe type numberOfRvaAndSizes sizeOfHeaders
  let machine ← f.read16 (exe + 4)
  let characteristics ← f.read16 (exe + 22)
  let relocsStripped := decide (characteristics &&& fileRelocsStripped ≠ 0)
  let reloc ← peRelocDir f (exe + type.sizeofNtHeaders) numberOfRvaAndSizes relocsStripped
  let sec ← peSecDir f (exe + type.sizeofNtHeaders) numberOfRvaAndSizes
  let verified ← internalVerifySections pcd arch f {
    imageBase, fileSize := f.size, sectionsOffset := sections.1, numberOfSections := sections.2,
    sizeOfImage := 0, sectionAlignment, exeHdrOffset := exe, sizeOfHeaders, addressOfEntryPoint,
    relocsStripped, imageType := type, subsystem, machine, relocDirRva := reloc.1,
    relocDirSize := reloc.2, secDirOffset := sec.1, secDirSize := sec.2 }
  stopIf (addressOfEntryPoint ≥ verified.1.sizeOfImage) .volumeCorrupted
  internalValidateRelocInfo verified.1 verified.2
  pure verified.1

/-- `ExeHdrOffset`: behind the DOS header, if the file has one -/
def peExeHdrOffset (pcd : Pcd) (f : File) : Parser Nat :=
  if sizeofDosHeader ≤ f.size then do
    let magic ← f.read16 0
    if magic = dosSignature then do
      let e_lfanew ← f.read32 60
      stopIf (sizeofDosHeader > e_lfanew ∨ e_lfanew > f.size) .volumeCorrupted
      stopIf (pcd.imageLoaderAllowMisalignedOffset = false ∧ ¬ isAligned e_lfanew 4) .unsupported
      pure e_lfanew
    else pure 0
  else pure 0

def peCoffInitializeContext (pcd : Pcd) (arch : Arch) (origin : ImageOrigin) (f : File) : Parser PeContext := do
  let exe ← peExeHdrOffset pcd f
  stopIf (sub32 f.size exe < sizeofNtHeadersCommon + 2) .unsupported
  let signature ← f.read32 exe
  stopIf (signature ≠ ntSignature) .unsupported
  internalInitializePe pcd arch origin f exe

end Audk.PeCoff
