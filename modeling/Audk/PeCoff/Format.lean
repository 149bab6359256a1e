import Audk.Base.Firmware

/-!
# PE/COFF: layout of the headers and the image context

Offsets are those of `PeImage2.h`; those of the NT headers are relative to the executable header.
The second half names the header fields of a file as plain functions of its bytes.

* `SectionHeader`, `File.sectionHeader`: an entry of the section table;
* `exeHdrOffset`, `peType`, `dirEntry`: where a file keeps its headers.
-/

namespace Audk.PeCoff

open Bytes

/-! ## layout -/

def sizeofDosHeader : Nat := 64
def sizeofNtHeadersCommon : Nat := 24
def sizeofSectionHeader : Nat := 40
def sizeofDataDirectory : Nat := 8
def sizeofBaseRelocationBlock : Nat := 8
def sizeofWinCertificate : Nat := 8

def dosSignature : Nat := 0x5A4D
def ntSignature : Nat := 0x00004550

def numberOfDirectoryEntries : Nat := 16
def directoryEntrySecurity : Nat := 4
def directoryEntryBaseReloc : Nat := 5

def fileRelocsStripped : Nat := 0x0001
def scnMemExecute : Nat := 0x20000000
def scnMemRead : Nat := 0x40000000
def scnMemWrite : Nat := 0x80000000

def efiPageSize : Nat := 0x1000
def imageCertificateAlign : Nat := 8

inductive ImageType where
  | pe32 | pe32Plus
deriving DecidableEq

/-- `sizeof (EFI_IMAGE_NT_HEADERS32)` and `sizeof (EFI_IMAGE_NT_HEADERS64)` -/
def ImageType.sizeofNtHeaders : ImageType → Nat
  | .pe32 => 120
  | .pe32Plus => 136

def ImageType.imageBase : ImageType → Nat × Nat
  | .pe32 => (52, 4)
  | .pe32Plus => (48, 8)

def ImageType.numberOfRvaAndSizes : ImageType → Nat
  | .pe32 => 116
  | .pe32Plus => 132

/-- `PE_COFF_LOADER_IMAGE_CONTEXT`, without the two buffer pointers -/
structure PeContext where
  imageBase : Nat
  fileSize : Nat
  sectionsOffset : Nat
  numberOfSections : Nat
  sizeOfImage : Nat
  sectionAlignment : Nat
  exeHdrOffset : Nat
  sizeOfHeaders : Nat
  addressOfEntryPoint : Nat
  relocsStripped : Bool
  imageType : ImageType
  subsystem : Nat
  machine : Nat
  relocDirRva : Nat
  relocDirSize : Nat
  secDirOffset : Nat
  secDirSize : Nat
deriving DecidableEq

/-- the fields of `EFI_IMAGE_SECTION_HEADER` the loader uses -/
structure SectionHeader where
  virtualSize : Nat
  virtualAddress : Nat
  sizeOfRawData : Nat
  pointerToRawData : Nat
  characteristics : Nat
deriving DecidableEq

def sectionHeader (f : File) (off : Nat) : SectionHeader where
  virtualSize := f.u32 (off + 8)
  virtualAddress := f.u32 (off + 12)
  sizeOfRawData := f.u32 (off + 16)
  pointerToRawData := f.u32 (off + 20)
  characteristics := f.u32 (off + 36)

def sectionAt (f : File) (sectionsOffset i : Nat) : SectionHeader :=
  sectionHeader f (sectionsOffset + sizeofSectionHeader * i)

def SectionHeader.top (s : SectionHeader) : Nat := s.virtualAddress + s.virtualSize

/-! ## header fields as functions of the file -/

def hasDosHeader (f : File) : Prop := sizeofDosHeader ≤ f.size ∧ f.u16 0 = dosSignature

instance (f : File) : Decidable (hasDosHeader f) := inferInstanceAs (Decidable (_ ∧ _))

def exeHdrOffset (f : File) : Nat := if hasDosHeader f then f.u32 60 else 0

def peType (f : File) : ImageType :=
  if f.u16 (exeHdrOffset f + 24) = 0x10b then .pe32 else .pe32Plus

def numberOfRvaAndSizes (f : File) : Nat := f.u32 (exeHdrOffset f + (peType f).numberOfRvaAndSizes)

def dirEntry (f : File) (i : Nat) : Nat := exeHdrOffset f + (peType f).sizeofNtHeaders + sizeofDataDirectory * i

/-- `VirtualAddress` and `Size` of data directory entry `i`, zeros where the table has no such
entry -/
def dirRva (f : File) (i : Nat) : Nat := if i < numberOfRvaAndSizes f then f.u32 (dirEntry f i) else 0
def dirSize (f : File) (i : Nat) : Nat :=
  if i < numberOfRvaAndSizes f then f.u32 (dirEntry f i + 4) else 0

def sectionsOffset (f : File) : Nat := exeHdrOffset f + sizeofNtHeadersCommon + f.u16 (exeHdrOffset f + 20)

def numberOfSections (f : File) : Nat := f.u16 (exeHdrOffset f + 6)

def sizeOfHeaders (f : File) : Nat := f.u32 (exeHdrOffset f + 84)

def imageBase (f : File) : Nat := le f.bytes (exeHdrOffset f + (peType f).imageBase.1) (peType f).imageBase.2

end Audk.PeCoff
