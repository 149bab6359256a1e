import Audk.Lib.Slots
import Audk.Base.MemoryDescriptor

/-!
# `ImagePropertiesRecordLib`: splitting the memory map along the image segments

`SplitTable` expands the memory map in its own buffer, from the last descriptor to the first one.
The descriptors are the slots of the buffer; `unread` of the buffer is the descriptor that was read
last, so that a write below it would lose a descriptor.

* `getImageRecordByAddress`, `getMaxSplitRecordCount`, `setNewRecord`, `splitRecord`,
  `sortMemoryMap`, `splitTable`: the functions of `ImagePropertiesRecordLib.c`;
* `ImagePropertiesPrivateData`, `insertSortImageRecord`, `additionalRecordCount`: the record list of
  `MemoryAttributesTable.c` and the number of spare descriptors it asks for.

Numbers of descriptors are natural numbers: they are bounded by the slots of the buffer.
-/

namespace Audk.ImageProperties

open Prog Slots Runs

abbrev MapProg (β : Type) := SlotProg MemoryDescriptor β

def getImageRecordByAddress (buffer length : Nat) (imageRecordList : List ImageRecord) : Option ImageRecord :=
  imageRecordList.find? fun r =>
    buffer ≤ r.startAddress ∧ (buffer + length) % 2^64 ≥ r.endAddress

def physicalEnd (d : MemoryDescriptor) : Nat := (d.physicalStart + efiPagesToSize d.numberOfPages) % 2^64

def newRecord (old : MemoryDescriptor) (physicalStart size attr : Nat) : MemoryDescriptor where
  type := old.type
  physicalStart := physicalStart
  virtualStart := 0
  numberOfPages := efiSizeToPages size
  attr := attr

/-- the access bits of an old descriptor are replaced by the attributes of a segment -/
def segmentAttribute (old : MemoryDescriptor) (segment : RecordSegment) : Nat :=
  (old.attr &&& (2^64 - 1 - efiMemoryAccessMask)) ||| segment.value

/-! ## `SetNewRecord` -/

/-- the descriptor in front of the image; the number of descriptors written -/
def setPrefix (r : ImageRecord) (index : Int) (old : MemoryDescriptor) : MapProg Nat :=
  if r.startAddress > old.physicalStart then do
    write index (newRecord old old.physicalStart (r.startAddress - old.physicalStart) old.attr)
    pure 1
  else pure 0

/-- one segment: `SectionAddress` is a `UINTN` -/
def setSegment (arch : Arch) (old : MemoryDescriptor) (segment : RecordSegment) (at' : Int × Nat) :
    MapProg (Int × Nat) := do
  write at'.1 (newRecord old at'.2 segment.size (segmentAttribute old segment))
  pure (at'.1 + 1, (at'.2 + segment.size) % (arch.maxAddress + 1))

def setNewRecord (arch : Arch) (r : ImageRecord) (index : Int) (old : MemoryDescriptor) : MapProg Nat := do
  let newRecordCount ← setPrefix r index old
  let _ ← forEach (setSegment arch old) r.segments (index + newRecordCount, r.startAddress)
  pure ((newRecordCount + r.numSegments) % 2^32)

/-! ## `GetMaxSplitRecordCount` -/

structure CountState where
  splitRecordCount : Nat
  physicalStart : Nat
  running : Bool

def countTurn (physicalEnd : Nat) (imageRecordList : List ImageRecord) (s : CountState) : MapProg CountState :=
  match getImageRecordByAddress s.physicalStart (sub64 physicalEnd s.physicalStart) imageRecordList with
  | none => pure { s with running := false }
  | some r => pure
    { splitRecordCount := s.splitRecordCount + (r.numSegments + 1) % 2^32
      physicalStart := r.endAddress
      running := decide (r.endAddress < physicalEnd) }

/-- `GetMaxSplitRecordCount`: stops with `stuck` if the loop takes more than `fuel` turns -/
def getMaxSplitRecordCount (fuel : Nat) (old : MemoryDescriptor) (imageRecordList : List ImageRecord) :
    MapProg Nat := do
  let s ← repeatWhile (fun s : CountState => s.running = true)
    (countTurn (physicalEnd old) imageRecordList) .stuck fuel ⟨0, old.physicalStart, true⟩
  pure s.splitRecordCount

/-! ## `SplitRecord` -/

structure SplitState where
  tempRecord : MemoryDescriptor
  physicalStart : Nat
  index : Int
  totalNewRecordCount : Nat
  running : Bool

def splitRest (physicalEnd : Nat) (s : SplitState) : MapProg SplitState :=
  if physicalEnd > s.physicalStart then do
    write s.index (newRecord s.tempRecord s.physicalStart (sub64 physicalEnd s.physicalStart) s.tempRecord.attr)
    pure { s with totalNewRecordCount := s.totalNewRecordCount + 1, running := false }
  else pure { s with running := false }

def splitPrefix (physicalEnd : Nat) (r : ImageRecord) (s : SplitState) : MapProg SplitState :=
  if s.tempRecord.physicalStart < r.startAddress then do
    write s.index (newRecord s.tempRecord s.tempRecord.physicalStart
      (r.startAddress - s.tempRecord.physicalStart) s.tempRecord.attr)
    pure
      { tempRecord :=
          { s.tempRecord with
            physicalStart := r.startAddress
            numberOfPages := efiSizeToPages (sub64 physicalEnd r.startAddress) }
        physicalStart := r.startAddress
        index := s.index + 1
        totalNewRecordCount := s.totalNewRecordCount + 1
        running := s.running }
  else pure s

/-- the segments of the image, and the rest of the old descriptor behind it -/
def splitImage (arch : Arch) (physicalEnd : Nat) (r : ImageRecord) (s : SplitState) : MapProg SplitState := do
  let newRecordCount ← setNewRecord arch r s.index s.tempRecord
  pure
    { tempRecord :=
        { s.tempRecord with
          physicalStart := r.endAddress
          numberOfPages := efiSizeToPages (sub64 physicalEnd r.endAddress) }
      physicalStart := r.endAddress
      index := s.index + newRecordCount
      totalNewRecordCount := s.totalNewRecordCount + newRecordCount
      running := decide (r.endAddress < physicalEnd) }

def splitTurn (arch : Arch) (physicalEnd : Nat) (imageRecordList : List ImageRecord) (s : SplitState) :
    MapProg SplitState :=
  match getImageRecordByAddress s.physicalStart (sub64 physicalEnd s.physicalStart) imageRecordList with
  | none => splitRest physicalEnd s
  | some r => do
    let s ← splitPrefix physicalEnd r s
    splitImage arch physicalEnd r s

def splitRecord (arch : Arch) (fuel : Nat) (oldIndex newIndex : Int) (maxSplitRecordCount : Nat)
    (imageRecordList : List ImageRecord) : MapProg Nat := do
  let old ← take oldIndex
  if maxSplitRecordCount = 0 then do
    write newIndex old
    pure 0
  else do
    let s ← repeatWhile (fun s : SplitState => s.running = true)
      (splitTurn arch (physicalEnd old) imageRecordList) .stuck fuel
      ⟨old, old.physicalStart, newIndex, 0, true⟩
    pure (s.totalNewRecordCount - 1)

/-! ## `SplitTable` -/

/-- an unused slot is moved to the bottom of the list when the map is sorted -/
def markUnused (arch : Arch) (index : Int) : MapProg Unit :=
  change index fun d => { d with physicalStart := arch.maxAddress }

/-- one old descriptor; the state is `IndexNew` and `TotalSkippedRecords` -/
def splitEntry (arch : Arch) (fuel : Nat) (imageRecordList : List ImageRecord) (indexOld : Int)
    (s : Int × Nat) : MapProg (Int × Nat) := do
  let old ← peek indexOld
  let maxSplitRecordCount ← getMaxSplitRecordCount fuel old imageRecordList
  let indexNew := s.1 - maxSplitRecordCount
  let realSplitRecordCount ←
    splitRecord arch fuel indexOld indexNew maxSplitRecordCount imageRecordList
  let _ ← loop (fun k _ => markUnused arch (indexNew + k + 1)) realSplitRecordCount
    (maxSplitRecordCount - realSplitRecordCount) ()
  pure (indexNew - 1, s.2 + (maxSplitRecordCount - realSplitRecordCount))

def sortMemoryMap (count : Nat) : MapProg Unit := exchangeSort MemoryDescriptor.physicalStart count

/-- `SplitTable` for a map of `count` descriptors; returns the number of descriptors of the new map -/
def splitTable (arch : Arch) (fuel count : Nat) (imageRecordList : List ImageRecord)
    (numberOfAdditionalDescriptors : Nat) : MapProg Nat := do
  let indexNewStarting : Int := (count : Int) - 1 + numberOfAdditionalDescriptors
  let s ← loop (fun i => splitEntry arch fuel imageRecordList ((count : Int) - 1 - i)) 0 count (indexNewStarting, 0)
  moveDown (s.1 + 1) (indexNewStarting - s.1).toNat
  sortMemoryMap (indexNewStarting - s.1).toNat
  pure ((indexNewStarting - s.1).toNat - s.2)

/-! ## the image records of `MemoryAttributesTable.c` -/

structure ImagePropertiesPrivateData where
  imageRecordCount : Nat
  sectionCountMax : Nat
  imageRecordList : List ImageRecord

/-- the initial value of `mImagePropertiesPrivateData` -/
def ImagePropertiesPrivateData.initial : ImagePropertiesPrivateData := ⟨0, 0, []⟩

def insertRecord (r : ImageRecord) : List ImageRecord → List ImageRecord
  | [] => [r]
  | x :: xs => if r.startAddress < x.startAddress then r :: x :: xs else x :: insertRecord r xs

def insertSortImageRecord (p : ImagePropertiesPrivateData) (r : ImageRecord) : ImagePropertiesPrivateData where
  imageRecordCount := p.imageRecordCount + 1
  sectionCountMax := if p.sectionCountMax < r.numSegments then r.numSegments else p.sectionCountMax
  imageRecordList := insertRecord r p.imageRecordList

def insertImageRecords (records : List ImageRecord) : ImagePropertiesPrivateData :=
  records.foldl insertSortImageRecord .initial

def additionalRecordCount (p : ImagePropertiesPrivateData) : Nat := (p.sectionCountMax + 1) * p.imageRecordCount

end Audk.ImageProperties
