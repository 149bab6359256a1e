import Audk.Mem.Types

/-!
# The page allocator of the DXE core: `MdeModulePkg/Core/Dxe/Mem/Page.c`

Addresses are `UINT64` values.  The heap guard is disabled.  `Prog` carries the globals; it stops with
`assertion` where an `ASSERT` protects the map: no descriptor is left, or the stack of new descriptors
is full.

A conversion adds descriptors on the stack `mMapStack`; `CoreFreeMemoryMapStack` moves them to heap
descriptors and may allocate pages for those, which converts pages again.  In the nested calls
`mFreeMapStack` is set and `CoreFreeMemoryMapStack` returns at once.  So every function that calls it
has the parameter `freeStack`; the nested calls get `pure ()`.

* `coreFreeMemoryMapStack`, `allocateMemoryMapEntry`: descriptors;
* `coreInternalAllocatePages`, `coreInternalFreePages`, `coreAllocatePoolPages`, `coreFreePoolPages`,
  `coreUpdateMemoryAttributes`, `coreAddMemoryDescriptor`: the operations.
-/

namespace Audk.Mem

open Prog

def maxMapDepth : Nat := 6

def efiMemoryPresent : Nat := 0x0100000000000000
def efiMemoryInitialized : Nat := 0x0200000000000000
def efiMemoryTested : Nat := 0x0400000000000000
def efiMemoryMoreReliable : Nat := 0x10000

/-- where a descriptor is stored; a stack descriptor has `FromPages = FALSE` -/
inductive Place where
  | heap
  | stack (i : Nat)
deriving DecidableEq

structure MapNode where
  entry : MemoryMapEntry
  place : Place
deriving DecidableEq

structure MemoryTypeInformation where
  type : Nat
  numberOfPages : Nat

/-- the globals.  `mMemoryMapKey` counts without a limit; its value is taken modulo the word size.
`freeEntries` is the length of `mFreeMemoryMapEntryList`. -/
structure PageState where
  gMemoryMap : List MapNode
  mMapDepth : Nat
  freeEntries : Nat
  mMemoryMapKey : Nat
  mGcdMemorySpaceMap : List GcdMapEntry
  stats : Nat → MemoryTypeStatistics
  info : Nat → MemoryTypeInformation
  mDefaultMaximumAddress : Nat
  mDefaultBaseAddress : Nat
  mMemoryTypeInformationInitialized : Bool

inductive PageFault where
  | assertion | stuck
deriving DecidableEq

abbrev PageProg (α : Type) := Prog PageState PageFault α

/-! ## descriptors are added to the map -/

/-- what is left of the map after the search for adjoining descriptors, and the range that grew -/
structure Absorbed where
  kept : List MapNode
  start : Nat
  end_ : Nat
  freed : Nat

def Absorbed.keep (n : MapNode) (r : Absorbed) : Absorbed := { r with kept := n :: r.kept }

/-- `RemoveMemoryMapEntry`: a heap descriptor goes to the free list -/
def Absorbed.drop (n : MapNode) (r : Absorbed) : Absorbed :=
  { r with freed := r.freed + if n.place = .heap then 1 else 0 }

def absorbAdjoining (type attr : Nat) : List MapNode → Nat → Nat → Absorbed
  | [], start, end_ => ⟨[], start, end_, 0⟩
  | n :: ns, start, end_ =>
    if n.entry.type ≠ type ∨ n.entry.attr ≠ attr then (absorbAdjoining type attr ns start end_).keep n
    else if (n.entry.end_ + 1) % 2^64 = start then
      (absorbAdjoining type attr ns n.entry.start end_).drop n
    else if n.entry.start = (end_ + 1) % 2^64 then
      (absorbAdjoining type attr ns start n.entry.end_).drop n
    else (absorbAdjoining type attr ns start end_).keep n

/-- a new descriptor from the stack, at the end of the map -/
def pushEntry (e : MemoryMapEntry) : PageProg Unit := do
  modify fun s =>
    { s with
      gMemoryMap := s.gMemoryMap ++ [⟨e, .stack s.mMapDepth⟩]
      mMapDepth := s.mMapDepth + 1 }
  let depth ← gets (·.mMapDepth)
  stopIf (¬ depth < maxMapDepth) .assertion

def coreAddRange (type start end_ attr : Nat) : PageProg Unit := do
  stopIf (start % efiPageSize ≠ 0 ∨ ¬ start < end_) .assertion
  modify fun s => { s with mMemoryMapKey := s.mMemoryMapKey + 1 }
  let map ← gets (·.gMemoryMap)
  let r := absorbAdjoining type attr map start end_
  modify fun s => { s with gMemoryMap := r.kept, freeEntries := s.freeEntries + r.freed }
  pushEntry ⟨type, r.start, r.end_, 0, attr⟩

/-! ## ranges are converted -/

inductive Change where
  | type (newType : Nat)
  | attributes (newAttributes : Nat)

/-- the descriptor with the address `a`, what is before it in the list and what is behind it -/
def findEntry (a : Nat) : List MapNode → Option (List MapNode × MapNode × List MapNode)
  | [] => none
  | n :: ns =>
    if n.entry.start ≤ a ∧ a < n.entry.end_ then some ([], n, ns)
    else (findEntry a ns).map fun r => (n :: r.1, r.2)

def InBin (s : PageState) (type a : Nat) : Prop :=
  ((s.stats type).baseAddress ≤ a ∧ a ≤ (s.stats type).maximumAddress) ∨
    (s.mDefaultBaseAddress ≤ a ∧ a ≤ s.mDefaultMaximumAddress)

instance (s : PageState) (type a : Nat) : Decidable (InBin s type a) := inferInstanceAs (Decidable (_ ∨ _))

def setCurrentPages (s : PageState) (type pages : Nat) : PageState :=
  { s with stats := Function.update s.stats type { s.stats type with currentNumberOfPages := pages } }

def uncountPages (type start pages : Nat) (s : PageState) : PageState :=
  if type < efiMaxMemoryType ∧ InBin s type start then
    setCurrentPages s type ((s.stats type).currentNumberOfPages - pages)
  else s

/-- the pages are counted for the new type; `gMemoryTypeInformation` keeps the largest count -/
def countPages (type start pages : Nat) (s : PageState) : PageState :=
  if type < efiMaxMemoryType ∧ InBin s type start then
    let current := ((s.stats type).currentNumberOfPages + pages) % 2^64
    let index := (s.stats type).informationIndex
    let s := setCurrentPages s type current
    if (s.info index).numberOfPages < current then
      { s with
        info := Function.update s.info index { s.info index with numberOfPages := current % 2^32 } }
    else s
  else s

def putBack (pre : List MapNode) (n : MapNode) (post : List MapNode) (s : PageState) : PageState :=
  if n.entry.start = (n.entry.end_ + 1) % 2^64 then
    { s with
      gMemoryMap := pre ++ post
      freeEntries := s.freeEntries + if n.place = .heap then 1 else 0 }
  else { s with gMemoryMap := pre ++ n :: post }

def pullRange (pre : List MapNode) (n : MapNode) (post : List MapNode) (start rangeEnd : Nat) : PageProg Unit :=
  if n.entry.start = start then
    modify (putBack pre { n with entry := { n.entry with start := (rangeEnd + 1) % 2^64 } } post)
  else if n.entry.end_ = rangeEnd then
    modify (putBack pre { n with entry := { n.entry with end_ := start - 1 } } post)
  else do
    modify fun s =>
      { s with gMemoryMap := pre ++ { n with entry := { n.entry with end_ := start - 1 } } :: post }
    pushEntry ⟨n.entry.type, (rangeEnd + 1) % 2^64, n.entry.end_, 0, n.entry.attr⟩

/-- the conversion is refused for this descriptor -/
def Change.Refused (change : Change) (n : MapNode) (end_ : Nat) : Prop :=
  match change with
  | .type t =>
    (t ≠ efiConventionalMemory ∧ n.entry.end_ < end_) ∨
      (t = efiConventionalMemory ↔ n.entry.type = efiConventionalMemory)
  | .attributes _ => False

instance (change : Change) (n : MapNode) (end_ : Nat) : Decidable (change.Refused n end_) :=
  match change with
  | .type _ => inferInstanceAs (Decidable (_ ∨ _))
  | .attributes _ => inferInstanceAs (Decidable False)

def Change.newType : Change → MapNode → Nat
  | .type t, _ => t
  | .attributes _, n => n.entry.type

def Change.newAttr : Change → MapNode → Nat
  | .type _, n => n.entry.attr
  | .attributes a, _ => a

/-- the counters of the types; `pages` is the size of the whole request -/
def Change.count (change : Change) (n : MapNode) (start pages : Nat) (s : PageState) : PageState :=
  match change with
  | .type t => countPages t start pages (uncountPages n.entry.type start pages s)
  | .attributes _ => s

/-- one turn of the loop of `CoreConvertPagesEx`: the address of the next range, or a failure -/
def convertTurn (freeStack : PageProg Unit) (pages : Nat) (change : Change) (end_ start : Nat) :
    PageProg (Except Status Nat) := do
  let map ← gets (·.gMemoryMap)
  match findEntry start map with
  | none => pure (.error .notFound)
  | some (pre, n, post) =>
    if change.Refused n end_ then pure (.error .notFound)
    else do
      let rangeEnd := if n.entry.end_ < end_ then n.entry.end_ else end_
      modify (change.count n start pages)
      pullRange pre n post start rangeEnd
      coreAddRange (change.newType n) start rangeEnd (change.newAttr n)
      freeStack
      pure (.ok ((rangeEnd + 1) % 2^64))

/-- the loop, for at most `fuel` turns; the result is the status, `none` for success -/
def convertFrom (freeStack : PageProg Unit) (pages : Nat) (change : Change) (end_ : Nat) :
    Nat → Nat → PageProg (Option Status)
  | 0, start => if start < end_ then fail .stuck else pure none
  | fuel+1, start =>
    if start < end_ then do
      match ← convertTurn freeStack pages change end_ start with
      | .error status => pure (some status)
      | .ok next => convertFrom freeStack pages change end_ fuel next
    else pure none

def coreConvertPagesEx (freeStack : PageProg Unit) (start pages : Nat) (change : Change) : PageProg (Option Status) :=
  let end_ := sub64 ((start + efiPagesToSize pages) % 2^64) 1
  if pages = 0 ∨ start % efiPageSize ≠ 0 ∨ end_ ≤ start then pure (some .invalidParameter)
  else convertFrom freeStack pages change end_ (pages + 1) start

def coreConvertPages (freeStack : PageProg Unit) (start pages newType : Nat) : PageProg (Option Status) :=
  coreConvertPagesEx freeStack start pages (.type newType)

/-! ## free pages are found -/

/-- the last address below the next aligned one -/
def alignedEnd (align a : Nat) : Nat := sub64 ((a + 1) % 2^64 / align * align) 1

def betterTarget (max min bytes align : Nat) (target : Nat) (n : MapNode) : Nat :=
  if n.entry.type ≠ efiConventionalMemory then target
  else if max ≤ n.entry.start ∨ n.entry.end_ < min then target
  else
    let descEnd := alignedEnd align (if max ≤ n.entry.end_ then max else n.entry.end_)
    if descEnd < n.entry.start then target
    else if (descEnd - n.entry.start + 1) % 2^64 < bytes then target
    else if (sub64 descEnd bytes + 1) % 2^64 < min then target
    else if target < descEnd then descEnd
    else target

/-- `MaxAddress` is moved to the end of a page -/
def pageEnd (max : Nat) : Nat :=
  if max % efiPageSize ≠ efiPageSize - 1 then
    (max - efiPageSize) / efiPageSize * efiPageSize + (efiPageSize - 1)
  else max

def coreFindFreePagesI (map : List MapNode) (max min pages align : Nat) : Nat :=
  if max < efiPageSize - 1 ∨ pages = 0 then 0
  else
    let bytes := efiPagesToSize pages
    let target := sub64 (map.foldl (betterTarget (pageEnd max) min bytes align) 0) (sub64 bytes 1)
    if target % efiPageSize ≠ 0 then 0 else target

def GcdMapEntry.IsPromotable (arch : Arch) (g : GcdMapEntry) : Prop :=
  g.gcdMemoryType = .reserved ∧ g.endAddress < arch.maxAllocAddress ∧
    g.capabilities &&& (efiMemoryPresent ||| efiMemoryInitialized ||| efiMemoryTested) =
      efiMemoryPresent ||| efiMemoryInitialized

instance (arch : Arch) (g : GcdMapEntry) : Decidable (g.IsPromotable arch) := inferInstanceAs (Decidable (_ ∧ _ ∧ _))

def GcdMapEntry.promoted (g : GcdMapEntry) : GcdMapEntry :=
  { g with
    gcdMemoryType :=
      if g.capabilities &&& efiMemoryMoreReliable = efiMemoryMoreReliable then .moreReliable
      else .systemMemory
    capabilities := g.capabilities ||| efiMemoryTested }

def GcdMapEntry.mapAttributes (g : GcdMapEntry) : Nat :=
  g.promoted.capabilities &&&
    (2^64 - 1 - (efiMemoryPresent ||| efiMemoryInitialized ||| efiMemoryTested ||| efiMemoryRuntime))

def promoteTurn (arch : Arch) (freeStack : PageProg Unit) (i : Nat) (promoted : Bool) : PageProg Bool := do
  let gcd ← gets (·.mGcdMemorySpaceMap)
  match gcd[i]? with
  | none => pure promoted
  | some g =>
    if g.IsPromotable arch then do
      modify fun s => { s with mGcdMemorySpaceMap := s.mGcdMemorySpaceMap.set i g.promoted }
      coreAddRange efiConventionalMemory g.baseAddress g.endAddress g.mapAttributes
      freeStack
      pure true
    else pure promoted

def promoteMemoryResource (arch : Arch) (freeStack : PageProg Unit) : PageProg Bool := do
  let gcd ← gets (·.mGcdMemorySpaceMap)
  loop (promoteTurn arch freeStack) 0 gcd.length false

def searchBin (s : PageState) (max pages type align : Nat) : Nat :=
  if type < efiMaxMemoryType ∧ (s.stats type).maximumAddress ≤ max then
    coreFindFreePagesI s.gMemoryMap (s.stats type).maximumAddress (s.stats type).baseAddress pages align
  else 0

def searchDefault (s : PageState) (max pages align : Nat) : Nat :=
  if s.mDefaultMaximumAddress ≤ max then
    coreFindFreePagesI s.gMemoryMap s.mDefaultMaximumAddress 0 pages align
  else 0

def searchBins (max pages type align : Nat) : PageProg Nat := do
  let s ← gets id
  let bin := searchBin s max pages type align
  let default_ := searchDefault s max pages align
  if bin ≠ 0 then pure bin
  else if default_ ≠ 0 then do
    modify fun s =>
      { s with
        mDefaultBaseAddress := if default_ < s.mDefaultBaseAddress then default_ else s.mDefaultBaseAddress }
    pure default_
  else pure (coreFindFreePagesI s.gMemoryMap max 0 pages align)

/-- `FindFreePages`; it calls itself at most once -/
def findFreePages (arch : Arch) (freeStack : PageProg Unit) (max pages type align : Nat) : Nat → PageProg Nat
  | 0 => fail .stuck
  | fuel+1 => do
    let start ← searchBins max pages type align
    if start ≠ 0 then pure start
    else do
      let promoted ← promoteMemoryResource arch freeStack
      if promoted then findFreePages arch freeStack max pages type align fuel else pure 0

/-! ## pool pages and descriptors -/

/-- `CoreAllocatePoolPages`; `0` is `NULL`, and the status of the conversion is ignored -/
def coreAllocatePoolPages (arch : Arch) (freeStack : PageProg Unit) (type pages align : Nat) : PageProg Nat := do
  let start ← findFreePages arch freeStack (arch.maxAllocAddress) pages type align 2
  if start = 0 then pure 0
  else do
    let _ ← coreConvertPages freeStack start pages type
    pure start

def coreFreePoolPages (freeStack : PageProg Unit) (memory pages : Nat) : PageProg Unit := do
  let _ ← coreConvertPages freeStack memory pages efiConventionalMemory
  pure ()

def refillFreeEntries (arch : Arch) : PageProg Bool := do
  let page ← coreAllocatePoolPages arch (pure ()) efiBootServicesData
    (efiSizeToPages arch.defaultPageAllocationGranularity) arch.defaultPageAllocationGranularity
  if page = 0 then pure false
  else do
    modify fun s =>
      { s with
        freeEntries := s.freeEntries + arch.defaultPageAllocationGranularity / arch.sizeofMemoryMap }
    pure true

/-- `AllocateMemoryMapEntry`: a descriptor is taken from the free list, which is filled if it is empty -/
def allocateMemoryMapEntry (arch : Arch) : PageProg Bool := do
  let free ← gets (·.freeEntries)
  let found ← (if free = 0 then refillFreeEntries arch else pure true)
  modify fun s => if found then { s with freeEntries := s.freeEntries - 1 } else s
  pure found

/-- the first stack descriptor `i` of the list, and the list without it -/
def takeStack (i : Nat) : List MapNode → Option (MapNode × List MapNode)
  | [] => none
  | n :: ns =>
    if n.place = .stack i then some (n, ns)
    else (takeStack i ns).map fun r => (r.1, n :: r.2)

/-- before the first heap descriptor with a larger start, or at the end of the list -/
def insertHeap (e : MemoryMapEntry) : List MapNode → List MapNode
  | [] => [⟨e, .heap⟩]
  | n :: ns =>
    if n.place = .heap ∧ e.start < n.entry.start then ⟨e, .heap⟩ :: n :: ns
    else n :: insertHeap e ns

/-- the last descriptor of the stack is moved to the heap, if it is in the map -/
def popEntry (s : PageState) : PageState :=
  match takeStack (s.mMapDepth - 1) s.gMemoryMap with
  | some (n, rest) =>
    { s with gMemoryMap := insertHeap n.entry rest, mMapDepth := s.mMapDepth - 1 }
  | none => { s with mMapDepth := s.mMapDepth - 1, freeEntries := s.freeEntries + 1 }

def freeStackLoop (arch : Arch) : Nat → PageProg Unit
  | 0 => do
    let depth ← gets (·.mMapDepth)
    stopIf (depth ≠ 0) .stuck
  | fuel+1 => do
    let depth ← gets (·.mMapDepth)
    if depth = 0 then pure ()
    else do
      let found ← allocateMemoryMapEntry arch
      stopIf (found = false) .assertion
      modify popEntry
      freeStackLoop arch fuel

/-- `CoreFreeMemoryMapStack`; a full stack needs at most one more page of descriptors -/
def coreFreeMemoryMapStack (arch : Arch) : PageProg Unit := freeStackLoop arch (2 * maxMapDepth)

/-! ## the operations -/

inductive AllocateType where
  | anyPages | maxAddress | address
deriving DecidableEq

def pageAlignment (arch : Arch) (type : Nat) : Nat :=
  if type = efiReservedMemoryType ∨ type = efiACPIMemoryNVS ∨ type = efiRuntimeServicesCode ∨
      type = efiRuntimeServicesData then
    arch.runtimePageAllocationGranularity
  else arch.defaultPageAllocationGranularity

def roundPages (pages align : Nat) : Nat :=
  (pages + efiSizeToPages align - 1) % 2^64 / efiSizeToPages align * efiSizeToPages align

def InvalidType (type : Nat) : Prop :=
  (efiMaxMemoryType ≤ type ∧ type < memoryTypeOemReservedMin) ∨ type = efiConventionalMemory ∨
    type = efiPersistentMemory ∨ type = efiUnacceptedMemoryType

instance (type : Nat) : Decidable (InvalidType type) := inferInstanceAs (Decidable (_ ∨ _))

/-- the range overlaps the special bin of another type -/
def InSpecialBin (s : PageState) (type start end_ : Nat) : Prop :=
  ∃ t ∈ List.range efiMaxMemoryType, type ≠ t ∧ (s.stats t).special = true ∧ 0 < (s.stats t).numberOfPages ∧
    ((((s.stats t).baseAddress ≤ start ∧ start ≤ (s.stats t).maximumAddress) ∨
      ((s.stats t).baseAddress ≤ end_ ∧ end_ ≤ (s.stats t).maximumAddress)) ∨
      (start < (s.stats t).baseAddress ∧ (s.stats t).maximumAddress < end_))

instance (s : PageState) (type start end_ : Nat) : Decidable (InSpecialBin s type start end_) :=
  inferInstanceAs (Decidable (∃ t ∈ List.range efiMaxMemoryType, _))

def addressRefused (arch : Arch) (s : PageState) (type pages start : Nat) : Bool :=
  let end_ := sub64 ((start + efiPagesToSize pages) % 2^64) 1
  pages = 0 ∨ arch.maxAllocAddress / efiPageSize < pages ∨ end_ ≤ start ∨
    arch.maxAllocAddress < start ∨ arch.maxAllocAddress < end_ ∨ InSpecialBin s type start end_

/-- the conversion, tried again if memory could be promoted -/
def convertOrPromote (arch : Arch) (start pages type : Nat) : PageProg (Option Status) := do
  let status ← coreConvertPages (coreFreeMemoryMapStack arch) start pages type
  if status = none then pure none
  else do
    let promoted ← promoteMemoryResource arch (coreFreeMemoryMapStack arch)
    if promoted then coreConvertPages (coreFreeMemoryMapStack arch) start pages type else pure status

/-- `CoreInternalAllocatePages`; `memory` is `*Memory` -/
def coreInternalAllocatePages (arch : Arch) (allocate : AllocateType) (type numberOfPages memory : Nat) :
    PageProg (Except Status Nat) := do
  if InvalidType type then pure (.error .invalidParameter)
  else do
    let align := pageAlignment arch type
    let pages := roundPages numberOfPages align
    let s ← gets id
    if allocate = .address ∧ (memory % align ≠ 0 ∨ addressRefused arch s type pages memory) then
      pure (.error .notFound)
    else do
      let max := if allocate = .maxAddress then memory else arch.maxAllocAddress
      let start ← (if allocate = .address then pure memory
        else findFreePages arch (coreFreeMemoryMapStack arch) max pages type align 2)
      if allocate ≠ .address ∧ start = 0 then pure (.error .outOfResources)
      else do
        let status ← convertOrPromote arch start pages type
        match status with
        | some e => pure (.error e)
        | none => pure (.ok start)

def coreInternalFreePages (arch : Arch) (memory numberOfPages : Nat) : PageProg (Option Status) := do
  let map ← gets (·.gMemoryMap)
  match findEntry memory map with
  | none => pure (some .notFound)
  | some (_, n, _) =>
    let align := pageAlignment arch n.entry.type
    if memory % align ≠ 0 then pure (some .invalidParameter)
    else
      coreConvertPages (coreFreeMemoryMapStack arch) memory (roundPages numberOfPages align) efiConventionalMemory

def coreUpdateMemoryAttributes (arch : Arch) (start pages newAttributes : Nat) : PageProg Unit := do
  let _ ← coreConvertPagesEx (coreFreeMemoryMapStack arch) start pages (.attributes newAttributes)
  pure ()

/-! ## memory is added -/

/-- the indexes of `gMemoryTypeInformation` before its terminator -/
def infoIndexes (s : PageState) : List Nat :=
  (List.range (efiMaxMemoryType + 1)).takeWhile fun i => (s.info i).type ≠ efiMaxMemoryType

def HasBin (s : PageState) (i : Nat) : Prop := (s.info i).type ≤ efiMaxMemoryType ∧ (s.info i).numberOfPages ≠ 0

instance (s : PageState) (i : Nat) : Decidable (HasBin s i) := inferInstanceAs (Decidable (_ ∧ _))

def setStats (type : Nat) (f : MemoryTypeStatistics → MemoryTypeStatistics) (s : PageState) : PageState :=
  { s with stats := Function.update s.stats type (f (s.stats type)) }

def placeBin (i base : Nat) (s : PageState) : PageState :=
  let s' := setStats (s.info i).type
    (fun st =>
      { st with
        baseAddress := base
        maximumAddress := sub64 ((base + efiPagesToSize (s.info i).numberOfPages) % 2^64) 1 }) s
  { s' with
    mDefaultMaximumAddress :=
      if base < s.mDefaultMaximumAddress then sub64 base 1 else s.mDefaultMaximumAddress }

def freeBin (arch : Arch) (i : Nat) : PageProg Unit := do
  let s ← gets id
  let _ ← coreInternalFreePages arch (s.stats (s.info i).type).baseAddress (s.info i).numberOfPages
  pure ()

/-- a bin could not be allocated: those before it are freed -/
def releaseBins (arch : Arch) : List Nat → Unit → PageProg Unit :=
  forEach fun i _ => do
    let s ← gets id
    if HasBin s i then do
      freeBin arch i
      modify (setStats (s.info i).type fun st =>
        { st with baseAddress := 0, maximumAddress := arch.maxAllocAddress })
    else pure ()

def reserveBins (arch : Arch) : List Nat → List Nat → PageProg Bool
  | _, [] => pure true
  | done, i :: is => do
    let s ← gets id
    if HasBin s i then do
      let r ← coreInternalAllocatePages arch .anyPages (s.info i).type (s.info i).numberOfPages
        (s.stats (s.info i).type).baseAddress
      match r with
      | .error _ => do
        releaseBins arch done ()
        pure false
      | .ok base => do
        modify (placeBin i base)
        reserveBins arch (done ++ [i]) is
    else reserveBins arch (done ++ [i]) is

def clearBin (i : Nat) (s : PageState) : PageState :=
  { s with info := Function.update s.info i ⟨(s.info i).type, 0⟩ }

/-- there was memory for all bins: they are freed for later allocations -/
def finishBins (arch : Arch) : List Nat → Unit → PageProg Unit :=
  forEach fun i _ => do
    let s ← gets id
    if HasBin s i then do
      freeBin arch i
      modify (setStats (s.info i).type fun st => { st with numberOfPages := (s.info i).numberOfPages })
      modify (clearBin i)
    else pure ()

def settleStats (arch : Arch) (s : PageState) : PageState :=
  { s with
    stats := fun t =>
      if t < efiMaxMemoryType then
        { s.stats t with
          informationIndex := (infoIndexes s).foldl
            (fun acc i => if (s.info i).type = t then i else acc) (s.stats t).informationIndex
          currentNumberOfPages := 0
          maximumAddress :=
            if (s.stats t).maximumAddress = arch.maxAllocAddress then s.mDefaultMaximumAddress
            else (s.stats t).maximumAddress }
      else s.stats t
    mMemoryTypeInformationInitialized := true }

/-- `CoreAddMemoryDescriptor`; modules are not loaded at fixed addresses -/
def coreAddMemoryDescriptor (arch : Arch) (type start pages attr : Nat) : PageProg Unit :=
  if start % efiPageSize ≠ 0 ∨ (efiMaxMemoryType ≤ type ∧ type < memoryTypeOemReservedMin) then pure ()
  else do
    coreAddRange type start (sub64 ((start + efiPagesToSize pages) % 2^64) 1) attr
    coreFreeMemoryMapStack arch
    let s ← gets id
    if s.mMemoryTypeInformationInitialized then pure ()
    else do
      let reserved ← reserveBins arch [] (infoIndexes s)
      if reserved then do
        finishBins arch (infoIndexes s) ()
        modify (settleStats arch)
      else pure ()

end Audk.Mem
