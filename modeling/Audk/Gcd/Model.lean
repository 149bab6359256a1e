import Audk.Mem.Types

/-!
# The GCD maps

`CoreConvertSpace`, `CoreAllocateSpace` and `CoreAddMemorySpace` of `Gcd.c`, with the search for a range,
the split of its entries with the two spare entries, and the merge of its neighbours.

A link of the list is the index of its entry.  What the DXE core does outside of the maps is an argument
(`Env`): whether there was pool for the spare entries, what the CPU architectural protocol says, and how
`CoreAddMemoryDescriptor` promotes memory.  Handles are numbers, `0` is `NULL`.
-/

namespace Audk.Gcd

open Prog Mem

inductive Space where
  | memory | io
deriving DecidableEq

/-- `EFI_GCD_MAP_ENTRY` -/
structure MapEntry extends GcdMapEntry where
  imageHandle : Nat
  deviceHandle : Nat

/-- the operations `GCD_*_OPERATION` -/
inductive Operation where
  | addMemory | allocateMemory | freeMemory | removeMemory | setAttributesMemory | setCapabilitiesMemory
  | addIo | allocateIo | freeIo | removeIo
deriving DecidableEq

def Operation.space : Operation → Space
  | .addMemory | .allocateMemory | .freeMemory | .removeMemory | .setAttributesMemory
  | .setCapabilitiesMemory => .memory
  | .addIo | .allocateIo | .freeIo | .removeIo => .io

structure Env where
  /-- the outcome of each call of `CoreAllocateGcdMapEntry` -/
  spare : Nat → Bool
  /-- `gCpu->SetMemoryAttributes`, if there is a CPU architectural protocol -/
  gCpu : Option (Nat → Nat → Nat → Option Status)
  gImageHandle : Nat
  /-- what is left of the memory map when pages are added to `gMemoryMap` -/
  coreAddMemoryDescriptor : Nat → Nat → Nat → List MapEntry → List MapEntry

structure GcdState where
  maps : Space → List MapEntry
  /-- the number of calls of `CoreAllocateGcdMapEntry` -/
  attempts : Nat

inductive GcdFault where
  | assertion | stuck
deriving DecidableEq

abbrev GcdProg (α : Type) := Prog GcdState GcdFault α

def GcdState.setMap (space : Space) (map : List MapEntry) (s : GcdState) : GcdState :=
  { s with maps := Function.update s.maps space map }

def lift {α : Type} : Except GcdFault α → GcdProg α
  | .ok a => pure a
  | .error e => fail e

/-! ## the search -/

def lastAddress (base length : Nat) : Nat := sub64 ((base + length) % 2^64) 1

/-- the loop of `CoreSearchGcdMapEntry`, from the link `i` on -/
def searchFrom (base last : Nat) : List MapEntry → Nat → Option Nat → Option (Nat × Nat)
  | [], _, _ => none
  | e :: es, i, start =>
    let start' := if e.Covers base then some i else start
    match start' with
    | some j => if e.Covers last then some (j, i) else searchFrom base last es (i + 1) (some j)
    | none => searchFrom base last es (i + 1) none

/-- `CoreSearchGcdMapEntry`: the links of the first and of the last entry of the range -/
def coreSearchGcdMapEntry (base length : Nat) (map : List MapEntry) : Option (Nat × Nat) :=
  searchFrom base (lastAddress base length) map 0 none

def between (map : List MapEntry) (i k : Nat) : List MapEntry := (map.drop i).take (k + 1 - i)

/-! ## split and merge -/

/-- which of the spare entries are in the list -/
structure Spares where
  top : Bool
  bottom : Bool

/-- the part below the range; the entry is left with the rest -/
def splitBottom (base : Nat) (e : MapEntry) : List MapEntry × MapEntry :=
  if e.baseAddress < base then
    ([{ e with endAddress := sub64 base 1 }], { e with baseAddress := base })
  else ([], e)

def splitTop (base length : Nat) (e : MapEntry) : List MapEntry × MapEntry :=
  if lastAddress base length < e.endAddress then
    ([{ e with baseAddress := (base + length) % 2^64 }],
      { e with endAddress := lastAddress base length })
  else ([], e)

/-- the entry after the split, and what is put before and behind it -/
structure Inserted where
  bottom : List MapEntry
  entry : MapEntry
  top : List MapEntry
  spares : Spares

def coreInsertGcdMapEntry (base length : Nat) (spares : Spares) (e : MapEntry) : Except GcdFault Inserted :=
  let b := splitBottom base e
  let t := splitTop base length b.2
  if b.1 ≠ [] ∧ spares.bottom = true then .error .assertion
  else if t.1 ≠ [] ∧ spares.top = true then .error .assertion
  else .ok ⟨b.1, t.2, t.1, ⟨spares.top || !t.1.isEmpty, spares.bottom || !b.1.isEmpty⟩⟩

/-- a walk over the entries of the range: what stands before the first and behind the last of them, and
the value that the loop carries -/
structure Walk where
  before : List MapEntry
  range : List MapEntry
  after : List MapEntry
  spares : Spares
  carried : Nat

def Walk.push (w : Walk) (bottom : List MapEntry) (e : MapEntry × Nat) (spares : Spares) : Walk :=
  if w.range = [] then ⟨bottom, [e.1], [], spares, e.2⟩
  else ⟨w.before, w.range ++ bottom ++ [e.1], [], spares, e.2⟩

/-- the loop that inserts and converts; a part that is split off in the middle is the next link -/
def convertFrom (base length : Nat) (convert : Nat → MapEntry → MapEntry × Nat) :
    Nat → List MapEntry → Walk → Except GcdFault Walk
  | _, [], w => .ok w
  | 0, _ :: _, _ => .error .stuck
  | fuel + 1, e :: es, w =>
    match coreInsertGcdMapEntry base length w.spares e with
    | .error f => .error f
    | .ok i =>
      match es with
      | [] => .ok { w.push i.bottom (convert w.carried i.entry) i.spares with after := i.top }
      | e₁ :: es' =>
        convertFrom base length convert fuel (i.top ++ e₁ :: es')
          (w.push i.bottom (convert w.carried i.entry) i.spares)

/-- what two entries need to have in common to be merged -/
def MapEntry.SameKind (e f : MapEntry) : Prop :=
  e.capabilities = f.capabilities ∧ e.attributes = f.attributes ∧ e.gcdMemoryType = f.gcdMemoryType ∧
    e.gcdIoType = f.gcdIoType ∧ e.imageHandle = f.imageHandle ∧ e.deviceHandle = f.deviceHandle

instance (e f : MapEntry) : Decidable (e.SameKind f) := inferInstanceAs (Decidable (_ ∧ _))

/-- `CoreMergeGcdMapEntry` with the entry before; the list before the entry is in reverse order -/
def mergeBackward : List MapEntry → MapEntry → List MapEntry
  | [], e => [e]
  | p :: ps, e => if e.SameKind p then { e with baseAddress := p.baseAddress } :: ps else e :: p :: ps

/-- `CoreMergeGcdMapEntry` with the entry behind -/
def mergeForward (e : MapEntry) : List MapEntry → List MapEntry
  | [] => [e]
  | a :: as => if e.SameKind a then { e with endAddress := a.endAddress } :: as else e :: a :: as

def coreCleanupGcdMapEntry (before range after : List MapEntry) : List MapEntry :=
  match range.foldl mergeBackward before.reverse with
  | e :: rev => rev.reverse ++ mergeForward e after
  | [] => after

def convertRange (base length : Nat) (convert : Nat → MapEntry → MapEntry × Nat) (carried : Nat)
    (map : List MapEntry) (i k : Nat) : Except GcdFault (List MapEntry) :=
  (convertFrom base length convert ((between map i k).length + 1) (between map i k)
    ⟨[], [], [], ⟨false, false⟩, carried⟩).map fun w =>
      coreCleanupGcdMapEntry (map.take i ++ w.before) w.range (w.after ++ map.drop (k + 1))

def coreAllocateGcdMapEntry (env : Env) : GcdProg Bool := do
  let n ← gets (·.attempts)
  modify fun s => { s with attempts := n + 1 }
  pure (env.spare n)

/-! ## conversion -/

structure ConvertArgs where
  operation : Operation
  gcdMemoryType : GcdMemoryType
  gcdIoType : GcdIoType
  baseAddress : Nat
  length : Nat
  capabilities : Nat
  attributes : Nat

def ConvertArgs.Unpaged (a : ConvertArgs) : Prop := a.baseAddress % efiPageSize ≠ 0 ∨ a.length % efiPageSize ≠ 0

instance (a : ConvertArgs) : Decidable a.Unpaged := inferInstanceAs (Decidable (_ ∨ _))

def ConvertArgs.check (a : ConvertArgs) (e : MapEntry) : Option Status :=
  match a.operation with
  | .addMemory =>
    if e.gcdMemoryType ≠ .nonExistent ∨ e.imageHandle ≠ 0 then some .accessDenied else none
  | .addIo => if e.gcdIoType ≠ .nonExistent ∨ e.imageHandle ≠ 0 then some .accessDenied else none
  | .freeMemory | .freeIo => if e.imageHandle = 0 then some .notFound else none
  | .removeMemory =>
    if e.gcdMemoryType = .nonExistent then some .notFound
    else if e.imageHandle ≠ 0 then some .accessDenied
    else none
  | .removeIo =>
    if e.gcdIoType = .nonExistent then some .notFound
    else if e.imageHandle ≠ 0 then some .accessDenied
    else none
  | .setAttributesMemory =>
    if a.attributes &&& efiMemoryRuntime ≠ 0 ∧ a.Unpaged then some .invalidParameter
    else if e.capabilities &&& a.attributes ≠ a.attributes then some .unsupported
    else none
  | .setCapabilitiesMemory =>
    if a.Unpaged then some .invalidParameter
    else if a.capabilities &&& e.attributes ≠ e.attributes then some .unsupported
    else none
  | .allocateMemory | .allocateIo => none

def converToCpuArchAttributes (attributes : Nat) : Nat :=
  (attributes &&& efiMemoryAttributeMask) |||
    (if attributes &&& efiMemoryUc = efiMemoryUc then efiMemoryUc
    else if attributes &&& efiMemoryWc = efiMemoryWc then efiMemoryWc
    else if attributes &&& efiMemoryWt = efiMemoryWt then efiMemoryWt
    else if attributes &&& efiMemoryWb = efiMemoryWb then efiMemoryWb
    else if attributes &&& efiMemoryUce = efiMemoryUce then efiMemoryUce
    else if attributes &&& efiMemoryWp = efiMemoryWp then efiMemoryWp
    else 0)

def ConvertArgs.cpuArchAttributes (a : ConvertArgs) : Nat :=
  if a.operation = .setAttributesMemory then converToCpuArchAttributes a.attributes else 0

def ConvertArgs.cpuStatus (env : Env) (a : ConvertArgs) : Option Status :=
  if a.cpuArchAttributes = 0 then none
  else
    match env.gCpu with
    | none => some .notAvailableYet
    | some setMemoryAttributes => setMemoryAttributes a.baseAddress a.length a.cpuArchAttributes

/-- the new contents of an entry; `attributes` is carried from entry to entry, as `Attributes |= ..` does -/
def ConvertArgs.convert (a : ConvertArgs) (attributes : Nat) (e : MapEntry) : MapEntry × Nat :=
  match a.operation with
  | .addMemory =>
    ({ e with
      gcdMemoryType := a.gcdMemoryType
      capabilities :=
        if a.gcdMemoryType = .memoryMappedIo then a.capabilities ||| efiMemoryRuntime ||| efiMemoryPortIo
        else a.capabilities ||| efiMemoryRuntime }, attributes)
  | .addIo => ({ e with gcdIoType := a.gcdIoType }, attributes)
  | .freeMemory | .freeIo => ({ e with imageHandle := 0, deviceHandle := 0 }, attributes)
  | .removeMemory => ({ e with gcdMemoryType := .nonExistent, capabilities := 0 }, attributes)
  | .removeIo => ({ e with gcdIoType := .nonExistent }, attributes)
  | .setAttributesMemory =>
    let attributes' :=
      if a.cpuArchAttributes = 0 then
        attributes ||| (e.attributes &&& (efiCacheAttributeMask ||| efiMemoryAttributeMask))
      else attributes
    ({ e with attributes := attributes' }, attributes')
  | .setCapabilitiesMemory => ({ e with capabilities := a.capabilities }, attributes)
  | .allocateMemory | .allocateIo => (e, attributes)

def coreConvertSpace (env : Env) (a : ConvertArgs) : GcdProg (Option Status) :=
  if a.length = 0 then pure (some .invalidParameter)
  else do
    let map ← gets (·.maps a.operation.space)
    match coreSearchGcdMapEntry a.baseAddress a.length map with
    | none => pure (some .unsupported)
    | some (i, k) =>
      match (between map i k).findSome? a.check with
      | some e => pure (some e)
      | none => do
        let spare ← coreAllocateGcdMapEntry env
        if spare = false then pure (some .outOfResources)
        else
          match a.cpuStatus env with
          | some e => pure (some e)
          | none => do
            let map' ← lift (convertRange a.baseAddress a.length a.convert a.attributes map i k)
            modify (·.setMap a.operation.space map')
            pure none

/-! ## allocation -/

inductive AllocateType where
  | anySearchBottomUp | maxAddressSearchBottomUp | address | anySearchTopDown | maxAddressSearchTopDown
deriving DecidableEq

def AllocateType.TopDown (t : AllocateType) : Prop := t = .maxAddressSearchTopDown ∨ t = .anySearchTopDown

instance (t : AllocateType) : Decidable t.TopDown := inferInstanceAs (Decidable (_ ∨ _))

/-- the arguments of `CoreAllocateSpace`; `none` is a type out of range, or `BaseAddress == NULL` -/
structure AllocateArgs where
  operation : Operation
  gcdAllocateType : Option AllocateType
  gcdMemoryType : Option GcdMemoryType
  gcdIoType : Option GcdIoType
  alignment : Nat
  length : Nat
  baseAddress : Option Nat
  imageHandle : Nat
  deviceHandle : Nat

def coreAllocateSpaceCheckEntry (operation : Operation) (gcdMemoryType : GcdMemoryType)
    (gcdIoType : GcdIoType) (e : MapEntry) : Option Status :=
  if e.imageHandle ≠ 0 then some .notFound
  else
    match operation with
    | .allocateMemory => if e.gcdMemoryType ≠ gcdMemoryType then some .notFound else none
    | .allocateIo => if e.gcdIoType ≠ gcdIoType then some .notFound else none
    | _ => some .unsupported

/-- `x & ~AlignmentMask` -/
def alignDown (alignment x : Nat) : Nat := x / 2^alignment * 2^alignment

/-- what a turn of the search for space does; the last argument is `*BaseAddress` -/
inductive Turn where
  | next (link : Option Nat) (base : Nat)
  | refused (base : Nat)
  | found (i k : Nat) (base : Nat)

/-- the space at `base` is tried; if an entry cannot be used, the search goes on with it -/
def trySpace (check : MapEntry → Option Status) (length : Nat) (map : List MapEntry) (base : Nat) : Turn :=
  match coreSearchGcdMapEntry base length map with
  | none => .refused base
  | some (i, k) =>
    match (between map i k).findIdx? fun e => (check e).isSome with
    | some f => .next (some (i + f)) base
    | none => .found i k base

def nextLink (topDown : Prop) [Decidable topDown] (n i : Nat) : Option Nat :=
  if topDown then (if i = 0 then none else some (i - 1))
  else if i + 1 < n then some (i + 1)
  else none

def allocateTurn (type : AllocateType) (check : MapEntry → Option Status) (alignment length max : Nat)
    (map : List MapEntry) (i base : Nat) : Turn :=
  match map[i]? with
  | none => .next none base
  | some e =>
    if (check e).isSome then .next (nextLink type.TopDown map.length i) base
    else if type.TopDown then
      if max < (e.baseAddress + length) % 2^64 then .next (nextLink type.TopDown map.length i) base
      else if (e.endAddress + 1) % 2^64 < length then .refused base
      else
        trySpace check length map
          (alignDown alignment (sub64 (((if max < e.endAddress then max else e.endAddress) + 1) % 2^64) length))
    else
      let base' := alignDown alignment ((e.baseAddress + (2^alignment - 1)) % 2^64)
      if max < lastAddress base' length then .refused base'
      else trySpace check length map base'

/-- the loop of `CoreAllocateSpace`: the links of the space, or none, and `*BaseAddress`; without a result
if it does not end -/
def allocateFrom (type : AllocateType) (check : MapEntry → Option Status) (alignment length max : Nat)
    (map : List MapEntry) : Nat → Option Nat → Nat → Option (Option (Nat × Nat) × Nat)
  | _, none, base => some (none, base)
  | 0, some _, _ => none
  | fuel + 1, some i, base =>
    match allocateTurn type check alignment length max map i base with
    | .next link base' => allocateFrom type check alignment length max map fuel link base'
    | .refused base' => some (none, base')
    | .found j k base' => some (some (j, k), base')

/-- the requested address: the links of its entries, or the status -/
def allocateAt (check : MapEntry → Option Status) (alignment length base : Nat) (map : List MapEntry) :
    Except Status (Nat × Nat) :=
  if base % 2^alignment ≠ 0 then .error .notFound
  else
    match coreSearchGcdMapEntry base length map with
    | none => .error .notFound
    | some (i, k) =>
      match (between map i k).findSome? check with
      | some e => .error e
      | none => .ok (i, k)

/-- the space for an allocation: the links of its entries or the status, and `*BaseAddress` -/
def findSpace (type : AllocateType) (check : MapEntry → Option Status) (alignment length base : Nat)
    (map : List MapEntry) : Except GcdFault (Except Status (Nat × Nat) × Nat) :=
  if type = .address then .ok (allocateAt check alignment length base map, base)
  else
    match map.getLast? with
    | none => .error .assertion
    | some e =>
      let max :=
        if type = .maxAddressSearchBottomUp ∨ type = .maxAddressSearchTopDown then base else e.endAddress
      match allocateFrom type check alignment length max map (map.length + 1)
          (some (if type.TopDown then map.length - 1 else 0)) base with
      | none => .error .stuck
      | some (none, base') => .ok (.error .notFound, base')
      | some (some (i, k), base') => .ok (.ok (i, k), base')

def AllocateArgs.convert (a : AllocateArgs) (carried : Nat) (e : MapEntry) : MapEntry × Nat :=
  ({ e with imageHandle := a.imageHandle, deviceHandle := a.deviceHandle }, carried)

/-- the checks of the arguments and the search: the links and the address of the space, or the status, and
`*BaseAddress` -/
def AllocateArgs.space (a : AllocateArgs) (map : List MapEntry) :
    Except GcdFault (Except Status (Nat × Nat × Nat) × Option Nat) :=
  match a.gcdAllocateType, a.gcdMemoryType, a.gcdIoType, a.baseAddress with
  | some type, some gcdMemoryType, some gcdIoType, some base =>
    if a.imageHandle = 0 then .ok (.error .invalidParameter, some base)
    else if 64 ≤ a.alignment then .ok (.error .notFound, some base)
    else if a.length = 0 then .ok (.error .invalidParameter, some base)
    else
      (findSpace type (coreAllocateSpaceCheckEntry a.operation gcdMemoryType gcdIoType) a.alignment a.length
        base map).map fun r => (r.1.map fun (i, k) => (i, k, r.2), some r.2)
  | _, _, _, base => .ok (.error .invalidParameter, base)

/-- `CoreAllocateSpace`: the status, and `*BaseAddress` -/
def coreAllocateSpace (env : Env) (a : AllocateArgs) : GcdProg (Option Status × Option Nat) := do
  let map ← gets (·.maps a.operation.space)
  let (space, base) ← lift (a.space map)
  match space with
  | .error e => pure (some e, base)
  | .ok (i, k, base') => do
    let spare ← coreAllocateGcdMapEntry env
    if spare = false then pure (some .outOfResources, base)
    else do
      let map' ← lift (convertRange base' a.length a.convert 0 map i k)
      modify (·.setMap a.operation.space map')
      pure (none, base)

/-! ## memory is added -/

def pageAlignAddress (x : Nat) : Nat := alignDown 12 ((x + (efiPageSize - 1)) % 2^64)

def pageAlignLength (x : Nat) : Nat := alignDown 12 x

/-- `CoreAllocateMemorySpace` at a page, for the DXE core itself -/
def ownPages (env : Env) (type : GcdMemoryType) (base length : Nat) : AllocateArgs where
  operation := .allocateMemory
  gcdAllocateType := some .address
  gcdMemoryType := some type
  gcdIoType := some .nonExistent
  alignment := 12
  length := length
  baseAddress := some base
  imageHandle := env.gImageHandle
  deviceHandle := 0

def addPages (env : Env) (base pages capabilities : Nat) : GcdProg Unit :=
  modify fun s => s.setMap .memory (env.coreAddMemoryDescriptor base pages capabilities (s.maps .memory))

/-- the pages one by one; the status is that of the last one -/
def addEachPage (env : Env) (type : GcdMemoryType) (capabilities : Nat) :
    Nat → Nat → Option Status → GcdProg (Option Status)
  | 0, _, status => pure status
  | n + 1, base, _ => do
    let (status, _) ← coreAllocateSpace env (ownPages env type base efiPageSize)
    if status = none then do
      addPages env base 1 capabilities
      addEachPage env type capabilities n ((base + efiPageSize) % 2^64) none
    else addEachPage env type capabilities n ((base + efiPageSize) % 2^64) status

/-- `CoreInternalAddMemorySpace` -/
def addArgs (type : GcdMemoryType) (base length capabilities : Nat) : ConvertArgs where
  operation := .addMemory
  gcdMemoryType := type
  gcdIoType := .nonExistent
  baseAddress := base
  length := length
  capabilities := capabilities
  attributes := 0

/-- `CoreAddMemorySpace`; `none` is a type out of range -/
def coreAddMemorySpace (env : Env) (type : Option GcdMemoryType) (base length capabilities : Nat) :
    GcdProg (Option Status) :=
  match type with
  | none => pure (some .invalidParameter)
  | some .nonExistent => pure (some .invalidParameter)
  | some type => do
    let status ← coreConvertSpace env (addArgs type base length capabilities)
    if status = none ∧ (type = .systemMemory ∨ type = .moreReliable) then do
      let pageBase := pageAlignAddress base
      let pageLength := pageAlignLength (sub64 ((base + length) % 2^64) pageBase)
      let (status', _) ← coreAllocateSpace env (ownPages env type pageBase pageLength)
      if status' = none then do
        addPages env pageBase (pageLength / efiPageSize) capabilities
        pure none
      else addEachPage env type capabilities (pageLength / efiPageSize) pageBase status'
    else pure status

end Audk.Gcd
