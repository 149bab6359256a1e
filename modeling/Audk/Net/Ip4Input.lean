import Audk.Net.NetBuffer

/-!
# The reassembly of IPv4 packets

`NetworkPkg/Ip4Dxe/Ip4Input.c`.  The hash table is a map from the identity of a packet to its assemble entry.
Memory is available.

* `ip4TrimPacket`, `ip4Reassemble`: the functions of these names;
* `ip4PreProcessPacket`: the checks, and the fragment that is handed to `ip4Reassemble`.
-/

namespace Audk.Net.Ip4

/-- the fields of `IP4_HEAD` that identify a packet -/
structure Key where
  dst : Nat
  src : Nat
  id : Nat
  protocol : Nat
deriving DecidableEq

/-- `IP4_HEAD`, in host byte order; `checksumOk` says that the checksum is right or zero, `optionsOk` that
`Ip4OptionIsValid` accepts the options or there are none -/
structure Head where
  ver : Nat
  headLen : Nat
  totalLen : Nat
  fragment : Nat
  key : Key
  checksumOk : Bool
  optionsOk : Bool
deriving DecidableEq

/-- a packet with its header and its `IP4_CLIP_INFO`, in which `stop` is `End` -/
structure Packet where
  head : Head
  start : Int
  stop : Int
  length : Int
  blocks : Blocks
deriving DecidableEq

def Packet.isLast (p : Packet) : Bool := p.head.fragment &&& 0x2000 == 0

def Packet.bytes (p : Packet) : List UInt8 := p.blocks.flatten

/-- `IP4_ASSEMBLE_ENTRY`, without its identity and its life -/
structure AssembleEntry where
  totalLen : Int
  curLen : Int
  fragments : List Packet
  head : Option Head

def ip4CreateAssembleEntry : AssembleEntry := ⟨0, 0, [], none⟩

abbrev Table := Key → Option AssembleEntry

def toUInt32 (n : Int) : Nat := (n % 2^32).toNat

/-! ## trimming -/

def trimHead (p : Packet) (start : Int) : Packet :=
  if p.start < start then
    let len := start - p.start
    { p with blocks := netbufTrim p.blocks (toUInt32 len) true, start := start, length := p.length - len }
  else p

def trimTail (p : Packet) (stop : Int) : Packet :=
  if stop < p.stop then
    let len := stop - p.stop
    { p with blocks := netbufTrim p.blocks (toUInt32 len) false, stop := stop, length := p.length - len }
  else p

def ip4TrimPacket (p : Packet) (start stop : Int) : Packet := trimTail (trimHead p start) stop

/-! ## reassembly -/

/-- the check against the previous fragment, which is the last one of `before` -/
def trimAgainstPrev (before : List Packet) (this : Packet) : Option Packet :=
  match before.getLast? with
  | none => some this
  | some node =>
    if this.start < node.stop then
      if this.stop ≤ node.stop then none else some (ip4TrimPacket this node.stop this.stop)
    else some this

/-- the loop that removes the fragments that `this` covers, with `CurLen` -/
def removeCovered (this : Packet) : List Packet → Int → List Packet × Int
  | [], curLen => ([], curLen)
  | node :: rest, curLen =>
    if node.stop ≤ this.stop then removeCovered this rest (curLen - node.length) else (node :: rest, curLen)

/-- the check against the next fragment, which is the first one of `rest` -/
def trimAgainstNext (this : Packet) (rest : List Packet) : Option Packet :=
  match rest with
  | [] => some this
  | node :: _ =>
    if node.start < this.stop then
      if this.start = node.start then none else some (ip4TrimPacket this this.start node.start)
    else some this

def enqueue (assemble : AssembleEntry) (this : Packet) : Option Packet × AssembleEntry :=
  let before := assemble.fragments.takeWhile fun f => !decide (this.start < f.start)
  let after := assemble.fragments.dropWhile fun f => !decide (this.start < f.start)
  match trimAgainstPrev before this with
  | none => (none, assemble)
  | some this =>
    let (rest, curLen) := removeCovered this after assemble.curLen
    match trimAgainstNext this rest with
    | none => (none, { assemble with fragments := before ++ rest, curLen := curLen })
    | some this =>
      (some this, { assemble with fragments := before ++ this :: rest, curLen := curLen + this.length })

def account (this : Packet) (assemble : AssembleEntry) : AssembleEntry :=
  { assemble with
    head := if this.start = 0 then some this.head else assemble.head
    totalLen := if this.isLast ∧ assemble.totalLen = 0 then this.stop else assemble.totalLen }

structure Assembled where
  head : Option Head
  blocks : Blocks

def Assembled.bytes (p : Assembled) : List UInt8 := p.blocks.flatten

/-- the packet is delivered if all is received; then there is no assemble entry any more.  `NetbufFromBufList`
takes the blocks that are not empty. -/
def deliver (assemble : AssembleEntry) : Option Assembled × Option AssembleEntry :=
  if assemble.totalLen ≠ 0 ∧ assemble.totalLen ≤ assemble.curLen then
    match assemble.fragments.getLast? with
    | none => (none, none)
    | some fragment =>
      if fragment.stop ≠ assemble.totalLen then (none, none)
      else (some ⟨assemble.head, (assemble.fragments.flatMap (·.blocks)).filter fun b => !b.isEmpty⟩, none)
  else (none, some assemble)

def ip4Reassemble (table : Table) (packet : Packet) : Option Assembled × Table :=
  let assemble := (table packet.head.key).getD ip4CreateAssembleEntry
  match enqueue assemble packet with
  | (none, assemble) => (none, Function.update table packet.head.key (some assemble))
  | (some this, assemble) =>
    let (result, entry) := deliver (account this assemble)
    (result, Function.update table packet.head.key entry)

/-! ## the checks before -/

/-- `Ip4PreProcessPacket` up to `Ip4Reassemble`: the packet that was received, and whether it is a fragment -/
def ip4PreProcessPacket (head : Head) (castType : Int) (packet : Blocks) : Option (Packet × Bool) :=
  let headLen := head.headLen * 4
  let packet :=
    if head.totalLen < packet.totalSize then netbufTrim packet (packet.totalSize - head.totalLen) false else packet
  if head.ver ≠ 4 ∨ headLen < 20 ∨ head.totalLen < headLen ∨ head.totalLen ≠ packet.totalSize then none
  else if head.checksumOk = false then none
  else
    let start : Int := ((head.fragment &&& 0x1fff) <<< 3 : Nat)
    let length : Int := head.totalLen - headLen
    let stop := start + length
    if castType = 0 ∨ 65535 < stop then none
    else if head.optionsOk = false then none
    else
      let packet : Packet := ⟨head, start, stop, length, netbufTrim packet headLen true⟩
      if head.fragment &&& 0x2000 ≠ 0 ∨ start ≠ 0 then
        if head.fragment &&& 0x4000 ≠ 0 then none
        else if head.fragment &&& 0x2000 ≠ 0 ∧ length % 8 ≠ 0 then none
        else some (packet, true)
      else some (packet, false)

end Audk.Net.Ip4
