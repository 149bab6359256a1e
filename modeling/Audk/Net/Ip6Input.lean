import Audk.Net.NetBuffer

/-!
# The reassembly of IPv6 packets

`NetworkPkg/Ip6Dxe/Ip6Input.c`.  The hash table is a map from the identity of a packet to its assemble entry.
Memory is available.  The buffer of a fragment has its unfragmentable headers and its fragment header in front.

* `ip6TrimPacket`, `ip6Reassemble`: the functions of these names.
-/

namespace Audk.Net.Ip6

structure Key where
  dst : Nat
  src : Nat
  id : Nat
deriving DecidableEq

/-- a packet with its `IP6_CLIP_INFO`, in which `stop` is `End` -/
structure Packet where
  key : Key
  start : Int
  stop : Int
  length : Int
  headLen : Nat
  nextHeader : UInt8
  lastFrag : Bool
  formerNextHeader : Nat
  blocks : Blocks
deriving DecidableEq

def Packet.bytes (p : Packet) : List UInt8 := p.blocks.flatten

/-- `IP6_ASSEMBLE_ENTRY`, without its identity and its life.  `info` is the length of the headers of the first
fragment, if `Info` and `Head` are set; `packet` says whether `Packet` is set. -/
structure AssembleEntry where
  totalLen : Int
  curLen : Int
  fragments : List Packet
  info : Option Nat
  packet : Bool

def ip6CreateAssembleEntry : AssembleEntry := ⟨0, 0, [], none, false⟩

abbrev Table := Key → Option AssembleEntry

def toUInt32 (n : Int) : Int := n % 2^32

def toInt32 (n : Int) : Int := (n + 2^31) % 2^32 - 2^31

/-! ## trimming -/

def trimHead (p : Packet) (start : Int) : Packet :=
  if p.start < start then
    let len := toUInt32 (start - p.start)
    { p with
      blocks := netbufTrim p.blocks len.toNat true, start := toInt32 start, length := toInt32 (p.length - len) }
  else p

def trimTail (p : Packet) (stop : Int) : Packet :=
  if stop < p.stop then
    let len := toUInt32 (stop - p.stop)
    { p with
      blocks := netbufTrim p.blocks len.toNat false, stop := toInt32 stop, length := toInt32 (p.length - len) }
  else p

def ip6TrimPacket (p : Packet) (start stop : Int) : Packet := trimTail (trimHead p start) stop

/-! ## reassembly -/

/-- the check against the previous fragment, which is the last one of `before`: it is trimmed -/
def trimPrev (before : List Packet) (this : Packet) : Option (List Packet) :=
  match before.getLast? with
  | none => some before
  | some node =>
    if this.start < node.stop then
      if this.stop ≤ node.stop then none
      else some (before.dropLast ++ [ip6TrimPacket node node.start this.start])
    else some before

def removeCovered (this : Packet) : List Packet → Int → List Packet × Int
  | [], curLen => ([], curLen)
  | node :: rest, curLen =>
    if node.stop ≤ this.stop then removeCovered this rest (toUInt32 (curLen - node.length))
    else (node :: rest, curLen)

def trimAgainstNext (this : Packet) (rest : List Packet) : Option Packet :=
  match rest with
  | [] => some this
  | node :: _ =>
    if node.start < this.stop then
      if this.start = node.start then none else some (ip6TrimPacket this this.start node.start)
    else some this

def setByte (value : UInt8) : Nat → Blocks → Option Blocks
  | _, [] => none
  | offset, block :: blocks =>
    if offset < block.length then some (block.set offset value :: blocks)
    else (setByte value (offset - block.length) blocks).map (block :: ·)

/-- the next header behind the unfragmentable part of the first fragment is set -/
def setNextHeader (this : Packet) : Option Packet :=
  let unFragmentLen := (this.headLen - 40) % 2^16
  let offset := if unFragmentLen = 0 then 6 else this.formerNextHeader + 40
  (setByte this.nextHeader offset this.blocks).map fun blocks => { this with blocks := blocks }

/-- the first fragment is recorded; without a result, the fragment is freed but stays in the queue.  A fragment whose
buffer is empty has no header to record. -/
def recordFirst (this : Packet) (assemble : AssembleEntry) : Option Packet × AssembleEntry :=
  if this.start = 0 then
    if assemble.info.isSome ∨ assemble.packet then (none, assemble)
    else
      match setNextHeader this with
      | none => (none, { assemble with packet := true })
      | some this => (some this, { assemble with packet := true, info := some this.headLen })
  else (some this, assemble)

def enqueue (assemble : AssembleEntry) (packet : Packet) : Option Packet × AssembleEntry :=
  let before := assemble.fragments.takeWhile fun f => !decide (packet.start < f.start)
  let after := assemble.fragments.dropWhile fun f => !decide (packet.start < f.start)
  match trimPrev before packet with
  | none => (none, assemble)
  | some before =>
    let (rest, curLen) := removeCovered packet after assemble.curLen
    match trimAgainstNext packet rest with
    | none => (none, { assemble with fragments := before ++ rest, curLen := curLen })
    | some this =>
      let curLen := toUInt32 (curLen + this.length)
      match recordFirst this assemble with
      | (none, assemble) => (none, { assemble with fragments := before ++ this :: rest, curLen := curLen })
      | (some this, assemble) => (some this, { assemble with fragments := before ++ this :: rest, curLen := curLen })

def account (this : Packet) (assemble : AssembleEntry) : AssembleEntry :=
  { assemble with
    totalLen := if this.lastFrag ∧ assemble.totalLen = 0 then toUInt32 this.stop else assemble.totalLen }

/-- a packet that is delivered, with the length of the headers in front -/
structure Assembled where
  headLen : Nat
  blocks : Blocks

def Assembled.fragmentable (p : Assembled) : List UInt8 := p.blocks.flatten.drop p.headLen

/-- the headers of the first fragment, and the fragments without their headers; the first fragment must be known
and must have the headers -/
def wrap (assemble : AssembleEntry) : Option Assembled :=
  match assemble.info, assemble.fragments with
  | some headLen, fragment :: _ =>
    if headLen = 0 ∨ fragment.bytes.length < headLen then none
    else
      let fragments := assemble.fragments.flatMap fun f => netbufTrim f.blocks (headLen + 8) true
      some ⟨headLen, (fragment.bytes.take headLen :: fragments).filter fun b => !b.isEmpty⟩
  | _, _ => none

def deliver (assemble : AssembleEntry) : Option Assembled × Option AssembleEntry :=
  if assemble.totalLen ≠ 0 ∧ assemble.totalLen ≤ assemble.curLen then
    match assemble.fragments.getLast? with
    | none => (none, none)
    | some fragment => if fragment.stop ≠ assemble.totalLen then (none, none) else (wrap assemble, none)
  else (none, some assemble)

def entryOf (table : Table) (packet : Packet) : AssembleEntry := (table packet.key).getD ip6CreateAssembleEntry

def ip6Reassemble (table : Table) (packet : Packet) : Option Assembled × Table :=
  match enqueue (entryOf table packet) packet with
  | (none, assemble) => (none, Function.update table packet.key (some assemble))
  | (some this, assemble) =>
    let (result, entry) := deliver (account this assemble)
    (result, Function.update table packet.key entry)

end Audk.Net.Ip6
