import Audk.Base.Firmware

/-!
# The block map of ext2 and ext3 inodes

A logical block has a path of indices: the first one into `i_data`, each further one into the block that has been
read before.  `BlockMap.c` finds the path with sums and products of 32 bits.

* `mapPath`: the paths of the block map, over exact integers;
* `ext4GetBlocks_iff`: the logical blocks that are looked up as the map says.
-/

namespace Audk.Ext4

/-- block numbers, as they are in `i_data` and in an indirect block; `0` is a hole -/
abbrev Table := Nat → BitVec 32

inductive BlockError where
  | noMapping | outOfResources
  | read (status : Status)

/-- a partition with block sizes from 1 KiB to 2 MiB, and what `Ext4ReadBlocks` and `AllocatePool` do -/
structure Partition where
  logBlockSize : Nat
  log_le : logBlockSize ≤ 11
  ext4ReadBlock : BitVec 32 → Except Status Table
  pool : Bool

/-- `BlockSize / sizeof (UINT32)` -/
def Partition.entries (p : Partition) : Nat := 1024 * 2^p.logBlockSize / 4

def ext4Dblocks : Nat := 12
def ext4IndBlock : Nat := 12
def ext4DindBlock : Nat := 13

def minDoublyBlock (entries : Nat) : Nat := (entries + ext4Dblocks) % 2^32

def minTreblyBlock (entries : Nat) : Nat := (entries * entries % 2^32 + minDoublyBlock entries) % 2^32

def minQuadBlock (entries : Nat) : Nat := (entries * entries * entries % 2^32 + minTreblyBlock entries) % 2^32

inductive LogicalBlockType where
  | direct | singly | doubly | trebly | bad

def ext4DetectBlockType (entries logicalBlock : Nat) : LogicalBlockType :=
  if logicalBlock < ext4Dblocks then .direct
  else if logicalBlock < minDoublyBlock entries then .singly
  else if logicalBlock < minTreblyBlock entries then .doubly
  else if logicalBlock < minQuadBlock entries then .trebly
  else .bad

/-- the indices of the blocks to read, and the one of the logical block in the last of them -/
def ext4GetBlockPath (entries logicalBlock : Nat) : Option (List Nat × Nat) :=
  match ext4DetectBlockType entries logicalBlock with
  | .direct => some ([], logicalBlock)
  | .singly => some ([ext4IndBlock], logicalBlock - ext4Dblocks)
  | .doubly =>
    let block := logicalBlock - minDoublyBlock entries
    some ([ext4DindBlock, block / entries], block % entries)
  | .trebly =>
    let block := logicalBlock - minTreblyBlock entries
    let entriesEntries := entries * entries % 2^32
    some ([ext4DindBlock, block / entriesEntries, block % entriesEntries / entries], block % entriesEntries % entries)
  | .bad => none

/-- `EXT4_EXTENT` without `ee_start_hi`, which is 0 -/
structure Extent where
  block : Nat
  start : BitVec 32
  len : Nat

def ext4ExtentMaxInitialized : Nat := 2^15

def Extent.uninit (x : Extent) : Bool := ext4ExtentMaxInitialized < x.len

def Extent.length (x : Extent) : Nat := if x.uninit then x.len - ext4ExtentMaxInitialized else x.len

/-- `Count`, with so many entries left from `index` on -/
def contiguous (fits : Nat → Bool) (limit : Nat) : (left index count : Nat) → Nat
  | 0, _, count => count
  | left + 1, index, count =>
    if count = limit then count
    else if fits index then contiguous fits limit left (index + 1) (count + 1)
    else count

def ext4GetExtentInBlockMap (buffer : Table) (indEntries startIndex logicalBlock : Nat) : Extent :=
  if buffer startIndex = 0#32 then
    ⟨logicalBlock, 0#32, ext4ExtentMaxInitialized + contiguous (fun i => buffer i = 0#32)
      (ext4ExtentMaxInitialized - 1) (indEntries - (startIndex + 1)) (startIndex + 1) 1⟩
  else
    ⟨logicalBlock, buffer startIndex, contiguous (fun i => buffer i = buffer (i - 1) + 1#32 ∧ buffer i ≠ 0#32)
      ext4ExtentMaxInitialized (indEntries - (startIndex + 1)) (startIndex + 1) 1⟩

/-- the table at the end of a path -/
def readTable (p : Partition) : Table → List Nat → Except BlockError Table
  | table, [] => .ok table
  | table, index :: path =>
    if table index = 0#32 then .error .noMapping
    else
      match p.ext4ReadBlock (table index) with
      | .error status => .error (.read status)
      | .ok table => readTable p table path

def ext4GetBlocks (p : Partition) (inode : Table) (logicalBlock : Nat) : Except BlockError Extent :=
  match ext4GetBlockPath p.entries logicalBlock with
  | none => .error .noMapping
  | some ([], index) => .ok (ext4GetExtentInBlockMap inode ext4Dblocks index logicalBlock)
  | some (path, index) =>
    if p.pool then
      (readTable p inode path).map fun table => ext4GetExtentInBlockMap table p.entries index logicalBlock
    else .error .outOfResources

/-! ## the block map -/

def mapPath (entries block : Nat) : Option (List Nat × Nat) :=
  if block < 12 then some ([], block)
  else if block < 12 + entries then some ([12], block - 12)
  else if block < 12 + entries + entries * entries then
    let block := block - (12 + entries)
    some ([13, block / entries], block % entries)
  else if block < 12 + entries + entries * entries + entries * entries * entries then
    let block := block - (12 + entries + entries * entries)
    some ([14, block / (entries * entries), block % (entries * entries) / entries],
      block % (entries * entries) % entries)
  else none

/-- the block at distance `i` from the first one -/
def Extent.Assigns (x : Extent) (i : Nat) (block : BitVec 32) : Prop :=
  if x.uninit then block = 0#32 else block ≠ 0#32 ∧ block.toNat = x.start.toNat + i

/-- the extent has the blocks that the map assigns, and an error means that it assigns none, or that a table was
not read -/
def LookedUp (p : Partition) (inode : Table) (block : Nat) : Except BlockError Extent → Prop
  | .ok x => x.block = block ∧ 0 < x.length ∧ ∀ i < x.length, ∃ path index table,
      mapPath p.entries (block + i) = some (path, index) ∧ readTable p inode path = .ok table ∧
        x.Assigns i (table index)
  | .error e => mapPath p.entries block = none ∧ e = .noMapping ∨ ∃ path index,
      mapPath p.entries block = some (path, index) ∧
        (readTable p inode path = .error e ∨ p.pool = false ∧ e = .outOfResources)

lemma entries_spec (p : Partition) : 256 ≤ p.entries ∧ p.entries ≤ 2^19 ∧
    (p.entries < 2^16 ∧ p.entries * p.entries ≤ 2^30 ∨
      2^16 ≤ p.entries ∧ p.entries * p.entries % 2^32 = 0 ∧ 2^32 ≤ p.entries * p.entries) := by
  obtain ⟨k, hk, read, pool⟩ := p
  unfold Partition.entries
  dsimp only
  interval_cases k <;> decide

/-- **the paths of the code** are those of the map, except where a product wraps and where the map needs the last
slot of `i_data` -/
theorem ext4GetBlockPath_iff (p : Partition) {block : Nat} (hblock : block < 2^32) :
    ext4GetBlockPath p.entries block = mapPath p.entries block ↔
      block < 12 + p.entries ∨ p.entries < 2^16 ∧ block < 12 + p.entries + p.entries * p.entries ∨
        12 + p.entries + p.entries * p.entries + p.entries * p.entries * p.entries ≤ block := by
  obtain ⟨hlow, hhigh, hee⟩ := entries_spec p
  unfold ext4GetBlockPath ext4DetectBlockType mapPath minQuadBlock minTreblyBlock minDoublyBlock ext4Dblocks
    ext4IndBlock ext4DindBlock
  generalize p.entries * p.entries = ee at *
  generalize p.entries = e at *
  have hd : (e + 12) % 2^32 = 12 + e := by omega
  rw [hd]
  rcases hee with ⟨hsmall, hee⟩ | ⟨hlarge, hzero, hee⟩
  · have ht : (ee % 2^32 + (12 + e)) % 2^32 = 12 + e + ee := by omega
    split_ifs <;> simp <;> omega
  · rw [hzero]
    split_ifs <;> simp <;> omega

lemma contiguous_spec (fits : Nat → Bool) {limit : Nat} (left start count : Nat) (h : count ≤ limit) :
    count ≤ contiguous fits limit left (start + count) count ∧
      contiguous fits limit left (start + count) count ≤ limit ∧
      contiguous fits limit left (start + count) count ≤ count + left ∧
      ∀ i, count ≤ i → i < contiguous fits limit left (start + count) count → fits (start + i) := by
  induction left generalizing count with
  | zero => exact ⟨le_rfl, h, le_rfl, fun i h1 h2 => absurd h2 (Nat.not_lt.mpr h1)⟩
  | succ left ih =>
    unfold contiguous
    split_ifs with hlimit hfits
    · exact ⟨le_rfl, h, by omega, fun i h1 h2 => absurd h2 (Nat.not_lt.mpr h1)⟩
    · obtain ⟨hge, hle, hleft, hall⟩ := ih (count + 1) (by omega)
      rw [← Nat.add_assoc] at hge hle hleft hall
      refine ⟨by omega, hle, by omega, fun i h1 h2 => ?_⟩
      rcases Nat.eq_or_lt_of_le h1 with rfl | hlt
      · exact hfits
      · exact hall i hlt h2
    · exact ⟨le_rfl, h, by omega, fun i h1 h2 => absurd h2 (Nat.not_lt.mpr h1)⟩

lemma ext4GetExtentInBlockMap_spec (buffer : Table) {n start : Nat} (block : Nat) (h : start < n) :
    (ext4GetExtentInBlockMap buffer n start block).block = block ∧
      0 < (ext4GetExtentInBlockMap buffer n start block).length ∧
      ∀ i < (ext4GetExtentInBlockMap buffer n start block).length, start + i < n ∧
        (ext4GetExtentInBlockMap buffer n start block).Assigns i (buffer (start + i)) := by
  unfold ext4GetExtentInBlockMap Extent.Assigns Extent.length
  by_cases hhole : buffer start = 0#32
  · obtain ⟨hge, hle, hleft, hall⟩ := contiguous_spec (fun i => buffer i = 0#32) (n - (start + 1)) start 1
      (show 1 ≤ ext4ExtentMaxInitialized - 1 by decide)
    rw [if_pos hhole]
    generalize contiguous _ _ _ _ _ = count at *
    have huninit : Extent.uninit ⟨block, 0#32, ext4ExtentMaxInitialized + count⟩ = true :=
      decide_eq_true (show ext4ExtentMaxInitialized < ext4ExtentMaxInitialized + count by omega)
    simp only [huninit, if_true, Nat.add_sub_cancel_left]
    refine ⟨trivial, hge, fun i hi => ⟨by omega, ?_⟩⟩
    rcases Nat.eq_zero_or_pos i with rfl | hpos
    · exact hhole
    · simpa using hall i hpos hi
  · obtain ⟨hge, hle, hleft, hall⟩ := contiguous_spec (fun i => buffer i = buffer (i - 1) + 1#32 ∧ buffer i ≠ 0#32)
      (n - (start + 1)) start 1 (show 1 ≤ ext4ExtentMaxInitialized by decide)
    rw [if_neg hhole]
    generalize contiguous _ _ _ _ _ = count at *
    have huninit : Extent.uninit ⟨block, buffer start, count⟩ = false := decide_eq_false (Nat.not_lt.mpr hle)
    simp only [huninit, Bool.false_eq_true, if_false]
    refine ⟨trivial, hge, fun i hi => ⟨by omega, ?_⟩⟩
    induction i with
    | zero => exact ⟨hhole, rfl⟩
    | succ i ih =>
      have hnext := hall (i + 1) (by omega) hi
      simp only [decide_eq_true_eq] at hnext
      refine ⟨hnext.2, ?_⟩
      have hne : (buffer (start + (i + 1))).toNat ≠ 0 := fun h0 => hnext.2 (BitVec.eq_of_toNat_eq h0)
      have heq := congrArg BitVec.toNat hnext.1
      simp at heq
      omega

/-- the paths of the blocks that follow in the same table -/
lemma mapPath_add {e block : Nat} (he : 0 < e) (h : block < 12 + e + e * e) : ∃ path index,
    mapPath e block = some (path, index) ∧ index < (if path = [] then 12 else e) ∧
      ∀ i, index + i < (if path = [] then 12 else e) → mapPath e (block + i) = some (path, index + i) := by
  unfold mapPath
  split_ifs with h1 h2
  · refine ⟨[], block, rfl, h1, fun i hi => ?_⟩
    rw [if_pos (by simpa using hi)]
  · refine ⟨[12], block - 12, rfl, by simp; omega, fun i hi => ?_⟩
    simp only [if_false, List.cons_ne_nil] at hi
    rw [if_neg (by omega), if_pos (by omega), show block + i - 12 = block - 12 + i by omega]
  · refine ⟨_, _, rfl, by simpa using Nat.mod_lt _ he, fun i hi => ?_⟩
    simp only [if_false, List.cons_ne_nil] at hi
    obtain ⟨q, rfl⟩ := Nat.exists_eq_add_of_le (Nat.not_lt.mp h2)
    rw [Nat.add_sub_cancel_left] at *
    have hnext : q + i = e * (q / e) + (q % e + i) := by rw [← Nat.add_assoc, Nat.div_add_mod]
    have hq : q / e < e := Nat.div_lt_of_lt_mul (by omega)
    have hlast : e * (q / e) + e ≤ e * e := by
      exact Nat.mul_le_mul_left e hq
    rw [if_neg (by omega), if_neg (by omega), if_pos (by omega), Nat.add_assoc, Nat.add_sub_cancel_left, hnext]
    simp only [Nat.mul_add_div he, Nat.div_eq_of_lt hi, Nat.mul_add_mod, Nat.mod_eq_of_lt hi, Nat.add_zero]

variable {p : Partition} {inode : Table} {block : Nat}

lemma ext4GetBlocks_of_path {path : List Nat} {index : Nat}
    (h : ext4GetBlockPath p.entries block = some (path, index)) : ext4GetBlocks p inode block =
      if path = [] ∨ p.pool then (readTable p inode path).map fun table =>
        ext4GetExtentInBlockMap table (if path = [] then 12 else p.entries) index block
      else .error .outOfResources := by
  unfold ext4GetBlocks
  rw [h]
  cases path with
  | nil => simp [readTable, Except.map, ext4Dblocks]
  | cons first path => simp

lemma lookedUp_of_path (hpath : ext4GetBlockPath p.entries block = mapPath p.entries block)
    (h : block < 12 + p.entries + p.entries * p.entries) : LookedUp p inode block (ext4GetBlocks p inode block) := by
  have hpos : 0 < p.entries := by
    have := (entries_spec p).1
    omega
  obtain ⟨path, index, hmap, hindex, hnext⟩ := mapPath_add hpos h
  rw [ext4GetBlocks_of_path (hpath.trans hmap)]
  generalize (if path = [] then 12 else p.entries) = n at *
  split_ifs with hpool
  · cases hread : readTable p inode path with
    | error e => exact .inr ⟨path, index, hmap, .inl hread⟩
    | ok table =>
      obtain ⟨hblock, hlen, hall⟩ := ext4GetExtentInBlockMap_spec table block hindex
      exact ⟨hblock, hlen, fun i hi => ⟨path, index + i, table, hnext i (hall i hi).1, hread, (hall i hi).2⟩⟩
  · exact .inr ⟨path, index, hmap, .inr ⟨by simpa using fun h => hpool (.inr h), rfl⟩⟩

/-- **`Ext4GetBlocks` follows the block map** for the direct and singly indirect blocks, for the doubly indirect ones
if the block size is below 256 KiB, and for no triply indirect one -/
theorem ext4GetBlocks_iff (p : Partition) (inode : Table) (block : BitVec 32) :
    (ext4GetBlockPath p.entries block.toNat = mapPath p.entries block.toNat ∧
      LookedUp p inode block.toNat (ext4GetBlocks p inode block.toNat)) ↔
    block.toNat < 12 + p.entries ∨
      p.entries < 2^16 ∧ block.toNat < 12 + p.entries + p.entries * p.entries ∨
      12 + p.entries + p.entries * p.entries + p.entries * p.entries * p.entries ≤ block.toNat := by
  rw [← ext4GetBlockPath_iff p block.isLt]
  refine ⟨And.left, fun hpath => ⟨hpath, ?_⟩⟩
  by_cases hdoubly : block.toNat < 12 + p.entries + p.entries * p.entries
  · exact lookedUp_of_path hpath hdoubly
  have hbad : mapPath p.entries block.toNat = none := by
    rcases (ext4GetBlockPath_iff p block.isLt).mp hpath with h | h | h
    · omega
    · omega
    · unfold mapPath
      rw [if_neg (by omega), if_neg (by omega), if_neg hdoubly, if_neg (by omega)]
  have hnone : ext4GetBlocks p inode block.toNat = .error .noMapping := by
    unfold ext4GetBlocks
    rw [hpath.trans hbad]
  rw [hnone]
  exact .inl ⟨hbad, rfl⟩

/-- a file of which only the triply indirect block is there: its first block is in block 4, and is not found -/
theorem treblyBlock_noMapping : let p : Partition := ⟨0, by decide, fun b => .ok fun _ => b + 1#32, true⟩
    let inode : Table := fun i => if i = 14 then 1#32 else 0#32
    mapPath p.entries 65804 = some ([14, 0, 0], 0) ∧
      (readTable p inode [14, 0, 0]).map (fun table => table 0) = .ok 4#32 ∧
      ext4GetBlockPath p.entries 65804 = some ([13, 0, 0], 0) ∧
      ext4GetBlocks p inode 65804 = .error .noMapping := by
  refine ⟨by decide, rfl, by decide, rfl⟩

end Audk.Ext4
