import Audk.Base.Firmware

/-!
# Block groups and inodes

`Ext4OpenSuperblock` loads the table of block group descriptors, `Ext4ReadInode` finds an inode with it.

* `Volume.groups`, `Volume.slot`: the number of block groups and the place of an inode, by the format;
* `inodesReadable_iff`: the volumes of which every inode can be read.
-/

namespace Audk.Ext4

open Bytes Nat

structure Superblock where
  inodesCount : Nat
  blocksCount : Nat
  logBlockSize : Nat
  blocksPerGroup : Nat
  inodesPerGroup : Nat
  magic : Nat
  revLevel : Nat
  sInodeSize : Nat
  featureIncompat : Nat
  featureRoCompat : Nat
  sDescSize : Nat
  blocksCountHi : Nat
  checksumType : Nat

/-- a volume, and what is outside of the two functions: `ReadDisk`, `AllocatePool`, the checksums of what is at an
offset of the disk, and `Ext4OpenVolume` -/
structure Volume extends Superblock where
  bytes : Mem
  readDisk : (offset length : Nat) → Option Status
  pool : Bool
  superblockChecksum : Bool
  descChecksum : (group offset : Nat) → Bool
  inodeChecksum : (inodeNum offset : Nat) → Bool
  ext4OpenVolume : Option Status

/-- `NumberBlockGroups`, and the bytes of the disk that `BlockGroups` is a copy of -/
structure Opened where
  numberBlockGroups : Nat
  blockGroups : Span

def gSupportedIncompatFeat : Nat := 0x73C6

section
variable (v : Volume)

def Volume.featuresIncompat : Nat := if v.revLevel = 1 then v.featureIncompat else 0

def Volume.featuresRoCompat : Nat := if v.revLevel = 1 then v.featureRoCompat else 0

def Volume.inodeSize : Nat := if v.revLevel = 1 then v.sInodeSize else 128

def Volume.is64Bit : Bool := v.featuresIncompat.testBit 7

def Volume.descSize : Nat := if v.is64Bit then v.sDescSize else 32

def Volume.blockSize : Nat := 1024 * 2^v.logBlockSize

def Volume.blockNr (low high : Nat) : Nat := if v.is64Bit then low + high * 2^32 else low

def Volume.numberBlocks : Nat := v.blockNr v.blocksCount v.blocksCountHi

def ext4ReadBlocks (numberBlocks blockNumber : Nat) : Option Status :=
  let offset := blockNumber * v.blockSize % 2^64
  let length := numberBlocks * v.blockSize % 2^64
  if offset / blockNumber ≠ v.blockSize ∨ length / numberBlocks ≠ v.blockSize then some .invalidParameter
  else v.readDisk offset length

def ext4AllocAndReadBlocks (numberBlocks blockNumber : Nat) : Option Span :=
  if numberBlocks = 0 ∨ blockNumber = 0 ∨ numberBlocks * v.blockSize % 2^64 / numberBlocks ≠ v.blockSize ∨
    v.pool = false ∨ (ext4ReadBlocks v numberBlocks blockNumber).isSome then none
  else some ⟨blockNumber * v.blockSize % 2^64, numberBlocks * v.blockSize % 2^64⟩

/-- where a descriptor is that is read from the copy -/
def ext4GetBlockGroupDesc (p : Opened) (blockGroup : Nat) : Nat := p.blockGroups.off + blockGroup * v.descSize % 2^32

/-- the checks of the superblock -/
def Volume.refused : Option Status :=
  if v.magic ≠ 0xEF53 ∨ v.revLevel ≠ 1 ∧ v.revLevel ≠ 0 then some .volumeCorrupted
  else if v.revLevel = 1 ∧ (v.inodeSize % 4 ≠ 0 ∨ v.inodeSize < 128) then some .volumeCorrupted
  else if v.featuresIncompat ||| gSupportedIncompatFeat ≠ gSupportedIncompatFeat then some .unsupported
  else if v.featuresRoCompat.testBit 10 ∧ v.checksumType ≠ 1 then some .unsupported
  else if v.inodesPerGroup = 0 then some .volumeCorrupted
  else if 11 < v.logBlockSize then some .unsupported
  else if v.blocksPerGroup ≠ 8 * v.blockSize then some .unsupported
  else if v.is64Bit ∧ (v.sDescSize % 4 ≠ 0 ∨ v.sDescSize < 64) then some .volumeCorrupted
  else if v.featuresRoCompat.testBit 10 ∧ v.superblockChecksum = false then some .volumeCorrupted
  else none

def Volume.nrBlocks : Nat :=
  let size := v.numberBlocks / v.blocksPerGroup * v.descSize % 2^64
  size / v.blockSize + if size % v.blockSize ≠ 0 then 1 else 0

def ext4OpenSuperblock : Except Status Opened :=
  match v.readDisk 1024 1024 with
  | some status => .error status
  | none =>
    match v.refused with
    | some status => .error status
    | none =>
      let numberBlockGroups := v.numberBlocks / v.blocksPerGroup
      match ext4AllocAndReadBlocks v v.nrBlocks (if v.blockSize = 1024 then 2 else 1) with
      | none => .error .outOfResources
      | some blockGroups =>
        let p : Opened := ⟨numberBlockGroups, blockGroups⟩
        -- `Index` is a `UINT32`: the loop ends if there are at most `2^32` groups
        if ¬ ∀ index < numberBlockGroups, v.descChecksum index (ext4GetBlockGroupDesc v p index) = true then
          .error .volumeCorrupted
        else if v.pool = false then .error .outOfResources
        else
          match v.ext4OpenVolume with
          | some status => .error status
          | none => .ok p

def ext4ReadInode (p : Opened) (inodeNum : Nat) : Except Status Span :=
  if inodeNum = 0 ∨ v.inodesCount < inodeNum then .error .volumeCorrupted
  else
    let blockGroupNumber := (inodeNum - 1) / v.inodesPerGroup % 2^32
    if p.numberBlockGroups ≤ blockGroupNumber then .error .volumeCorrupted
    else if v.pool = false then .error .outOfResources
    else
      let desc := ext4GetBlockGroupDesc v p blockGroupNumber
      let inodeTableStart := v.blockNr (le v.bytes (desc + 8) 4) (le v.bytes (desc + 40) 4)
      let offset := (inodeTableStart * v.blockSize + (inodeNum - 1) % v.inodesPerGroup * v.inodeSize) % 2^64
      match v.readDisk offset v.inodeSize with
      | some status => .error status
      | none => if v.inodeChecksum inodeNum offset then .ok ⟨offset, v.inodeSize⟩ else .error .volumeCorrupted

/-! ## the format -/

def Volume.firstDataBlock : Nat := if v.blockSize = 1024 then 1 else 0

/-- the last group may be shorter -/
def Volume.groups : Nat := (v.numberBlocks - v.firstDataBlock + (v.blocksPerGroup - 1)) / v.blocksPerGroup

def Volume.descriptor (group : Nat) : Nat := (v.firstDataBlock + 1) * v.blockSize + group * v.descSize

def Volume.inodeTable (group : Nat) : Nat :=
  v.blockNr (le v.bytes (v.descriptor group + 8) 4) (le v.bytes (v.descriptor group + 40) 4)

def Volume.slot (inodeNum : Nat) : Span :=
  ⟨v.inodeTable ((inodeNum - 1) / v.inodesPerGroup) * v.blockSize + (inodeNum - 1) % v.inodesPerGroup * v.inodeSize,
    v.inodeSize⟩

structure WellFormed : Prop where
  magic : v.magic = 0xEF53
  revLevel : v.revLevel = 1 ∨ v.revLevel = 0
  inodeSize : v.revLevel = 1 → v.inodeSize % 4 = 0 ∧ 128 ≤ v.inodeSize
  features : v.featuresIncompat ||| gSupportedIncompatFeat = gSupportedIncompatFeat
  checksumType : v.featuresRoCompat.testBit 10 → v.checksumType = 1
  logBlockSize : v.logBlockSize ≤ 11
  inodesPerGroup : 0 < v.inodesPerGroup
  blocksPerGroup : 0 < v.blocksPerGroup ∧ v.blocksPerGroup ≤ 8 * v.blockSize
  descSize : ∃ k, 5 ≤ k ∧ k ≤ 10 ∧ v.descSize = 2^k
  descSize_ge : v.is64Bit → 64 ≤ v.sDescSize
  firstDataBlock : v.firstDataBlock < v.numberBlocks
  disk : v.numberBlocks * v.blockSize ≤ 2^64
  inodes : v.inodesCount = v.groups * v.inodesPerGroup
  inodes_lt : v.inodesCount < 2^32
  superblock : 2048 ≤ v.numberBlocks * v.blockSize
  descriptors : v.descriptor 0 + ((v.groups * v.descSize + (v.blockSize - 1)) / v.blockSize) * v.blockSize ≤
    v.numberBlocks * v.blockSize
  inodeTables : ∀ g < v.groups, v.inodeTable g * v.blockSize + v.inodesPerGroup * v.inodeSize ≤
    v.numberBlocks * v.blockSize
  apart : ∀ g < v.groups, ∀ g' < v.groups, v.inodeTable g = v.inodeTable g' → g = g'
  readDisk : ∀ offset length, offset + length ≤ v.numberBlocks * v.blockSize → v.readDisk offset length = none
  superblockChecksum : v.superblockChecksum = true
  descChecksum : ∀ g < v.groups, v.descChecksum g (v.descriptor g) = true
  inodeChecksum : ∀ n, v.inodeChecksum n (v.slot n).off = true
  pool : v.pool = true
  openVolume : v.ext4OpenVolume = none

/-- there is a copy of every descriptor, and every inode is read from its slot -/
def InodesReadable : Prop :=
  ∃ p, ext4OpenSuperblock v = .ok p ∧
    (∀ g < v.groups, p.blockGroups.off + g * v.descSize = v.descriptor g ∧ (g + 1) * v.descSize ≤ p.blockGroups.len) ∧
    ∀ n, 0 < n → n ≤ v.inodesCount → ext4ReadInode v p n = .ok (v.slot n)

end

variable {v : Volume} {p : Opened}

section
variable (h : WellFormed v)
include h

lemma WellFormed.inodeSize_pos : 0 < v.inodeSize := by
  by_cases hrev : v.revLevel = 1
  · have := (h.inodeSize hrev).2
    omega
  · unfold Volume.inodeSize
    rw [if_neg hrev]
    decide

lemma WellFormed.blockSize : 1024 ≤ v.blockSize ∧ v.blockSize ≤ 2^21 := by
  have hlog := h.logBlockSize
  unfold Volume.blockSize
  interval_cases v.logBlockSize <;> decide

lemma WellFormed.slot_le {g i : Nat} (hg : g < v.groups) (hi : i < v.inodesPerGroup) :
    v.inodeTable g * v.blockSize + i * v.inodeSize + v.inodeSize ≤ v.numberBlocks * v.blockSize := by
  have h1 := h.inodeTables g hg
  have h2 := mul_le_mul_right v.inodeSize (succ_le_of_lt hi)
  rw [succ_mul] at h2
  omega

/-- **`Ext4ReadInode`** finds the slot of an inode if its group is counted and the offset of the descriptor does not
wrap around -/
theorem ext4ReadInode_iff (hoff : p.blockGroups.off = v.descriptor 0) {n : Nat} (hn : 0 < n)
    (hle : n ≤ v.inodesCount) : ext4ReadInode v p n = .ok (v.slot n) ↔
      (n - 1) / v.inodesPerGroup < p.numberBlockGroups ∧ (n - 1) / v.inodesPerGroup * v.descSize < 2^32 := by
  have hinodes := h.inodes
  have hlt := h.inodes_lt
  have hi := mod_lt (n - 1) h.inodesPerGroup
  have hg : (n - 1) / v.inodesPerGroup < v.groups := Nat.div_lt_of_lt_mul (by rw [Nat.mul_comm]; omega)
  have hsum := h.inodeChecksum n
  unfold ext4ReadInode
  unfold Volume.slot at hsum ⊢
  rw [if_neg (by omega), Nat.mod_eq_of_lt ((Nat.div_le_self _ _).trans_lt (show n - 1 < 2^32 by omega))]
  generalize (n - 1) / v.inodesPerGroup = g at *
  -- the descriptor that is read is the one of group `g % 2^(32-k)`
  obtain ⟨k, -, hk, hdesc⟩ := h.descSize
  have hpow : 2^32 = 2^(32-k) * 2^k := by rw [← Nat.pow_add, Nat.sub_add_cancel (by omega)]
  have hwrap : g * v.descSize % 2^32 = g % 2^(32-k) * v.descSize := by rw [hdesc, hpow, mul_mod_mul_right]
  have hsame : g % 2^(32-k) = g ↔ g * v.descSize < 2^32 := by
    constructor
    · intro heq
      rw [← heq, ← hwrap]
      exact mod_lt _ (by decide)
    · intro hlt
      rw [mod_eq_of_lt hlt] at hwrap
      exact (Nat.eq_of_mul_eq_mul_right (hdesc ▸ Nat.two_pow_pos k) hwrap).symm
  have hd : ext4GetBlockGroupDesc v p g = v.descriptor (g % 2^(32-k)) := by
    unfold ext4GetBlockGroupDesc Volume.descriptor at *
    rw [hoff, hwrap, zero_mul, add_zero]
  have hg' : g % 2^(32-k) < v.groups := (mod_le _ _).trans_lt hg
  have hslot := h.slot_le hg' hi
  have hdisk := h.disk
  have hpos := h.inodeSize_pos
  rw [← hsame]
  by_cases hF : p.numberBlockGroups ≤ g
  · rw [if_pos hF]
    exact iff_of_false nofun fun hc => absurd hc.1 (not_lt.mpr hF)
  rw [if_neg hF, if_neg (by rw [h.pool]; decide)]
  dsimp only
  rw [hd, ← Volume.inodeTable, mod_eq_of_lt (by omega), h.readDisk _ _ hslot]
  dsimp only
  constructor
  · intro heq
    refine ⟨Nat.lt_of_not_le hF, h.apart _ hg' g hg ?_⟩
    split at heq
    · injection heq with heq
      injection heq with heq
      exact eq_of_mul_eq_mul_right (by have := h.blockSize.1; omega) (add_right_cancel heq)
    · cases heq
  · rintro ⟨-, heq⟩
    rw [heq, if_pos hsum]

lemma WellFormed.refused_iff : v.refused = none ↔ v.blocksPerGroup = 8 * v.blockSize := by
  unfold Volume.refused
  have hrev := h.revLevel
  have hlog := h.logBlockSize
  have hipg := h.inodesPerGroup
  rw [if_neg (by rw [h.magic]; omega), if_neg (fun hc => by have := h.inodeSize hc.1; omega), if_neg (not_not.mpr h.features),
    if_neg (fun hc => hc.2 (h.checksumType hc.1)), if_neg (by omega), if_neg (by omega)]
  split_ifs with hbpg hdesc hsum
  · exact iff_of_false nofun hbpg
  · obtain ⟨hbit, hbad⟩ := hdesc
    have hge := h.descSize_ge hbit
    obtain ⟨k, -, hk, heq⟩ := h.descSize
    unfold Volume.descSize at heq
    rw [if_pos hbit] at heq
    interval_cases k <;> omega
  · exact absurd hsum.2 (by rw [h.superblockChecksum]; decide)
  · exact iff_of_true rfl (not_not.mp hbpg)

lemma WellFormed.tableBlock : 0 < v.descriptor 0 ∧
    (if v.blockSize = 1024 then 2 else 1) * v.blockSize % 2^64 = v.descriptor 0 := by
  have := h.blockSize
  unfold Volume.descriptor Volume.firstDataBlock
  split_ifs <;> omega

end

lemma ext4AllocAndReadBlocks_off {n b : Nat} {s : Span} (h : ext4AllocAndReadBlocks v n b = some s) :
    s.off = b * v.blockSize % 2^64 := by
  unfold ext4AllocAndReadBlocks at h
  split_ifs at h
  rw [← Option.some.inj h]

lemma ext4OpenSuperblock_ok (h : WellFormed v) (hp : ext4OpenSuperblock v = .ok p) :
    v.blocksPerGroup = 8 * v.blockSize ∧ p.numberBlockGroups = v.numberBlocks / v.blocksPerGroup ∧
      p.blockGroups.off = v.descriptor 0 := by
  unfold ext4OpenSuperblock at hp
  rw [h.readDisk 1024 1024 h.superblock, h.openVolume] at hp
  cases hr : v.refused with
  | some status =>
    rw [hr] at hp
    cases hp
  | none =>
    rw [hr] at hp
    dsimp only at hp
    split at hp
    · cases hp
    · next blockGroups ha =>
      split_ifs at hp
      cases hp
      exact ⟨h.refused_iff.mp hr, rfl, (ext4AllocAndReadBlocks_off ha).trans h.tableBlock.2⟩

lemma WellFormed.nrBlocks (h : WellFormed v) (hF : v.numberBlocks / v.blocksPerGroup = v.groups) :
    v.nrBlocks = (v.groups * v.descSize + (v.blockSize - 1)) / v.blockSize := by
  have hbs := h.blockSize
  have hsize : v.groups * v.descSize < 2^64 := by
    have hg := Nat.le_mul_of_pos_right v.groups h.inodesPerGroup
    rw [← h.inodes] at hg
    obtain ⟨k, -, hk, hdesc⟩ := h.descSize
    calc v.groups * v.descSize ≤ 2^32 * 2^10 := Nat.mul_le_mul (by have := h.inodes_lt; omega)
          (hdesc ▸ Nat.pow_le_pow_right (by decide) hk)
      _ < 2^64 := by decide
  unfold Volume.nrBlocks
  rw [hF, mod_eq_of_lt hsize]
  generalize v.groups * v.descSize = size
  generalize v.blockSize = bs at *
  have hdiv := div_add_mod size bs
  have hmod := mod_lt size (show 0 < bs by omega)
  rw [show size + (bs - 1) = size % bs + (bs - 1) + bs * (size / bs) by omega, add_mul_div_left _ _ (by omega),
    add_comm]
  congr 1
  split_ifs with hrem
  · exact (Nat.div_eq_of_lt_le (by omega) (by omega)).symm
  · exact (div_eq_of_lt (by omega)).symm

lemma WellFormed.groups_pos (h : WellFormed v) : 0 < v.groups := by
  have := h.firstDataBlock
  exact div_pos (by omega) h.blocksPerGroup.1

theorem inodesReadable_iff (h : WellFormed v) : InodesReadable v ↔
    v.blocksPerGroup = 8 * v.blockSize ∧ v.numberBlocks / v.blocksPerGroup = v.groups ∧
      (v.groups - 1) * v.descSize < 2^32 := by
  have hpos := h.groups_pos
  obtain ⟨m, hm⟩ : ∃ m, v.groups = m + 1 := ⟨v.groups - 1, by omega⟩
  have hinodes := h.inodes
  have hbs := h.blockSize
  constructor
  · rintro ⟨p, hp, -, hread⟩
    obtain ⟨hbpg, hnum, hoff⟩ := ext4OpenSuperblock_ok h hp
    have hle : v.numberBlocks / v.blocksPerGroup ≤ v.groups := by
      refine Nat.div_le_div_right ?_
      unfold Volume.firstDataBlock
      split_ifs <;> omega
    -- the first inode of the last group
    have hn : m * v.inodesPerGroup + 1 ≤ v.inodesCount := by
      have := h.inodesPerGroup
      rw [hinodes, hm, Nat.succ_mul]
      omega
    have hlast := (ext4ReadInode_iff h hoff (Nat.succ_pos _) hn).mp (hread _ (succ_pos _) hn)
    rw [Nat.succ_sub_one, Nat.mul_div_cancel _ h.inodesPerGroup, hnum] at hlast
    rw [hm, Nat.add_sub_cancel]
    exact ⟨hbpg, by omega, hlast.2⟩
  · rintro ⟨hbpg, hF, hwrap⟩
    rw [hm, Nat.add_sub_cancel] at hwrap
    have hfit := h.descriptors
    have hdisk := h.disk
    have hround : v.groups * v.descSize ≤ v.nrBlocks * v.blockSize := by
      rw [h.nrBlocks hF]
      exact Arith.le_roundUp _ (by omega)
    rw [← h.nrBlocks hF] at hfit
    have hwraps : ∀ g < v.groups, g * v.descSize % 2^32 = g * v.descSize := fun g hg =>
      mod_eq_of_lt ((mul_le_mul_right _ (show g ≤ m by omega)).trans_lt hwrap)
    have hnr : 0 < v.nrBlocks := by
      refine pos_of_ne_zero fun h0 => ?_
      rw [h0, Nat.zero_mul, Nat.le_zero, Nat.mul_eq_zero] at hround
      obtain ⟨k, -, -, hk⟩ := h.descSize
      have := Nat.two_pow_pos k
      omega
    have hblock := h.tableBlock
    have halloc : ext4AllocAndReadBlocks v v.nrBlocks (if v.blockSize = 1024 then 2 else 1) =
        some ⟨v.descriptor 0, v.nrBlocks * v.blockSize⟩ := by
      have hlt : v.nrBlocks * v.blockSize < 2^64 := by omega
      have hread : ext4ReadBlocks v v.nrBlocks (if v.blockSize = 1024 then 2 else 1) = none := by
        unfold ext4ReadBlocks
        rw [hblock.2, mod_eq_of_lt hlt]
        dsimp only
        rw [Nat.mul_div_cancel_left _ hnr, if_neg, h.readDisk _ _ hfit]
        unfold Volume.descriptor Volume.firstDataBlock
        split_ifs <;> omega
      unfold ext4AllocAndReadBlocks
      rw [hread, hblock.2, Nat.mod_eq_of_lt hlt, Nat.mul_div_cancel_left _ hnr, h.pool, if_neg]
      split_ifs <;> simp <;> omega
    refine ⟨⟨v.groups, v.descriptor 0, v.nrBlocks * v.blockSize⟩, ?_, fun g hg => ⟨?_, ?_⟩, fun n hn hle => ?_⟩
    · unfold ext4OpenSuperblock
      rw [h.readDisk 1024 1024 h.superblock, h.refused_iff.mpr hbpg, h.openVolume, halloc, hF]
      dsimp only
      rw [if_neg, if_neg (by rw [h.pool]; decide)]
      refine not_not.mpr fun g hg => ?_
      have hdesc : ext4GetBlockGroupDesc v ⟨v.groups, v.descriptor 0, v.nrBlocks * v.blockSize⟩ g = v.descriptor g := by
        unfold ext4GetBlockGroupDesc Volume.descriptor
        rw [hwraps g hg, zero_mul, add_zero]
      rw [hdesc]
      exact h.descChecksum g hg
    · unfold Volume.descriptor
      rw [zero_mul, add_zero]
    · exact (mul_le_mul_right _ hg).trans hround
    · refine (ext4ReadInode_iff h rfl hn hle).mpr ?_
      have hg : (n - 1) / v.inodesPerGroup < v.groups := Nat.div_lt_of_lt_mul (by rw [Nat.mul_comm]; omega)
      exact ⟨hg, hwraps _ hg ▸ mod_lt _ (by decide)⟩

/-- a volume of 1 KiB blocks and a group of eight inodes, whose table is at block 5 -/
def smallVolume (blocks : Nat) : Volume where
  inodesCount := 8
  blocksCount := blocks
  logBlockSize := 0
  blocksPerGroup := 8192
  inodesPerGroup := 8
  magic := 0xEF53
  revLevel := 0
  sInodeSize := 0
  featureIncompat := 0
  featureRoCompat := 0
  sDescSize := 0
  blocksCountHi := 0
  checksumType := 0
  bytes := ofFields [(2056, 4, 5)]
  readDisk _ _ := none
  pool := true
  superblockChecksum := true
  descChecksum _ _ := true
  inodeChecksum _ _ := true
  ext4OpenVolume := none

lemma smallVolume_wellFormed {blocks : Nat} (h : blocks = 100 ∨ blocks = 8193) : WellFormed (smallVolume blocks) := by
  rcases h with rfl | rfl
  all_goals
    refine ⟨by decide, by decide, by decide, by decide, by decide, by decide, by decide, by decide, ⟨5, by decide⟩,
      by decide, by decide, by decide, by decide, by decide, by decide, by decide, by decide, by decide, fun _ _ _ => rfl,
      rfl, fun _ _ => rfl, fun _ => rfl, rfl, rfl⟩

theorem smallVolume_readable : InodesReadable (smallVolume 8193) :=
  (inodesReadable_iff (smallVolume_wellFormed (.inr rfl))).mpr ⟨by decide, by decide, by decide⟩

/-- a volume of 100 KiB cannot be opened, since `NumberBlockGroups` is zero -/
theorem smallVolume_refused : WellFormed (smallVolume 100) ∧
    ext4OpenSuperblock (smallVolume 100) = .error .outOfResources := by
  exact ⟨smallVolume_wellFormed (.inl rfl), rfl⟩

end Audk.Ext4
