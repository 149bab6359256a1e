import Audk.Lib.Cell

/-!
# The ARM Thumb MOVW/MOVT immediates of `PeCoffRelocate.c`

A MOVT or MOVW instruction is two halfwords; its 16-bit immediate is spread over both.

* `address_patch`, `patchFirst_patchFirst`, `patchSecond_patchSecond`: reading back a patched
  instruction, and patching twice;
* `thumbCell`: the address that a MOVW/MOVT pair in memory holds;
* `thumbPair_laws`: what decoding, patching and fixing up a pair do to each other.
-/

namespace Audk.PeCoff

open Bytes

/-- `imm4:i:imm3:imm8` of the instruction `movt1 movt2` -/
def thumbMovtImmediateAddress (movt1 movt2 : BitVec 16) : BitVec 16 :=
  let movt : BitVec 32 := (movt1.zeroExtend 32 <<< 16) ||| movt2.zeroExtend 32
  (movt &&& 0x000000FF#32).truncate 16 ||| ((movt >>> 4) &&& 0x0000F700#32).truncate 16 |||
    ((movt &&& 0x04000000#32) >>> 15).truncate 16

def thumbPatchFirst (instruction address : BitVec 16) : BitVec 16 :=
  (instruction &&& ~~~ 0x040F#16) ||| (((address &&& 0xF000#16) >>> 12) |||
    ((address &&& 0x0800#16) >>> 1))

def thumbPatchSecond (instruction address : BitVec 16) : BitVec 16 :=
  (instruction &&& ~~~ 0x70FF#16) ||| ((address &&& 0x00FF#16) |||
    ((address.zeroExtend 32 <<< 4) &&& 0x00007000#32).truncate 16)

section
variable (a b x y : BitVec 16)

lemma address_patch : thumbMovtImmediateAddress (thumbPatchFirst a x) (thumbPatchSecond b x) = x := by
  apply BitVec.eq_of_getLsbD_eq
  intro i hi
  interval_cases i <;> simp [thumbMovtImmediateAddress, thumbPatchFirst, thumbPatchSecond]

lemma patchFirst_patchFirst : thumbPatchFirst (thumbPatchFirst a x) y = thumbPatchFirst a y := by
  apply BitVec.eq_of_getLsbD_eq
  intro i hi
  interval_cases i <;> simp [thumbPatchFirst]

lemma patchSecond_patchSecond : thumbPatchSecond (thumbPatchSecond a x) y = thumbPatchSecond a y := by
  apply BitVec.eq_of_getLsbD_eq
  intro i hi
  interval_cases i <;> simp [thumbPatchSecond]

/-- the bits of the `k`-th halfword of a pair that belong to an immediate -/
def immediateMask (k : Nat) : BitVec 16 := if k % 2 = 0 then 0x040F#16 else 0x70FF#16

lemma patchFirst_address : thumbPatchFirst a (thumbMovtImmediateAddress a b) = a := by
  apply BitVec.eq_of_getLsbD_eq
  intro i hi
  interval_cases i <;> simp [thumbMovtImmediateAddress, thumbPatchFirst]

lemma patchSecond_address : thumbPatchSecond b (thumbMovtImmediateAddress a b) = b := by
  apply BitVec.eq_of_getLsbD_eq
  intro i hi
  interval_cases i <;> simp [thumbMovtImmediateAddress, thumbPatchSecond]

lemma patchFirst_mask : thumbPatchFirst a x &&& ~~~ 0x040F#16 = a &&& ~~~ 0x040F#16 := by
  apply BitVec.eq_of_getLsbD_eq
  intro i hi
  interval_cases i <;> simp [thumbPatchFirst]

lemma patchSecond_mask : thumbPatchSecond a x &&& ~~~ 0x70FF#16 = a &&& ~~~ 0x70FF#16 := by
  apply BitVec.eq_of_getLsbD_eq
  intro i hi
  interval_cases i <;> simp [thumbPatchSecond]

end

/-! ## instructions in memory -/

def halfword (m : Mem) (a : Nat) : BitVec 16 := BitVec.ofNat 16 (le m a 2)

def movtAddress (m : Mem) (a : Nat) : BitVec 16 := thumbMovtImmediateAddress (halfword m a) (halfword m (a + 2))

def movtPatch (m : Mem) (a : Nat) (address : BitVec 16) : Mem :=
  let m' := put m a 2 (thumbPatchFirst (halfword m a) address).toNat
  put m' (a + 2) 2 (thumbPatchSecond (halfword m' (a + 2)) address).toNat

/-- the address of the MOVW at `a` and the MOVT behind it -/
def peCoffThumbMovwMovtImmediateAddress (m : Mem) (a : Nat) : BitVec 32 :=
  ((movtAddress m (a + 4)).zeroExtend 32 <<< 16) ||| (movtAddress m a).zeroExtend 32

def thumbMovwMovtImmediatePatch (m : Mem) (a : Nat) (address : BitVec 32) : Mem :=
  movtPatch (movtPatch m a ((address &&& 0x0000FFFF#32).truncate 16)) (a + 4)
    (((address &&& 0xFFFF0000#32) >>> 16).truncate 16)

def peCoffThumbMovwMovtImmediateFixup (m : Mem) (a adjust : Nat) : Mem :=
  thumbMovwMovtImmediatePatch m a (peCoffThumbMovwMovtImmediateAddress m a + BitVec.ofNat 32 adjust)

section
variable (m : Mem) (a : Nat)

lemma halfword_put_same (v : BitVec 16) : halfword (put m a 2 v.toNat) a = v := by
  unfold halfword
  rw [le_put_same]
  apply BitVec.eq_of_toNat_eq
  rw [BitVec.toNat_ofNat]
  omega

lemma halfword_put_disjoint {b n v : Nat} (h : a + 2 ≤ b ∨ b + n ≤ a) : halfword (put m b n v) a = halfword m a := by
  unfold halfword
  rw [le_put_disjoint m h]

variable {lo hi : Nat} {m' : Mem}

lemma halfword_congr (h : SameOn m m' lo hi) (h1 : lo ≤ a)
    (h2 : a + 2 ≤ hi) : halfword m a = halfword m' a := by
  unfold halfword
  rw [le_congr (h.mono h1 h2)]

lemma movtPatch_eq (x : BitVec 16) :
    movtPatch m a x = put (put m a 2 (thumbPatchFirst (halfword m a) x).toNat) (a + 2) 2
      (thumbPatchSecond (halfword m (a + 2)) x).toNat := by
  show put _ _ _ (thumbPatchSecond (halfword (put m a 2 _) (a + 2)) x).toNat = _
  rw [halfword_put_disjoint m (a + 2) (by omega)]

lemma movtPatch_frame (x : BitVec 16) (i : Nat) (h : ¬ (a ≤ i ∧ i < a + 4)) : movtPatch m a x i = m i := by
  rw [movtPatch_eq, put_of_not_mem _ _ (by omega), put_of_not_mem _ _ (by omega)]

lemma movtAddress_patch (x : BitVec 16) : movtAddress (movtPatch m a x) a = x := by
  rw [movtPatch_eq, movtAddress, halfword_put_same, halfword_put_disjoint _ a (by omega), halfword_put_same]
  exact address_patch _ _ x

lemma movtPatch_patch (x y : BitVec 16) : movtPatch (movtPatch m a x) a y = movtPatch m a y := by
  rw [movtPatch_eq (movtPatch m a x), movtPatch_eq m a x, halfword_put_same,
    halfword_put_disjoint _ a (by omega), halfword_put_same, patchFirst_patchFirst,
    patchSecond_patchSecond, put_put_disjoint _ (by omega), put_put_same,
    put_put_disjoint _ (by omega), put_put_same, movtPatch_eq]

lemma movtPatch_address : movtPatch m a (movtAddress m a) = m := by
  have hword (b : Nat) : (halfword m b).toNat = le m b 2 := Nat.mod_eq_of_lt (le_lt m b 2)
  rw [movtPatch_eq, movtAddress, patchFirst_address, patchSecond_address, hword, hword, put_le_self, put_le_self]

lemma movtPatch_mask (x : BitVec 16) :
    halfword (movtPatch m a x) a &&& ~~~ 0x040F#16 = halfword m a &&& ~~~ 0x040F#16 ∧
      halfword (movtPatch m a x) (a + 2) &&& ~~~ 0x70FF#16 = halfword m (a + 2) &&& ~~~ 0x70FF#16 := by
  rw [movtPatch_eq, halfword_put_disjoint _ a (by omega), halfword_put_same, halfword_put_same]
  exact ⟨patchFirst_mask _ x, patchSecond_mask _ x⟩

lemma halfword_movtPatch {b : Nat} (x : BitVec 16) (h : b + 2 ≤ a ∨ a + 4 ≤ b) :
    halfword (movtPatch m a x) b = halfword m b :=
  halfword_congr _ b (fun i h1 h2 => movtPatch_frame m a x i (by omega)) le_rfl le_rfl

lemma movtAddress_congr (h : SameOn m m' lo hi) (h1 : lo ≤ a)
    (h2 : a + 4 ≤ hi) : movtAddress m a = movtAddress m' a := by
  unfold movtAddress
  rw [halfword_congr m a h h1 (by omega), halfword_congr m (a + 2) h (by omega) (by omega)]

lemma movtPatch_congr (x : BitVec 16) (h : SameOn m m' lo hi)
    (h1 : lo ≤ a) (h2 : a + 4 ≤ hi) : SameOn (movtPatch m a x) (movtPatch m' a x) lo hi := by
  intro i hi1 hi2
  rw [movtPatch_eq, movtPatch_eq, halfword_congr m a h h1 (by omega),
    halfword_congr m (a + 2) h (by omega) (by omega)]
  show (if _ then _ else if _ then _ else _) = (if _ then _ else if _ then _ else _)
  rw [h i hi1 hi2]

end

/-- the immediate of one instruction as a cell -/
def movtCell : Cell where
  width := 4
  modulus := 2^16
  get := fun m a => (movtAddress m a).toNat
  set := fun m a v => movtPatch m a (BitVec.ofNat 16 v)
  pos := by norm_num
  get_congr := fun h => by rw [movtAddress_congr _ _ h le_rfl le_rfl]
  set_congr := fun v h => movtPatch_congr _ _ _ h le_rfl le_rfl
  set_frame := fun m a v i h => movtPatch_frame m a _ i h
  get_set := by
    intro m a v hv
    rw [movtAddress_patch, BitVec.toNat_ofNat, Nat.mod_eq_of_lt hv]
  set_set := fun m a v w => movtPatch_patch m a _ _

lemma movtPatch_comm (m : Mem) (a : Nat) (x y : BitVec 16) :
    movtPatch (movtPatch m (a + 4) y) a x = movtPatch (movtPatch m a x) (a + 4) y := by
  have h := movtCell.set_comm movtCell m (a := a) (b := a + 4) x.toNat y.toNat (.inl le_rfl)
  simpa [movtCell] using h

lemma address_halves (x : BitVec 32) : (((((x &&& 0xFFFF0000#32) >>> 16).truncate 16).zeroExtend 32 <<< 16) |||
      ((x &&& 0x0000FFFF#32).truncate 16).zeroExtend 32) = x := by
  apply BitVec.eq_of_getLsbD_eq
  intro i hi
  interval_cases i <;> simp

lemma halves_address (x y : BitVec 16) :
    (((x.zeroExtend 32 <<< 16) ||| y.zeroExtend 32) &&& 0x0000FFFF#32).truncate 16 = y ∧
      ((((x.zeroExtend 32 <<< 16) ||| y.zeroExtend 32) &&& 0xFFFF0000#32) >>> 16).truncate 16 = x := by
  constructor <;>
  · apply BitVec.eq_of_getLsbD_eq
    intro i hi
    interval_cases i <;> simp

/-- the address in a MOVW/MOVT pair as a cell -/
def thumbCell : Cell where
  width := 8
  modulus := 2^32
  get := fun m a => (peCoffThumbMovwMovtImmediateAddress m a).toNat
  set := fun m a v => thumbMovwMovtImmediatePatch m a (BitVec.ofNat 32 v)
  pos := by norm_num
  get_congr := by
    intro m m' a h
    unfold peCoffThumbMovwMovtImmediateAddress
    rw [movtAddress_congr m a h le_rfl (by omega), movtAddress_congr m (a + 4) h (by omega) (by omega)]
  set_congr := by
    intro m m' a v h
    exact movtPatch_congr _ _ _ (movtPatch_congr _ _ _ h le_rfl (by omega)) (by omega) (by omega)
  set_frame := by
    intro m a v i h
    unfold thumbMovwMovtImmediatePatch
    rw [movtPatch_frame _ _ _ i (by omega), movtPatch_frame _ _ _ i (by omega)]
  get_set := by
    intro m a v hv
    have hlow : SameOn (thumbMovwMovtImmediatePatch m a (BitVec.ofNat 32 v))
        (movtPatch m a (((BitVec.ofNat 32 v) &&& 0x0000FFFF#32).truncate 16)) a (a + 4) := by
      intro i h1 h2
      exact movtPatch_frame _ _ _ i (by omega)
    show (((movtAddress _ (a + 4)).zeroExtend 32 <<< 16) ||| (movtAddress _ a).zeroExtend 32).toNat = v
    rw [movtAddress_congr _ a hlow le_rfl le_rfl, movtAddress_patch, thumbMovwMovtImmediatePatch,
      movtAddress_patch, address_halves, BitVec.toNat_ofNat, Nat.mod_eq_of_lt hv]
  set_set := by
    intro m a v w
    unfold thumbMovwMovtImmediatePatch
    rw [movtPatch_comm, movtPatch_patch, movtPatch_patch]

lemma thumbFixup_eq_shift (m : Mem) (a adjust : Nat) :
    peCoffThumbMovwMovtImmediateFixup m a adjust = thumbCell.shift m a adjust := by
  show thumbMovwMovtImmediatePatch m a _ = thumbMovwMovtImmediatePatch m a (BitVec.ofNat 32 _)
  congr 1
  apply BitVec.eq_of_toNat_eq
  rw [BitVec.toNat_add, BitVec.toNat_ofNat, BitVec.toNat_ofNat, Nat.add_mod_mod]
  exact (Nat.mod_mod _ _).symm

lemma thumbPatch_address (m : Mem) (a : Nat) :
    thumbMovwMovtImmediatePatch m a (peCoffThumbMovwMovtImmediateAddress m a) = m := by
  have h := halves_address (movtAddress m (a + 4)) (movtAddress m a)
  unfold thumbMovwMovtImmediatePatch peCoffThumbMovwMovtImmediateAddress
  rw [h.1, h.2, movtPatch_address, movtPatch_address]

lemma thumbPatch_mask (m : Mem) (a : Nat) (x : BitVec 32) {k : Nat} (hk : k < 4) :
    halfword (thumbMovwMovtImmediatePatch m a x) (a + 2 * k) &&& ~~~ immediateMask k =
      halfword m (a + 2 * k) &&& ~~~ immediateMask k := by
  unfold thumbMovwMovtImmediatePatch
  -- the first two halfwords are the MOVW, the other two the MOVT
  interval_cases k
  · rw [halfword_movtPatch _ _ _ (.inl (by omega))]
    exact (movtPatch_mask m a _).1
  · rw [halfword_movtPatch _ _ _ (.inl (by omega))]
    exact (movtPatch_mask m a _).2
  · rw [show a + 2 * 2 = a + 4 from rfl]
    refine (movtPatch_mask _ (a + 4) _).1.trans ?_
    rw [halfword_movtPatch _ _ _ (.inr le_rfl)]
    rfl
  · refine (movtPatch_mask _ (a + 4) _).2.trans ?_
    rw [halfword_movtPatch _ _ _ (.inr (by omega))]
    rfl

/-- **decoding, patching and fixing up a MOVW/MOVT pair** -/
theorem thumbPair_laws (m : Mem) (a : Nat) (address : BitVec 32) (adjust adjust' : Nat) :
    peCoffThumbMovwMovtImmediateAddress (thumbMovwMovtImmediatePatch m a address) a = address ∧
      thumbMovwMovtImmediatePatch m a (peCoffThumbMovwMovtImmediateAddress m a) = m ∧
      (∀ k < 4, halfword (thumbMovwMovtImmediatePatch m a address) (a + 2 * k) &&& ~~~ immediateMask k =
        halfword m (a + 2 * k) &&& ~~~ immediateMask k) ∧
      (∀ i, ¬ (a ≤ i ∧ i < a + 8) → thumbMovwMovtImmediatePatch m a address i = m i) ∧
      peCoffThumbMovwMovtImmediateFixup (peCoffThumbMovwMovtImmediateFixup m a adjust) a adjust' =
        peCoffThumbMovwMovtImmediateFixup m a ((adjust + adjust') % 2^64) := by
  have hlt : address.toNat < 2^32 := address.isLt
  have hget := thumbCell.get_set m a _ hlt
  have hframe := thumbCell.set_frame m a address.toNat
  simp only [thumbCell, BitVec.ofNat_toNat, BitVec.setWidth_eq] at hget hframe
  refine ⟨BitVec.eq_of_toNat_eq hget, thumbPatch_address m a, fun k hk => thumbPatch_mask m a address hk, hframe, ?_⟩
  rw [thumbFixup_eq_shift, thumbFixup_eq_shift, thumbFixup_eq_shift, thumbCell.shift_shift]
  exact thumbCell.shift_eq_of_mod m (Nat.mod_mod_of_dvd _ ⟨2^32, rfl⟩).symm

end Audk.PeCoff
