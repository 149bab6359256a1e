import Audk.Lib.Arith

/-!
# `BaseOverflowLib` and the alignment macros of `Base.h`

A `UINT32` is a natural number below `2 ^ 32`.  The overflow functions return the flag they return
in C together with the wrapped result.

* `alignUp_ok`: without overflow, the result is `roundUp`;
* `alignUp_overflow`: with overflow, the result is `0`.
-/

namespace Audk

open Arith Nat

def sub32 (a b : Nat) : Nat := (a + 2^32 - b) % 2^32

def add32 (a b : Nat) : Nat := (a + b) % 2^32

def sub64 (a b : Nat) : Nat := (a + 2^64 - b) % 2^64

variable {a b : Nat}

lemma sub32_eq (h : b ≤ a) (ha : a < 2^32) : sub32 a b = a - b := by
  unfold sub32; omega

lemma add32_eq (h : a + b < 2^32) : add32 a b = a + b := mod_eq_of_lt h

lemma add32_lt (a b : Nat) : add32 a b < 2^32 := mod_lt _ (by norm_num)

lemma add32_sub32 {a b c : Nat} (ha : a < 2^32) (hb : b < 2^32) (hc : c < 2^32) :
    add32 (sub32 b a) (sub32 c b) = sub32 c a := by
  unfold add32 sub32
  omega

lemma sub64_eq_zero (ha : a < 2^64) (hb : b < 2^64) : sub64 a b = 0 ↔ a = b := by
  unfold sub64
  omega

lemma sub64_add {a b c : Nat} (ha : a < 2^64) (hb : b < 2^64) (hc : c < 2^64) :
    (sub64 b a + sub64 c b) % 2^64 = sub64 c a := by
  unfold sub64
  omega

/-! ## overflow-checked arithmetic -/

/-- `BaseOverflowAddU32`: the overflow flag and the wrapped sum -/
def baseOverflowAddU32 (a b : Nat) : Bool × Nat := (decide (2^32 ≤ a + b), add32 a b)

def baseOverflowSubU32 (a b : Nat) : Bool × Nat := (decide (a < b), sub32 a b)

def baseOverflowMulU32 (a b : Nat) : Bool × Nat := (decide (2^32 ≤ a * b), a * b % 2^32)

def baseOverflowAlignUpU32 (value alignment : Nat) : Bool × Nat :=
  let r := baseOverflowAddU32 value (sub32 alignment 1)
  (r.1, r.2 &&& (2^32 - 1 - sub32 alignment 1))

lemma baseOverflowAddU32_fst : (baseOverflowAddU32 a b).1 = false ↔ a + b < 2^32 := by
  simp [baseOverflowAddU32]

lemma baseOverflowAddU32_snd (h : (baseOverflowAddU32 a b).1 = false) :
    (baseOverflowAddU32 a b).2 = a + b := add32_eq (baseOverflowAddU32_fst.mp h)

lemma baseOverflowSubU32_fst : (baseOverflowSubU32 a b).1 = false ↔ b ≤ a := by
  simp [baseOverflowSubU32]

lemma baseOverflowSubU32_snd (ha : a < 2^32)
    (h : (baseOverflowSubU32 a b).1 = false) : (baseOverflowSubU32 a b).2 = a - b :=
  sub32_eq (baseOverflowSubU32_fst.mp h) ha

lemma baseOverflowMulU32_fst : (baseOverflowMulU32 a b).1 = false ↔ a * b < 2^32 := by
  simp [baseOverflowMulU32]

lemma baseOverflowMulU32_snd (h : (baseOverflowMulU32 a b).1 = false) :
    (baseOverflowMulU32 a b).2 = a * b := mod_eq_of_lt (baseOverflowMulU32_fst.mp h)

/-! ## macros -/

def isPow2 (v : Nat) : Prop := v ≠ 0 ∧ v &&& (v - 1) = 0

instance (v : Nat) : Decidable (isPow2 v) := inferInstanceAs (Decidable (_ ∧ _))

def isAligned (value alignment : Nat) : Prop := value &&& (alignment - 1) = 0

instance (v a : Nat) : Decidable (isAligned v a) := inferInstanceAs (Decidable (_ = _))

def alignValueAddend (value alignment : Nat) : Nat := sub32 alignment value &&& (alignment - 1)

def alignValue (value alignment : Nat) : Nat := add32 value (alignValueAddend value alignment)

lemma isPow2_iff {v : Nat} : isPow2 v ↔ ∃ k, v = 2^k := by
  constructor
  · intro ⟨h0, h⟩
    exact pow2_of_and_pred h0 h
  · rintro ⟨k, rfl⟩
    exact ⟨(Nat.two_pow_pos k).ne', and_pred_of_pow2 k⟩

lemma isPow2_pos {v : Nat} (h : isPow2 v) : 0 < v := pos_of_ne_zero h.1

lemma isAligned_iff {v a : Nat} (h : isPow2 a) : isAligned v a ↔ a ∣ v := by
  obtain ⟨k, rfl⟩ := isPow2_iff.mp h
  exact and_mask_eq_zero

lemma isPow2_dvd (ha : isPow2 a) (hb : isPow2 b) (h : a ≤ b) : a ∣ b := by
  obtain ⟨i, rfl⟩ := isPow2_iff.mp ha
  obtain ⟨j, rfl⟩ := isPow2_iff.mp hb
  exact pow2_dvd_of_le h

lemma isPow2_dvd_word {a : Nat} (ha : isPow2 a) (h : a < 2^32) : a ∣ 2^32 :=
  isPow2_dvd ha (isPow2_iff.mpr ⟨32, rfl⟩) h.le

/-! ## rounding up -/

section
variable {v a : Nat} (ha : isPow2 a) (hlt : a < 2^32)
include ha hlt

lemma alignUp_fst : (baseOverflowAlignUpU32 v a).1 = false ↔ v + (a - 1) < 2^32 := by
  have h1 := isPow2_pos ha
  simp only [baseOverflowAlignUpU32, sub32_eq h1 hlt]
  exact baseOverflowAddU32_fst

lemma alignUp_snd : (baseOverflowAlignUpU32 v a).2 = add32 v (a - 1) / a * a := by
  have h1 := isPow2_pos ha
  have h2 : add32 v (a - 1) < 2^32 := add32_lt _ _
  obtain ⟨k, rfl⟩ := isPow2_iff.mp ha
  simp only [baseOverflowAlignUpU32, sub32_eq h1 hlt]
  exact and_not_mask h2

lemma alignUp_ok (h : (baseOverflowAlignUpU32 v a).1 = false) : (baseOverflowAlignUpU32 v a).2 = roundUp v a := by
  rw [alignUp_snd ha hlt, add32_eq ((alignUp_fst ha hlt).mp h)]
  rfl

lemma alignUp_overflow (hv : v < 2^32) (h : (baseOverflowAlignUpU32 v a).1 = true) :
    (baseOverflowAlignUpU32 v a).2 = 0 := by
  have h1 : ¬ v + (a - 1) < 2^32 := fun hc => by
    rw [(alignUp_fst ha hlt).mpr hc] at h
    exact Bool.noConfusion h
  have h2 : add32 v (a - 1) < a := by unfold add32; omega
  rw [alignUp_snd ha hlt, div_eq_of_lt h2, zero_mul]

/-- rounding up overflows exactly when the rounded value is the whole address space -/
lemma alignUp_fst_iff : (baseOverflowAlignUpU32 v a).1 = false ↔ roundUp v a < 2^32 := by
  have hpos := isPow2_pos ha
  rw [alignUp_fst ha hlt]
  constructor
  · intro h
    exact lt_of_le_of_lt (div_mul_le_self _ _) h
  · intro h
    by_contra hc
    have h4 : (2^32) ≤ roundUp v a := by
      obtain ⟨c, hc'⟩ := isPow2_dvd_word ha hlt
      rw [hc', mul_comm a c]
      apply Nat.mul_le_mul_right
      rw [le_div_iff_mul_le hpos, mul_comm]
      omega
    omega

lemma add_alignValueAddend (hv : v < 2^32) : v + alignValueAddend v a = roundUp v a := by
  obtain ⟨k, rfl⟩ := isPow2_iff.mp ha
  have hk : k ≤ 32 := ((Nat.pow_lt_pow_iff_right (by omega)).mp hlt).le
  exact wrapSub_mask hk hv

lemma alignValue_eq (hv : v < 2^32) (h : roundUp v a < 2^32) : alignValue v a = roundUp v a := by
  unfold alignValue
  rw [add32_eq (by rwa [add_alignValueAddend ha hlt hv])]
  exact add_alignValueAddend ha hlt hv

end

-- the unifier must not compute with these
attribute [irreducible] sub32 add32 sub64 baseOverflowAddU32 baseOverflowSubU32 baseOverflowMulU32
  baseOverflowAlignUpU32 alignValueAddend alignValue

end Audk
