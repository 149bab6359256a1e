import Mathlib.Tactic
import Mathlib.Data.Nat.Bitwise

/-!
# Fixed-width arithmetic: powers of two, masks and rounding

Unsigned machine words are natural numbers; an operation of width `w` is followed by `% 2 ^ w`.
The masks that C code writes for "aligned" and "round up" are computed here once.

* `and_not_mask`: clearing the low bits of a word is rounding down;
* `wrapSub_mask`: the addend that rounds a word up.
-/

namespace Arith

open Nat

/-! ## powers of two -/

lemma testBit_of_range {x k : Nat} (h1 : 2^k ≤ x) (h2 : x < 2^(k+1)) : x.testBit k = true := by
  have hd : x / 2^k = 1 := by
    apply Nat.div_eq_of_lt_le
    · omega
    · rw [Nat.pow_succ] at h2; omega
  rw [Nat.testBit_eq_decide_div_mod_eq, hd]
  rfl

lemma pow2_of_and_pred {v : Nat} (h0 : v ≠ 0) (h : v &&& (v - 1) = 0) : ∃ k, v = 2^k := by
  refine ⟨v.log2, ?_⟩
  have hlo : 2^v.log2 ≤ v := log2_self_le h0
  have hhi : v < 2^(v.log2+1) := lt_log2_self
  by_contra hne
  have h1 : v.testBit v.log2 = true := testBit_of_range hlo hhi
  have h2 : (v - 1).testBit v.log2 = true := testBit_of_range (by omega) (by omega)
  have h3 : (v &&& (v - 1)).testBit v.log2 = true := by rw [testBit_and, h1, h2]; rfl
  rw [h] at h3
  simp at h3

lemma and_pred_of_pow2 (k : Nat) : 2^k &&& (2^k - 1) = 0 := by
  rw [and_two_pow_sub_one_eq_mod, mod_self]

lemma pow2_dvd_of_le {i j : Nat} (h : 2^i ≤ 2^j) : 2^i ∣ 2^j :=
  Nat.pow_dvd_pow 2 ((Nat.pow_le_pow_iff_right (by omega)).mp h)

/-! ## masks -/

lemma and_mask_eq_zero {v k : Nat} : v &&& (2^k - 1) = 0 ↔ 2^k ∣ v := by
  rw [and_two_pow_sub_one_eq_mod, dvd_iff_mod_eq_zero]

lemma and_not_mask {x k w : Nat} (hx : x < 2^w) : x &&& (2^w - 1 - (2^k - 1)) = x / 2^k * 2^k := by
  apply eq_of_testBit_eq
  intro i
  rw [testBit_and, testBit_mul_two_pow]
  by_cases hkw : k ≤ w
  · have hpow : 2^k ≤ 2^w := Nat.pow_le_pow_right (by omega) hkw
    have hpos : 0 < 2^k := Nat.two_pow_pos k
    have e : 2^w - 1 - (2^k - 1) = (2^(w-k) - 1) * 2^k := by
      rw [Nat.sub_mul, ← Nat.pow_add, Nat.sub_add_cancel hkw]
      omega
    rw [e, testBit_mul_two_pow, testBit_two_pow_sub_one, testBit_div_two_pow]
    by_cases hki : k ≤ i
    · by_cases hiw : i < w
      · have : i - k < w - k := by omega
        simp [hki, this]
      · have hlt : x < 2^i := lt_of_lt_of_le hx (Nat.pow_le_pow_right (by omega) (by omega))
        simp [hki, testBit_lt_two_pow hlt]
    · simp [hki]
  · have hpow : 2^w ≤ 2^k := Nat.pow_le_pow_right (by omega) (by omega)
    have e : 2^w - 1 - (2^k - 1) = 0 := by omega
    have hd : x / 2^k = 0 := div_eq_of_lt (by omega)
    rw [e, hd]
    simp

/-! ## rounding up -/

/-- the least multiple of `a` that is at least `v` -/
def roundUp (v a : Nat) : Nat := (v + (a - 1)) / a * a

lemma dvd_roundUp (v a : Nat) : a ∣ roundUp v a := Dvd.intro_left _ rfl

lemma le_roundUp (v : Nat) {a : Nat} (ha : 0 < a) : v ≤ roundUp v a := by
  have h := div_add_mod (v + (a - 1)) a
  have hm := mod_lt (v + (a - 1)) ha
  have hc : a * ((v + (a - 1)) / a) = (v + (a - 1)) / a * a := mul_comm _ _
  unfold roundUp
  omega

lemma roundUp_lt (v : Nat) {a : Nat} (ha : 0 < a) : roundUp v a < v + a := by
  have h := div_mul_le_self (v + (a - 1)) a
  unfold roundUp
  omega

lemma roundUp_le {v a m : Nat} (ha : 0 < a) (hm : a ∣ m) (h : v ≤ m) : roundUp v a ≤ m := by
  obtain ⟨c, rfl⟩ := hm
  rw [mul_comm a c]
  apply Nat.mul_le_mul_right
  apply le_of_lt_succ
  rw [div_lt_iff_lt_mul ha, succ_mul, mul_comm c a]
  omega

lemma roundUp_eq_self {v a : Nat} (ha : 0 < a) (h : a ∣ v) : roundUp v a = v :=
  le_antisymm (roundUp_le ha h le_rfl) (le_roundUp v ha)

lemma roundUp_add {m a : Nat} (v : Nat) (ha : 0 < a) (h : a ∣ m) : roundUp (m + v) a = m + roundUp v a := by
  obtain ⟨c, rfl⟩ := h
  unfold roundUp
  rw [add_assoc, mul_add_div ha, add_mul, mul_comm a c]

lemma roundUp_mono {v w a : Nat} (ha : 0 < a) (h : v ≤ w) : roundUp v a ≤ roundUp w a :=
  roundUp_le ha (dvd_roundUp w a) (h.trans (le_roundUp w ha))

lemma wrapSub_mask {v k w : Nat} (hk : k ≤ w) (hv : v < 2^w) :
    v + ((2^k + 2^w - v) % 2^w &&& (2^k - 1)) = roundUp v (2^k) := by
  have hpos : 0 < 2^k := Nat.two_pow_pos k
  obtain ⟨c, hc⟩ : 2^k ∣ 2^w := pow_dvd_pow 2 hk
  rw [and_two_pow_sub_one_eq_mod, mod_mod_of_dvd _ ⟨c, hc⟩]
  generalize hA : 2^k = A at *
  generalize hW : 2^w = W at *
  apply le_antisymm
  · by_contra hlt
    have h1 := le_roundUp v hpos
    have h2 := dvd_roundUp v A
    obtain ⟨q, hq⟩ := h2
    have hle : q ≤ c + 1 := by
      have : roundUp v A ≤ A * (c + 1) := roundUp_le hpos ⟨c+1, rfl⟩ (by rw [mul_succ]; omega)
      rw [hq] at this
      exact le_of_mul_le_mul_left this hpos
    have hm : (A + W - v) % A = (roundUp v A - v) % A := by
      have e : A + W - v = (roundUp v A - v) + A * (c + 1 - q) := by
        have : A * (c + 1 - q) + A * q = A * (c + 1) := by
          rw [← Nat.mul_add, Nat.sub_add_cancel hle]
        rw [mul_succ] at this
        omega
      rw [e, add_mul_mod_self_left]
    have h3 := roundUp_lt v hpos
    rw [hm, mod_eq_of_lt (by omega)] at hlt
    omega
  · apply roundUp_le hpos _ (by omega)
    have hdv : A ∣ A + W := ⟨c + 1, by rw [mul_succ]; omega⟩
    have e : A + W = (v + (A + W - v) % A) + A * ((A + W - v) / A) := by
      have := div_add_mod (A + W - v) A
      omega
    rw [e] at hdv
    exact (Nat.dvd_add_left ⟨_, rfl⟩).mp hdv

end Arith
