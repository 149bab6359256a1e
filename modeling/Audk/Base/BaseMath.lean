import Mathlib.Tactic.Ring
import Mathlib.Tactic.Linarith

/-!
# `BaseMath.c`

* `baseMultThenDivU64x64x32_eq`: the function returns for every product, and divides the exact one.
-/

namespace Audk.Portable

open Nat Option

/-- what the results for half of `big` give for `big`, which may be odd -/
def doubled (big small divisor : Nat) (half : Nat × Nat) : Nat × Nat :=
  let odd := if big % 2 = 1 then (small / divisor, small % divisor) else (0, 0)
  let last := (odd.2 + half.2 * 2 % 2^64) % 2^64
  (((half.1 * 2 % 2^64 + odd.1) % 2^64 + last / divisor) % 2^64, last % divisor)

/-- the quotient and the remainder, `none` for a division by zero -/
def baseMultThenDivU64x64x32 (multiplicand multiplier divisor : Nat) : Option (Nat × Nat) :=
  if multiplier = 0 ∨ divisor = 0 then none
  else if multiplicand ≤ (2^64 - 1) / multiplier then
    some (multiplicand * multiplier % 2^64 / divisor, multiplicand * multiplier % 2^64 % divisor)
  else if multiplicand < multiplier then
    -- the multiplicand is to be the bigger one
    (baseMultThenDivU64x64x32 (multiplier / 2) multiplicand divisor).map (doubled multiplier multiplicand divisor)
  else (baseMultThenDivU64x64x32 (multiplicand / 2) multiplier divisor).map (doubled multiplicand multiplier divisor)
termination_by multiplicand + multiplier
decreasing_by all_goals omega

lemma doubled_eq (big small : Nat) {d : Nat} (hd0 : 0 < d) (hd : d < 2^32) :
    doubled big small d (big / 2 * small / d % 2^64, big / 2 * small % d) =
      (big * small / d % 2^64, big * small % d) := by
  have hr := mod_lt (big / 2 * small) hd0
  have hhalf := div_add_mod (big / 2 * small) d
  unfold doubled
  generalize big / 2 * small / d = q at *
  generalize big / 2 * small % d = r at *
  -- `s` and `u` are the quotient and the remainder of the odd part
  have hstep (s u : Nat) (hu : u < d) (hprod : big * small = 2 * (big / 2 * small) + (d * s + u)) :
      (((q % 2^64 * 2 % 2^64 + s) % 2^64 + (u + r * 2 % 2^64) % 2^64 / d) % 2^64, (u + r * 2 % 2^64) % 2^64 % d) =
        (big * small / d % 2^64, big * small % d) := by
    rw [show big * small = d * (2 * q + s) + (u + r * 2) by rw [hprod, ← hhalf]; ring, mul_add_div hd0,
      mul_add_mod, show (u + r * 2 % 2^64) % 2^64 = u + r * 2 by omega]
    refine Prod.ext ?_ rfl
    dsimp only
    omega
  have hbig := div_add_mod big 2
  split_ifs with hodd
  · refine hstep _ _ (mod_lt small hd0) ?_
    rw [div_add_mod, ← mul_assoc, ← succ_mul]
    congr 1
    omega
  · refine hstep 0 0 hd0 ?_
    rw [mul_zero, add_zero, ← mul_assoc]
    congr 1
    omega

/-- **the exact product is divided** -/
theorem baseMultThenDivU64x64x32_eq (multiplicand multiplier divisor : Nat) (h1 : multiplicand < 2^64)
    (h2 : multiplier < 2^64) (h0 : multiplier ≠ 0) (hd0 : divisor ≠ 0) (hd : divisor < 2^32) :
    baseMultThenDivU64x64x32 multiplicand multiplier divisor =
      some (multiplicand * multiplier / divisor % 2^64, multiplicand * multiplier % divisor) := by
  have hpos := pos_of_ne_zero hd0
  induction multiplicand, multiplier using baseMultThenDivU64x64x32.induct divisor with
  | case1 a b hz => exact absurd hz (not_or.mpr ⟨h0, hd0⟩)
  | case2 a b hz hfit =>
    have hlt : a * b < 2^64 := by
      have := (le_div_iff_mul_le (pos_of_ne_zero h0)).mp hfit
      omega
    rw [baseMultThenDivU64x64x32, if_neg hz, if_pos hfit, mod_eq_of_lt hlt,
      mod_eq_of_lt ((div_le_self _ _).trans_lt hlt)]
  | case3 a b hz hfit hlt ih =>
    have ha : a ≠ 0 := fun h => hfit (h ▸ zero_le _)
    rw [baseMultThenDivU64x64x32, if_neg hz, if_neg hfit, if_pos hlt, ih (by omega) h1 ha, map_some,
      doubled_eq b a hpos hd, mul_comm b a]
  | case4 a b hz hfit hlt ih =>
    rw [baseMultThenDivU64x64x32, if_neg hz, if_neg hfit, if_neg hlt, ih (by omega) h2 h0, map_some,
      doubled_eq a b hpos hd]

theorem multThenDiv_wide :
    baseMultThenDivU64x64x32 (2^64 - 1) (2^64 - 1) 3 = some ((2^64 - 1) * (2^64 - 1) / 3 % 2^64, (2^64 - 1) * (2^64 - 1) % 3) :=
  baseMultThenDivU64x64x32_eq (2^64 - 1) (2^64 - 1) 3 (by decide) (by decide) (by decide) (by decide) (by decide)

end Audk.Portable
