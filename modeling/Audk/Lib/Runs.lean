import Mathlib.Data.List.Basic
import Mathlib.Algebra.Order.Group.Nat

/-!
# Runs: an address range cut into consecutive pieces

A list of runs describes the range from `0` to the sum of their sizes; every address of it lies in
exactly one run and has the value of that run.

* `Runs.Tiles rs R n`: the runs make up `[0, n)` and their values satisfy `R`;
* `Tiles.snoc`: one more run extends the range.
-/

namespace Runs

open List Nat

structure Run (α : Type) where
  size : Nat
  value : α
deriving DecidableEq

variable {α : Type}

def total : List (Run α) → Nat
  | [] => 0
  | r :: rs => r.size + total rs

def valueAt : List (Run α) → Nat → Option α
  | [], _ => none
  | r :: rs, a => if a < r.size then some r.value else valueAt rs (a - r.size)

@[simp] lemma total_nil : total ([] : List (Run α)) = 0 := rfl
@[simp] lemma total_cons (r : Run α) (rs : List (Run α)) : total (r :: rs) = r.size + total rs := rfl

@[simp] lemma total_append (rs ts : List (Run α)) : total (rs ++ ts) = total rs + total ts := by
  induction rs with
  | nil => exact (zero_add _).symm
  | cons r rs ih => rw [cons_append, total_cons, total_cons, ih, add_assoc]

lemma valueAt_append_left {rs : List (Run α)} (ts : List (Run α)) {a : Nat} (h : a < total rs) :
    valueAt (rs ++ ts) a = valueAt rs a := by
  induction rs generalizing a with
  | nil => exact absurd h (not_lt_zero a)
  | cons r rs ih =>
    rw [cons_append, valueAt, valueAt]
    by_cases hr : a < r.size
    · rw [if_pos hr, if_pos hr]
    · rw [if_neg hr, if_neg hr]
      apply ih
      rw [total_cons] at h
      omega

lemma valueAt_append_right (rs ts : List (Run α)) (a : Nat) : valueAt (rs ++ ts) (total rs + a) = valueAt ts a := by
  induction rs with
  | nil => rw [total_nil, zero_add, nil_append]
  | cons r rs ih =>
    have hr : ¬ r.size + total rs + a < r.size := by omega
    have e : r.size + total rs + a - r.size = total rs + a := by omega
    rw [cons_append, total_cons, valueAt, if_neg hr, e, ih]

/-- the runs make up `[0, n)`, and the value at each address satisfies `R` -/
structure Tiles (rs : List (Run α)) (R : Nat → α → Prop) (n : Nat) : Prop where
  sum : total rs = n
  value : ∀ a, a < n → ∃ v, valueAt rs a = some v ∧ R a v

lemma tiles_nil (R : Nat → α → Prop) : Tiles [] R 0 where
  sum := rfl
  value := fun a ha => absurd ha (not_lt_zero a)

lemma Tiles.snoc {rs : List (Run α)} {R : Nat → α → Prop} {n m : Nat} {r : Run α}
    (h : Tiles rs R n) (hm : n + r.size = m) (hr : ∀ a, n ≤ a → a < m → R a r.value) : Tiles (rs ++ [r]) R m where
  sum := by rw [total_append, h.sum, total_cons, total_nil, add_zero, hm]
  value := by
    intro a ha
    rcases lt_or_ge a n with hlt | hge
    · rw [valueAt_append_left [r] (h.sum ▸ hlt)]
      exact h.value a hlt
    · obtain ⟨b, rfl⟩ := Nat.exists_eq_add_of_le hge
      have hb : b < r.size := by omega
      refine ⟨r.value, ?_, hr _ hge ha⟩
      rw [← h.sum, valueAt_append_right, valueAt, if_pos hb]

end Runs
