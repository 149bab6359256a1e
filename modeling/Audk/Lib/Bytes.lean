import Mathlib.Tactic

/-!
# Byte memories and little-endian words

A memory is a total function from addresses to bytes; what a program may touch of it is said by
spans.

* `SameOn m m' lo hi`: the two memories agree on `[lo, hi)`;
* `chunk m a n`: the `n` bytes at `a` as a list.
-/

namespace Bytes

open Nat

abbrev Mem := Nat → UInt8

/-! ## spans -/

structure Span where
  off : Nat
  len : Nat
deriving DecidableEq

/-- every address of the span lies in `[lo, hi)`; an empty span touches nothing -/
def Span.Within (s : Span) (lo hi : Nat) : Prop := 0 < s.len → lo ≤ s.off ∧ s.off + s.len ≤ hi

instance (s : Span) (lo hi : Nat) : Decidable (s.Within lo hi) := inferInstanceAs (Decidable (_ → _))

lemma Span.within_of_le {off len lo hi : Nat} (h1 : lo ≤ off) (h2 : off + len ≤ hi) :
    (Span.mk off len).Within lo hi := fun _ => ⟨h1, h2⟩

def Span.Disjoint (s t : Span) : Prop := s.off + s.len ≤ t.off ∨ t.off + t.len ≤ s.off

lemma Span.Disjoint.symm {s t : Span} (h : s.Disjoint t) : t.Disjoint s := Or.symm h

/-! ## agreement on a range -/

/-- `m` and `m'` hold the same bytes at `[lo, hi)` -/
def SameOn (m m' : Mem) (lo hi : Nat) : Prop := ∀ i, lo ≤ i → i < hi → m i = m' i

lemma SameOn.refl (m : Mem) (lo hi : Nat) : SameOn m m lo hi := fun _ _ _ => rfl

variable {m m' : Mem} {r r' : List UInt8} {a n : Nat} {lo hi : Nat}

lemma SameOn.trans {m m' m'' : Mem} (h : SameOn m m' lo hi) (h' : SameOn m' m'' lo hi) : SameOn m m'' lo hi :=
  fun i h1 h2 => (h i h1 h2).trans (h' i h1 h2)

lemma SameOn.symm (h : SameOn m m' lo hi) : SameOn m' m lo hi := fun i h1 h2 => (h i h1 h2).symm

lemma SameOn.mono {lo hi lo' hi' : Nat} (h : SameOn m m' lo hi) (h1 : lo ≤ lo')
    (h2 : hi' ≤ hi) : SameOn m m' lo' hi' :=
  fun i hi1 hi2 => h i (h1.trans hi1) (lt_of_lt_of_le hi2 h2)

/-! ## little-endian words -/

/-- the `n` bytes at `a`, least significant first -/
def le (m : Mem) : Nat → Nat → Nat
  | _, 0 => 0
  | a, n+1 => (m a).toNat + 256 * le m (a+1) n

lemma le_succ (m : Mem) (a n : Nat) : le m a (n+1) = (m a).toNat + 256 * le m (a+1) n := rfl

lemma le_lt (m : Mem) (a n : Nat) : le m a n < 256^n := by
  induction n generalizing a with
  | zero => simp [le]
  | succ n ih =>
    have h1 := ih (a+1)
    have h2 : (m a).toNat < 256 := UInt8.toNat_lt (m a)
    rw [le_succ, pow_succ]
    omega

lemma le_congr (h : SameOn m m' a (a+n)) : le m a n = le m' a n := by
  induction n generalizing a with
  | zero => rfl
  | succ n ih =>
    rw [le_succ, le_succ, h a le_rfl (by omega), ih (h.mono (by omega) (by omega))]

lemma le_inj {a b n : Nat} (h : le m a n = le m' b n) (i : Nat) (hi : i < n) : m (a+i) = m' (b+i) := by
  induction n generalizing a b i with
  | zero => omega
  | succ n ih =>
    have h1 : (m a).toNat < 256 := UInt8.toNat_lt (m a)
    have h2 : (m' b).toNat < 256 := UInt8.toNat_lt (m' b)
    rw [le_succ, le_succ] at h
    cases i with
    | zero =>
      have h0 : (m a).toNat = (m' b).toNat := by omega
      exact UInt8.toNat_inj.mp h0
    | succ i =>
      have := ih (a := a+1) (b := b+1) (by omega) i (by omega)
      rwa [add_assoc, add_comm 1 i, add_assoc, add_comm 1 i] at this

lemma le_eq_of_bytes {a b n : Nat} (h : ∀ i, i < n → m (a+i) = m' (b+i)) : le m a n = le m' b n := by
  induction n generalizing a b with
  | zero => rfl
  | succ n ih =>
    have h0 := h 0 (by omega)
    simp only [add_zero] at h0
    rw [le_succ, le_succ, h0, ih]
    intro i hi
    have := h (i+1) (by omega)
    rwa [add_comm i 1, ← add_assoc, ← add_assoc] at this

/-! ## stores -/

/-- `m` with the `n` low bytes of `v` at `a` -/
def put (m : Mem) (a n v : Nat) : Mem := fun i => if a ≤ i ∧ i < a + n then UInt8.ofNat (v / 256^(i-a)) else m i

/-- `m` with `src[off ..]` copied over `[dst, dst + len)` -/
def copy (m : Mem) (dst : Nat) (src : Mem) (off len : Nat) : Mem :=
  fun i => if dst ≤ i ∧ i < dst + len then src (off + (i - dst)) else m i

/-- `m` with `[dst, dst + len)` cleared -/
def zero (m : Mem) (dst len : Nat) : Mem := fun i => if dst ≤ i ∧ i < dst + len then 0 else m i

/-- the memory of zeros with the fields `(address, width, value)` stored -/
def ofFields (l : List (Nat × Nat × Nat)) : Mem := l.foldr (fun x m => put m x.1 x.2.1 x.2.2) (fun _ => 0)

lemma put_of_not_mem (m : Mem) {a n i : Nat} (v : Nat) (h : ¬ (a ≤ i ∧ i < a + n)) : put m a n v i = m i := if_neg h

lemma sameOn_put {m : Mem} {a n v lo hi : Nat} (h : hi ≤ a ∨ a + n ≤ lo) : SameOn (put m a n v) m lo hi :=
  fun i h1 h2 => put_of_not_mem m v (by omega)

lemma put_add (m : Mem) (a : Nat) {n : Nat} (v : Nat) {i : Nat} (h : i < n) :
    put m a n v (a+i) = UInt8.ofNat (v / 256^i) := by
  unfold put
  rw [if_pos (by omega), Nat.add_sub_cancel_left]

lemma le_ofNat {m : Mem} {a n v : Nat} (h : ∀ i, i < n → m (a+i) = UInt8.ofNat (v / 256^i)) :
    le m a n = v % 256^n := by
  induction n generalizing a v with
  | zero => simp [le, mod_one]
  | succ n ih =>
    have h0 := h 0 (by omega)
    simp only [Nat.add_zero, Nat.pow_zero, Nat.div_one] at h0
    have h1 : le m (a+1) n = v / 256 % 256^n := by
      apply ih
      intro i hi
      have := h (i+1) (by omega)
      rwa [Nat.add_comm i 1, ← Nat.add_assoc, Nat.pow_add, ← Nat.div_div_eq_div_mul, Nat.pow_one] at this
    have h2 : v % 256^(n+1) = v % 256 + 256 * (v / 256 % 256^n) := by
      rw [Nat.pow_succ', Nat.mod_mul]
    rw [le_succ, h0, h1, h2, UInt8.toNat_ofNat']

lemma le_put_same (m : Mem) (a n v : Nat) : le (put m a n v) a n = v % 256^n := le_ofNat fun _ hi => put_add m a v hi

lemma le_put_disjoint (m : Mem) {a n v b k : Nat} (h : b + k ≤ a ∨ a + n ≤ b) :
    le (put m a n v) b k = le m b k := le_congr (sameOn_put h)

lemma put_put_disjoint (m : Mem) {a n v b k w : Nat} (h : b + k ≤ a ∨ a + n ≤ b) :
    put (put m a n v) b k w = put (put m b k w) a n v := by
  funext i
  unfold put
  by_cases h1 : a ≤ i ∧ i < a + n
  · have h2 : ¬ (b ≤ i ∧ i < b + k) := by omega
    simp [h1, h2]
  · simp [h1]

lemma put_put_same (m : Mem) (a n v w : Nat) : put (put m a n v) a n w = put m a n w := by
  funext i
  unfold put
  split <;> rfl

lemma le_byte (m : Mem) (a : Nat) {n i : Nat} (h : i < n) : UInt8.ofNat (le m a n / 256^i) = m (a+i) := by
  have e := le_put_same m a n (le m a n)
  rw [mod_eq_of_lt (le_lt m a n)] at e
  rw [← put_add m a (le m a n) h]
  exact le_inj e i h

lemma put_le_self (m : Mem) (a n : Nat) : put m a n (le m a n) = m := by
  funext i
  unfold put
  split
  · next h =>
    rw [le_byte m a (by omega)]
    congr 1
    omega
  · rfl

/-! ## ranges as lists -/

/-- the `n` bytes at `a` as a list -/
def chunk (m : Mem) (a n : Nat) : List UInt8 := (List.range n).map fun i => m (a + i)

lemma chunk_length (m : Mem) (a n : Nat) : (chunk m a n).length = n := by simp [chunk]

lemma chunk_get {m : Mem} {a n i : Nat} (h : i < n) : (chunk m a n)[i]? = some (m (a + i)) := by
  simp [chunk, h]

lemma chunk_inj (h : chunk m a n = chunk m' a n) : SameOn m m' a (a + n) := by
  intro i h1 h2
  obtain ⟨d, rfl⟩ := Nat.exists_eq_add_of_le h1
  have hd : d < n := by omega
  have := chunk_get (m := m) (a := a) hd
  rw [h, chunk_get hd] at this
  exact (Option.some.inj this).symm

/-- two lists that start with ranges of different length still agree on the shorter range -/
lemma chunk_append_inj {a n n' k : Nat} (h : chunk m a n ++ r = chunk m' a n' ++ r') (hk : k ≤ n) (hk' : k ≤ n') :
    SameOn m m' a (a + k) := by
  intro i h1 h2
  obtain ⟨d, rfl⟩ := Nat.exists_eq_add_of_le h1
  have e1 : (chunk m a n ++ r)[d]? = some (m (a + d)) := by
    rw [List.getElem?_append_left (by rw [chunk_length]; omega), chunk_get (by omega)]
  have e2 : (chunk m' a n' ++ r')[d]? = some (m' (a + d)) := by
    rw [List.getElem?_append_left (by rw [chunk_length]; omega), chunk_get (by omega)]
  rw [h, e2] at e1
  exact (Option.some.inj e1).symm

lemma chunk_append_eq (h : chunk m a n ++ r = chunk m' a n ++ r') : SameOn m m' a (a + n) ∧ r = r' := by
  obtain ⟨h1, h2⟩ := List.append_inj h (by rw [chunk_length, chunk_length])
  exact ⟨chunk_inj h1, h2⟩

end Bytes
