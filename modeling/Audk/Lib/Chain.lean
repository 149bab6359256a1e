import Audk.Lib.Regions

/-!
# Ranges that follow one another

`Chain l a b`: the ranges of `l` are not empty, each starts where the one before ends, and together they
are the addresses from `a` up to `b`, without `b`.

* `Chain.labelAt_of_mem`: the label of an address is that of its range;
* `Chain.sorted`: the ranges are in order.
-/

variable {β : Type}

namespace Regions

open List Option

def Chain : List (Region β) → Nat → Nat → Prop
  | [], a, b => a = b
  | r :: rs, a, b => r.lo = a ∧ r.lo ≤ r.hi ∧ Chain rs (r.hi + 1) b

section
variable {l l' : List (Region β)} {r r' : Region β} {a b c p : Nat}

lemma chain_nil : Chain ([] : List (Region β)) a b ↔ a = b := Iff.rfl

lemma chain_cons : Chain (r :: l) a b ↔ r.lo = a ∧ r.lo ≤ r.hi ∧ Chain l (r.hi + 1) b := Iff.rfl

lemma chain_append : Chain (l ++ l') a c ↔ ∃ b, Chain l a b ∧ Chain l' b c := by
  induction l generalizing a with
  | nil => exact ⟨fun h => ⟨a, rfl, h⟩, fun ⟨b, hb, h⟩ => by rwa [chain_nil.mp hb]⟩
  | cons r l ih =>
    rw [cons_append, chain_cons, ih]
    constructor
    · intro ⟨hlo, hne, b, hl, hl'⟩
      exact ⟨b, ⟨hlo, hne, hl⟩, hl'⟩
    · intro ⟨b, ⟨hlo, hne, hl⟩, hl'⟩
      exact ⟨hlo, hne, b, hl, hl'⟩

lemma Chain.le (h : Chain l a b) : a ≤ b := by
  induction l generalizing a with
  | nil => exact le_of_eq h
  | cons r l ih =>
    obtain ⟨hlo, hne, hl⟩ := chain_cons.mp h
    have := ih hl
    omega

lemma Chain.bounds (h : Chain l a b) (hr : r ∈ l) : a ≤ r.lo ∧ r.lo ≤ r.hi ∧ r.hi < b := by
  obtain ⟨l1, l2, rfl⟩ := append_of_mem hr
  obtain ⟨m, h1, hlo, hne, h2⟩ := chain_append.mp h
  have := h1.le
  have := h2.le
  omega

lemma Chain.sorted (h : Chain l a b) : l.Pairwise fun r r' => r.hi < r'.lo := by
  induction l generalizing a with
  | nil => exact .nil
  | cons r l ih =>
    obtain ⟨-, -, hl⟩ := chain_cons.mp h
    exact pairwise_cons.mpr ⟨fun r' hr' => (hl.bounds hr').1, ih hl⟩

lemma Chain.split (h : Chain l a b) (hp : a ≤ p) (hp' : p < b) : ∃ l1 r l2, l = l1 ++ r :: l2 ∧ r.Covers p := by
  induction l generalizing a with
  | nil =>
    rw [chain_nil] at h
    omega
  | cons r l ih =>
    obtain ⟨hlo, hne, hl⟩ := chain_cons.mp h
    by_cases hr : p ≤ r.hi
    · exact ⟨[], r, l, rfl, by omega, hr⟩
    · obtain ⟨l1, r', l2, rfl, hr'⟩ := ih hl (by omega)
      exact ⟨r :: l1, r', l2, rfl, hr'⟩

lemma labelAt_append : labelAt (l ++ l') p = (labelAt l p).or (labelAt l' p) := by
  unfold labelAt
  rw [List.find?_append, map_or]

lemma labelAt_cons_of_covers (h : r.Covers p) : labelAt (r :: l) p = some r.label := by
  simp only [labelAt, List.find?_cons, h, decide_true, map_some]

lemma labelAt_cons_of_not (h : ¬ r.Covers p) : labelAt (r :: l) p = labelAt l p := by
  simp only [labelAt, List.find?_cons, h, decide_false]

lemma Chain.labelAt_none (h : Chain l a b) (hp : p < a ∨ b ≤ p) : labelAt l p = none := by
  unfold labelAt
  rw [map_eq_none_iff, List.find?_eq_none]
  intro r hr hcovers
  have h1 := h.bounds hr
  have h2 := of_decide_eq_true hcovers
  have h3 := h2.1
  have h4 := h2.2
  omega

lemma Chain.labelAt_of_mem (h : Chain l a b) (hr : r ∈ l) (hp : r.Covers p) : labelAt l p = some r.label := by
  obtain ⟨l1, l2, rfl⟩ := append_of_mem hr
  obtain ⟨m, h1, hlo, -, -⟩ := chain_append.mp h
  rw [labelAt_append, h1.labelAt_none (.inr (hlo ▸ hp.1)), none_or]
  exact labelAt_cons_of_covers hp

end

end Regions
