import Mathlib.Algebra.BigOperators.Group.List.Basic
import Mathlib.Data.List.TakeWhile
import Mathlib.Tactic

/-!
# Lists of segments

A segment covers the positions from its start up to its end, which does not belong to it.  `s` and `e` give the
two for the members of a list.

* `Ordered.tiles_of_sum`, `Ordered.tiles_of_covers`: segments that are long enough, or cover everything, tile;
* `Tiles.flatMap`: what tiles is put together by concatenation.
-/

namespace Segments

open List

variable {α β : Type} {s e : α → Int} {a b c x : Int} {f : α} {q q' : List α}

def Ordered (s e : α → Int) : Int → List α → Int → Prop
  | a, [], b => a ≤ b
  | a, f :: q, b => a ≤ s f ∧ s f ≤ e f ∧ Ordered s e (e f) q b

def Tiles (s e : α → Int) : Int → List α → Int → Prop
  | a, [], b => a = b
  | a, f :: q, b => s f = a ∧ s f ≤ e f ∧ Tiles s e (e f) q b

def Covers (s e : α → Int) (q : List α) (x : Int) : Prop := ∃ f ∈ q, s f ≤ x ∧ x < e f

lemma covers_append : Covers s e (q ++ q') x ↔ Covers s e q x ∨ Covers s e q' x := by
  constructor
  · intro ⟨f, hf, hx⟩
    rcases mem_append.mp hf with hf | hf
    · exact .inl ⟨f, hf, hx⟩
    · exact .inr ⟨f, hf, hx⟩
  · intro h
    rcases h with ⟨f, hf, hx⟩ | ⟨f, hf, hx⟩
    · exact ⟨f, mem_append_left _ hf, hx⟩
    · exact ⟨f, mem_append_right _ hf, hx⟩

lemma covers_cons : Covers s e (f :: q) x ↔ (s f ≤ x ∧ x < e f) ∨ Covers s e q x := by
  unfold Covers
  simp only [mem_cons, exists_eq_or_imp]

lemma not_covers_nil : ¬ Covers s e ([] : List α) x := fun ⟨_, hf, _⟩ => absurd hf not_mem_nil

/-! ## ordered segments -/

lemma Ordered.le (h : Ordered s e a q b) : a ≤ b := by
  induction q generalizing a with
  | nil => exact h
  | cons f q ih =>
    obtain ⟨hs, hse, hq⟩ := h
    have hb := ih hq
    omega

lemma Ordered.mono {a' b' : Int} (h : Ordered s e a q b) (ha : a' ≤ a) (hb : b ≤ b') : Ordered s e a' q b' := by
  induction q generalizing a a' with
  | nil => exact ha.trans (h.trans hb)
  | cons f q ih =>
    obtain ⟨hs, hse, hq⟩ := h
    exact ⟨ha.trans hs, hse, ih hq le_rfl⟩

lemma Ordered.bounds (h : Ordered s e a q b) (hf : f ∈ q) : a ≤ s f ∧ s f ≤ e f ∧ e f ≤ b := by
  induction q generalizing a with
  | nil => exact absurd hf not_mem_nil
  | cons g q ih =>
    obtain ⟨hs, hse, hq⟩ := h
    rcases mem_cons.mp hf with rfl | hf
    · exact ⟨hs, hse, hq.le⟩
    · obtain ⟨h1, h2, h3⟩ := ih hq hf
      exact ⟨by omega, h2, h3⟩

lemma ordered_append : Ordered s e a (q ++ q') c ↔ ∃ b, Ordered s e a q b ∧ Ordered s e b q' c := by
  induction q generalizing a with
  | nil =>
    constructor
    · intro h
      exact ⟨a, le_rfl, h⟩
    · intro ⟨b, hab, h⟩
      exact h.mono hab le_rfl
  | cons f q ih =>
    constructor
    · intro ⟨hs, hse, hq⟩
      obtain ⟨b, hb, hc⟩ := ih.mp hq
      exact ⟨b, ⟨hs, hse, hb⟩, hc⟩
    · intro ⟨b, ⟨hs, hse, hb⟩, hc⟩
      exact ⟨hs, hse, ih.mpr ⟨b, hb, hc⟩⟩

lemma Ordered.upTo (h : Ordered s e a q b) (hac : a ≤ c) (hc : ∀ f ∈ q, e f ≤ c) : Ordered s e a q c := by
  induction q generalizing a with
  | nil => exact hac
  | cons f q ih =>
    obtain ⟨hs, hse, hq⟩ := h
    exact ⟨hs, hse, ih hq (hc f mem_cons_self) fun g hg => hc g (mem_cons_of_mem _ hg)⟩

lemma Ordered.downTo (h : Ordered s e a q b) (hcb : c ≤ b) (hc : ∀ f ∈ q, c ≤ s f) : Ordered s e c q b := by
  cases q with
  | nil => exact hcb
  | cons f q => exact ⟨hc f mem_cons_self, h.2⟩

/-- only the segments in front of a position where one ends, and those behind it -/
lemma Ordered.apart {q1 q2 : List α} (h : Ordered s e a (q1 ++ f :: q2) b) :
    (∀ g ∈ q1, e g ≤ s f) ∧ ∀ g ∈ q2, e f ≤ s g := by
  obtain ⟨m, h1, hs, hse, h2⟩ := ordered_append.mp h
  exact ⟨fun g hg => (h1.bounds hg).2.2.trans hs, fun g hg => (h2.bounds hg).1⟩

section
variable (h : Ordered s e a q b)
include h

lemma Ordered.le_last (hf : q.getLast? = some f) : ∀ g ∈ q, e g ≤ e f := by
  obtain ⟨q', rfl⟩ := List.getLast?_eq_some_iff.mp hf
  intro g hg
  rcases mem_append.mp hg with hg | hg
  · have h1 := h.apart.1 g hg
    have h2 := (h.bounds (mem_append_right q' mem_cons_self)).2.1
    omega
  · rw [mem_singleton.mp hg]

lemma Ordered.sublist (hsub : q'.Sublist q) : Ordered s e a q' b := by
  induction hsub generalizing a with
  | slnil => exact h
  | cons f _ ih =>
    obtain ⟨hs, hse, hq⟩ := h
    exact (ih hq).mono (hs.trans hse) le_rfl
  | cons_cons f _ ih =>
    obtain ⟨hs, hse, hq⟩ := h
    exact ⟨hs, hse, ih hq⟩

lemma Ordered.split (x : Int) :
    (∀ f ∈ q.takeWhile fun f => !decide (x < s f), s f ≤ x) ∧ ∀ f ∈ q.dropWhile fun f => !decide (x < s f), x < s f := by
  constructor
  · intro f hf
    simpa using mem_takeWhile_imp hf
  · induction q generalizing a with
    | nil => exact nofun
    | cons g q ih =>
      obtain ⟨-, hse, hq⟩ := h
      by_cases hlt : x < s g
      · rw [dropWhile_cons_of_neg (by simpa using hlt)]
        intro f hf
        rcases mem_cons.mp hf with rfl | hf
        · exact hlt
        · have := (hq.bounds hf).1
          omega
      · rw [dropWhile_cons_of_pos (by simpa using hlt)]
        exact ih hq

lemma Ordered.trichotomy {g : α} (hf : f ∈ q) (hg : g ∈ q) :
    f = g ∨ e f ≤ s g ∨ e g ≤ s f := by
  induction q generalizing a with
  | nil => exact absurd hf not_mem_nil
  | cons k q ih =>
    obtain ⟨-, -, hq⟩ := h
    rcases mem_cons.mp hf with rfl | hf' <;> rcases mem_cons.mp hg with rfl | hg'
    · exact .inl rfl
    · exact .inr (.inl (hq.bounds hg').1)
    · exact .inr (.inr (hq.bounds hf').1)
    · exact ih hq hf' hg'

lemma Ordered.sum_le : (q.map fun f => e f - s f).sum ≤ b - a := by
  induction q generalizing a with
  | nil =>
    have hab : a ≤ b := h
    rw [map_nil, sum_nil]
    omega
  | cons f q ih =>
    obtain ⟨hs, hse, hq⟩ := h
    have hsum := ih hq
    rw [map_cons, sum_cons]
    omega

end

/-! ## tiling -/

lemma Ordered.tiles_of_sum (h : Ordered s e a q b) (hsum : b - a ≤ (q.map fun f => e f - s f).sum) :
    Tiles s e a q b := by
  induction q generalizing a with
  | nil =>
    have hab : a ≤ b := h
    rw [map_nil, sum_nil] at hsum
    exact le_antisymm hab (by omega)
  | cons f q ih =>
    obtain ⟨hs, hse, hq⟩ := h
    have hle := hq.sum_le
    rw [map_cons, sum_cons] at hsum
    exact ⟨by omega, hse, ih hq (by omega)⟩

lemma Ordered.tiles_of_covers (h : Ordered s e a q b) (hcov : ∀ x, a ≤ x → x < b → Covers s e q x) :
    Tiles s e a q b := by
  induction q generalizing a with
  | nil =>
    have hab : a ≤ b := h
    by_contra hne
    exact not_covers_nil (hcov a le_rfl (lt_of_le_of_ne hab hne))
  | cons f q ih =>
    obtain ⟨hs, hse, hq⟩ := h
    have hb := hq.le
    refine ⟨?_, hse, ih hq fun x hx hxb => ?_⟩
    · by_contra hne
      obtain ⟨g, hg, hga, hgb⟩ := hcov a le_rfl (by omega)
      rcases mem_cons.mp hg with rfl | hg
      · omega
      · have := (hq.bounds hg).1
        omega
    · rcases covers_cons.mp (hcov x (by omega) hxb) with hf | hcov
      · omega
      · exact hcov

lemma Tiles.sum (h : Tiles s e a q b) : (q.map fun f => e f - s f).sum = b - a := by
  induction q generalizing a with
  | nil =>
    have hab : a = b := h
    rw [map_nil, sum_nil]
    omega
  | cons f q ih =>
    obtain ⟨hs, hse, hq⟩ := h
    rw [map_cons, sum_cons, ih hq]
    omega

/-- the concatenation of what the segments hold has, at each position, what the segment there has -/
lemma Tiles.flatMap {g : α → List β} (h : Tiles s e a q b) (hlen : ∀ f ∈ q, ((g f).length : Int) = e f - s f) :
    ((q.flatMap g).length : Int) = b - a ∧ ∀ x, a ≤ x → x < b → ∃ f ∈ q, s f ≤ x ∧ x < e f ∧
        (q.flatMap g)[(x - a).toNat]? = (g f)[(x - s f).toNat]? := by
  induction q generalizing a with
  | nil =>
    have hab : a = b := h
    exact ⟨by rw [flatMap_nil, length_nil]; omega, fun x hx hxb => by omega⟩
  | cons f q ih =>
    obtain ⟨hs, hse, hq⟩ := h
    have hf := hlen f mem_cons_self
    obtain ⟨hq', hbyte⟩ := ih hq fun f hf => hlen f (mem_cons_of_mem _ hf)
    rw [flatMap_cons]
    refine ⟨by rw [length_append]; push_cast; omega, fun x hx hxb => ?_⟩
    by_cases hxf : x < e f
    · refine ⟨f, mem_cons_self, by omega, hxf, ?_⟩
      rw [List.getElem?_append_left (by omega), hs]
    · obtain ⟨f', hf', h1, h2, h3⟩ := hbyte x (by omega) hxb
      refine ⟨f', mem_cons_of_mem _ hf', h1, h2, ?_⟩
      rw [List.getElem?_append_right (by omega), ← h3]
      congr 1
      omega

end Segments
