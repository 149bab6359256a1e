import Mathlib.Data.List.Basic
import Mathlib.Data.List.Chain

/-!
# Pieces that are joined where they fit

Pieces come one after the other.  A piece that fits the last one is joined to it, and another one is appended.

* `forall_collect`, `pairwise_collect`: they keep their properties and stay in order;
* `isChain_collect`: no two neighbors fit.
-/

namespace Coalesce

open List

section
variable {α β : Type} (Joins : α → α → Prop) [DecidableRel Joins] (join : α → α → α)

def add (l : List α) (x : α) : List α :=
  match l.getLast? with
  | none => [x]
  | some y => if Joins y x then l.dropLast ++ [join y x] else l ++ [x]

def collect (l xs : List α) : List α := xs.foldl (add Joins join) l

lemma add_concat (l : List α) (y x : α) :
    add Joins join (l ++ [y]) x = if Joins y x then l ++ [join y x] else l ++ [y] ++ [x] := by
  unfold add
  rw [List.getLast?_concat, dropLast_concat]

lemma mem_collect {Covers : α → β → Prop}
    (hjoin : ∀ x y b, Joins x y → (Covers (join x y) b ↔ Covers x b ∨ Covers y b)) (l xs : List α) (b : β) :
    (∃ x ∈ collect Joins join l xs, Covers x b) ↔ ∃ x ∈ l ++ xs, Covers x b := by
  induction xs generalizing l with
  | nil => rw [append_nil]; rfl
  | cons x xs ih =>
    refine (ih (add Joins join l x)).trans ?_
    rcases eq_nil_or_concat' l with rfl | ⟨l, y, rfl⟩
    · rfl
    rw [add_concat]
    split_ifs with hfits
    · simp only [mem_append, mem_cons, not_mem_nil, or_false, or_and_right, exists_or,
        exists_eq_left, hjoin y x b hfits]
      simp only [or_assoc]
    · rw [append_assoc, append_assoc, append_assoc]
      rfl

lemma forall_collect {P : α → Prop} (hjoin : ∀ x y, Joins x y → P x → P (join x y)) (l xs : List α)
    (h : ∀ x ∈ l ++ xs, P x) : ∀ x ∈ collect Joins join l xs, P x := by
  induction xs generalizing l with
  | nil => rwa [append_nil] at h
  | cons x xs ih =>
    refine ih (add Joins join l x) fun z hz => ?_
    rcases eq_nil_or_concat' l with rfl | ⟨l, y, rfl⟩
    · exact h z hz
    rw [add_concat] at hz
    split_ifs at hz with hfits
    · simp only [mem_append, mem_singleton] at hz
      rcases hz with (hz | rfl) | hz
      · exact h z (by simp [hz])
      · exact hjoin y x hfits (h y (by simp))
      · exact h z (by simp [hz])
    · exact h z (by simpa using hz)

lemma pairwise_collect {R : α → α → Prop} (hleft : ∀ x y z, Joins x y → R z x → R z (join x y))
    (hright : ∀ x y z, Joins x y → R y z → R (join x y) z) (l xs : List α) (h : (l ++ xs).Pairwise R) :
    (collect Joins join l xs).Pairwise R := by
  induction xs generalizing l with
  | nil => rwa [append_nil] at h
  | cons x xs ih =>
    refine ih (add Joins join l x) ?_
    rcases eq_nil_or_concat' l with rfl | ⟨l, y, rfl⟩
    · exact h
    rw [add_concat]
    split_ifs with hfits
    · rw [append_assoc, pairwise_append] at h ⊢
      obtain ⟨hl, hxs, hlx⟩ := h
      obtain ⟨-, hxs⟩ := pairwise_cons.mp hxs
      obtain ⟨hx, hxs⟩ := pairwise_cons.mp hxs
      refine ⟨hl, pairwise_cons.mpr ⟨fun z hz => hright y x z hfits (hx z hz), hxs⟩, fun z hz w hw => ?_⟩
      rcases mem_cons.mp hw with rfl | hw
      · exact hleft y x z hfits (hlx z hz y mem_cons_self)
      · exact hlx z hz w (mem_cons_of_mem _ (mem_cons_of_mem _ hw))
    · rwa [append_assoc]

lemma isChain_collect (hleft : ∀ x y z, Joins x y → Joins z (join x y) → Joins z x) (l xs : List α)
    (h : l.IsChain fun x y => ¬ Joins x y) : (collect Joins join l xs).IsChain fun x y => ¬ Joins x y := by
  induction xs generalizing l with
  | nil => exact h
  | cons x xs ih =>
    refine ih (add Joins join l x) ?_
    rcases eq_nil_or_concat' l with rfl | ⟨l, y, rfl⟩
    · exact isChain_singleton x
    rw [add_concat]
    split_ifs with hfits
    · rw [isChain_append] at h ⊢
      refine ⟨h.1, isChain_singleton _, fun z hz w hw hzw => ?_⟩
      obtain rfl : join y x = w := Option.some.inj hw
      exact h.2.2 z hz y rfl (hleft y x z hfits hzw)
    rw [isChain_append]
    refine ⟨h, isChain_singleton _, fun z hz w hw => ?_⟩
    rw [List.getLast?_concat] at hz
    obtain rfl : y = z := Option.some.inj hz
    obtain rfl : x = w := Option.some.inj hw
    exact hfits

end

end Coalesce
