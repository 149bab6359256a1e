import Mathlib.Data.List.Perm.Basic
import Mathlib.Tactic

/-!
# Labelled address ranges

A list of ranges of addresses, each with a label, that stands for a partial function from addresses to
labels.  Ranges include their last address.

* `Spans l M`: the ranges of `l` are disjoint and not empty, and stand for `M`; then `M` is `labelAt l`;
* `Spans.add`, `remove`, `perm`, `join`: the effect of changes to the list.
-/

variable {β : Type}

structure Region (β : Type) where
  lo : Nat
  hi : Nat
  label : β

namespace Region

def Covers (r : Region β) (a : Nat) : Prop := r.lo ≤ a ∧ a ≤ r.hi

instance (r : Region β) (a : Nat) : Decidable (r.Covers a) := inferInstanceAs (Decidable (_ ∧ _))

def Apart (r r' : Region β) : Prop := r.hi < r'.lo ∨ r'.hi < r.lo

lemma Apart.symm {r r' : Region β} (h : Apart r r') : Apart r' r := Or.symm h

end Region

namespace Regions

open List Nat

def labelAt (l : List (Region β)) (a : Nat) : Option β := (l.find? fun r => r.Covers a).map (·.label)

def paint (M : Nat → Option β) (lo hi : Nat) (v : β) (a : Nat) : Option β :=
  if lo ≤ a ∧ a ≤ hi then some v else M a

def wipe (M : Nat → Option β) (lo hi : Nat) (a : Nat) : Option β :=
  if lo ≤ a ∧ a ≤ hi then none else M a

/-- the ranges of `l` stand for `M` -/
structure Spans (l : List (Region β)) (M : Nat → Option β) : Prop where
  nonempty : ∀ r ∈ l, r.lo ≤ r.hi
  label : ∀ r ∈ l, ∀ a, r.Covers a → M a = some r.label
  complete : ∀ a, M a ≠ none → ∃ r ∈ l, r.Covers a
  apart : l.Pairwise Region.Apart

section
variable {l l' : List (Region β)} {M : Nat → Option β} {r : Region β} {lo hi a m : Nat} {v : β}

lemma paint_inside (h : lo ≤ a ∧ a ≤ hi) : paint M lo hi v a = some v := if_pos h

lemma paint_outside (h : ¬ (lo ≤ a ∧ a ≤ hi)) : paint M lo hi v a = M a := if_neg h

lemma wipe_inside (h : lo ≤ a ∧ a ≤ hi) : wipe M lo hi a = none := if_pos h

lemma wipe_outside (h : ¬ (lo ≤ a ∧ a ≤ hi)) : wipe M lo hi a = M a := if_neg h

/-- **the function is determined by the list** -/
theorem Spans.labelAt (h : Spans l M) : Regions.labelAt l = M := by
  funext a
  unfold Regions.labelAt
  cases hf : l.find? fun r => r.Covers a with
  | none =>
    by_contra hne
    obtain ⟨r, hr, ha⟩ := h.complete a (fun hM => hne (by rw [hM]; rfl))
    exact List.find?_eq_none.mp hf r hr (decide_eq_true ha)
  | some r =>
    have hr := mem_of_find?_eq_some hf
    have ha := List.find?_some hf
    exact (h.label r hr a (of_decide_eq_true ha)).symm

lemma spans_nil : Spans ([] : List (Region β)) fun _ => none where
  nonempty := fun _ hr => absurd hr not_mem_nil
  label := fun _ hr => absurd hr not_mem_nil
  complete := fun _ ha => absurd rfl ha
  apart := List.Pairwise.nil

lemma Spans.perm (h : Spans l M) (hp : l.Perm l') : Spans l' M where
  nonempty := fun r hr => h.nonempty r (hp.mem_iff.mpr hr)
  label := fun r hr => h.label r (hp.mem_iff.mpr hr)
  complete := by
    intro a ha
    obtain ⟨r, hr, hra⟩ := h.complete a ha
    exact ⟨r, hp.mem_iff.mp hr, hra⟩
  apart := hp.pairwise h.apart (fun hxy => hxy.symm)

lemma Spans.add (h : Spans l M) (hle : lo ≤ hi) (hM : ∀ a, lo ≤ a → a ≤ hi → M a = none) :
    Spans (⟨lo, hi, v⟩ :: l) (paint M lo hi v) where
  nonempty := by
    intro r hr
    rcases mem_cons.mp hr with rfl | hr
    · exact hle
    · exact h.nonempty r hr
  label := by
    intro r hr a ha
    rcases mem_cons.mp hr with rfl | hr
    · exact paint_inside ha
    · have hMa := h.label r hr a ha
      rw [paint_outside, hMa]
      intro hin
      rw [hM a hin.1 hin.2] at hMa
      cases hMa
  complete := by
    intro a ha
    by_cases hin : lo ≤ a ∧ a ≤ hi
    · exact ⟨_, mem_cons_self, hin⟩
    · rw [paint_outside hin] at ha
      obtain ⟨r, hr, hra⟩ := h.complete a ha
      exact ⟨r, mem_cons_of_mem _ hr, hra⟩
  apart := by
    refine pairwise_cons.mpr ⟨fun r hr => ?_, h.apart⟩
    -- otherwise the larger of the two starts would be in both ranges
    by_contra hnot
    unfold Region.Apart at hnot
    rw [not_or, not_lt, not_lt] at hnot
    have hr1 := h.nonempty r hr
    have hmax : r.Covers (max lo r.lo) := ⟨le_max_right _ _, max_le hnot.2 hr1⟩
    have hMa := h.label r hr _ hmax
    rw [hM _ (le_max_left _ _) (max_le hle hnot.1)] at hMa
    cases hMa

lemma Spans.remove (h : Spans (r :: l) M) : Spans l (wipe M r.lo r.hi) where
  nonempty := fun x hx => h.nonempty x (mem_cons_of_mem _ hx)
  label := by
    intro x hx a ha
    have hapart := (pairwise_cons.mp h.apart).1 x hx
    unfold Region.Apart at hapart
    have hout : ¬ (r.lo ≤ a ∧ a ≤ r.hi) := by
      have h1 := ha.1
      have h2 := ha.2
      omega
    rw [wipe_outside hout]
    exact h.label x (mem_cons_of_mem _ hx) a ha
  complete := by
    intro a ha
    by_cases hin : r.lo ≤ a ∧ a ≤ r.hi
    · exact absurd (wipe_inside hin) ha
    · rw [wipe_outside hin] at ha
      obtain ⟨x, hx, hxa⟩ := h.complete a ha
      rcases mem_cons.mp hx with rfl | hx
      · exact absurd hxa hin
      · exact ⟨x, hx, hxa⟩
  apart := (pairwise_cons.mp h.apart).2

lemma Spans.join (h : Spans (⟨lo, m, v⟩ :: ⟨m + 1, hi, v⟩ :: l) M) : Spans (⟨lo, hi, v⟩ :: l) M := by
  have h1 : lo ≤ m := h.nonempty _ mem_cons_self
  have h2 : m + 1 ≤ hi := h.nonempty ⟨m + 1, hi, v⟩ (mem_cons_of_mem _ mem_cons_self)
  have hapart := h.apart
  rw [pairwise_cons, pairwise_cons] at hapart
  obtain ⟨hl, hr, hrest⟩ := hapart
  refine ⟨?_, ?_, ?_, ?_⟩
  · intro r hr
    rcases mem_cons.mp hr with rfl | hr
    · exact (h1.trans (le_succ m)).trans h2
    · exact h.nonempty r (mem_cons_of_mem _ (mem_cons_of_mem _ hr))
  · intro r hr a ha
    rcases mem_cons.mp hr with rfl | hr
    · rcases lt_or_ge m a with hm | hm
      · exact h.label ⟨m + 1, hi, v⟩ (mem_cons_of_mem _ mem_cons_self) a ⟨hm, ha.2⟩
      · exact h.label ⟨lo, m, v⟩ mem_cons_self a ⟨ha.1, hm⟩
    · exact h.label r (mem_cons_of_mem _ (mem_cons_of_mem _ hr)) a ha
  · intro a ha
    obtain ⟨r, hr, hra⟩ := h.complete a ha
    rcases mem_cons.mp hr with rfl | hr
    · exact ⟨_, mem_cons_self, hra.1, hra.2.trans ((le_succ m).trans h2)⟩
    rcases mem_cons.mp hr with rfl | hr
    · exact ⟨_, mem_cons_self, (h1.trans (le_succ m)).trans hra.1, hra.2⟩
    · exact ⟨r, mem_cons_of_mem _ hr, hra⟩
  · refine pairwise_cons.mpr ⟨fun x hx => ?_, hrest⟩
    have hx1 := hl x (mem_cons_of_mem _ hx)
    have hx2 := hr x hx
    have hx3 := h.nonempty x (mem_cons_of_mem _ (mem_cons_of_mem _ hx))
    show hi < x.lo ∨ x.hi < lo
    change m < x.lo ∨ x.hi < lo at hx1
    change hi < x.lo ∨ x.hi < m + 1 at hx2
    omega

end

end Regions
