import Mathlib.Data.List.Perm.Basic
import Mathlib.Logic.Function.Basic

/-!
# Items listed under their keys

An index keeps, for some keys, the list of the items that have the key.  `Indexed list key` says that
the lists and the keys of the items agree, and that every item is listed once.

* `Indexed.insert`, `Indexed.erase`: an item is added or removed in its list and in the items;
* `Indexed.opened`, `Indexed.closed`: a key gets an empty list, or loses it.
-/

set_option linter.unusedSectionVars false

section
variable {α κ : Type} [DecidableEq α]

/-- every item with a key is listed once under that key, and nothing else is listed -/
structure Indexed (list : κ → Option (List α)) (key : α → Option κ) : Prop where
  keyed : ∀ {k l a}, list k = some l → a ∈ l → key a = some k
  once : ∀ {a k}, key a = some k → ∃ l, list k = some l ∧ l.count a = 1

end

namespace Indexed

open List Function

variable {α κ : Type} [DecidableEq α] [DecidableEq κ]
variable {list : κ → Option (List α)} {key : α → Option κ} {k : κ} {l l' : List α} {a : α}

section
variable (h : Indexed list key)
include h

lemma not_mem (ha : key a = none) (hl : list k = some l) : a ∉ l := by
  intro hm
  rw [h.keyed hl hm] at ha
  cases ha

lemma mem (ha : key a = some k) (hl : list k = some l) : a ∈ l := by
  obtain ⟨l', hl', hc⟩ := h.once ha
  rw [hl] at hl'
  cases hl'
  exact count_pos_iff.mp (by omega)

lemma not_keyed (hk : list k = none) (b : α) : key b ≠ some k := by
  intro hb
  obtain ⟨l, hl, _⟩ := h.once hb
  rw [hk] at hl
  cases hl

lemma opened (hk : list k = none) : Indexed (Function.update list k (some [])) key where
  keyed := by
    intro k' l b hl hb
    by_cases e : k' = k
    · subst e
      rw [update_self] at hl
      cases hl
      cases hb
    · rw [update_of_ne e] at hl
      exact h.keyed hl hb
  once := by
    intro b k' hb
    have e : k' ≠ k := by
      rintro rfl
      exact h.not_keyed hk b hb
    rw [update_of_ne e]
    exact h.once hb

lemma closed (hk : list k = some []) : Indexed (Function.update list k none) key where
  keyed := by
    intro k' l b hl hb
    by_cases e : k' = k
    · subst e
      rw [update_self] at hl
      cases hl
    · rw [update_of_ne e] at hl
      exact h.keyed hl hb
  once := by
    intro b k' hb
    have e : k' ≠ k := by
      rintro rfl
      cases h.mem hb hk
    rw [update_of_ne e]
    exact h.once hb

lemma insert (ha : key a = none) (hl : list k = some l) (hp : l'.Perm (a :: l)) :
    Indexed (Function.update list k (some l')) (Function.update key a (some k)) where
  keyed := by
    intro k' m b hm hb
    by_cases eb : b = a
    · subst eb
      rw [update_self]
      by_cases ek : k' = k
      · rw [ek]
      · rw [update_of_ne ek] at hm
        exact absurd hb (h.not_mem ha hm)
    · rw [update_of_ne eb]
      by_cases ek : k' = k
      · subst ek
        rw [update_self] at hm
        cases hm
        rcases mem_cons.mp (hp.mem_iff.mp hb) with hba | hb'
        · exact absurd hba eb
        · exact h.keyed hl hb'
      · rw [update_of_ne ek] at hm
        exact h.keyed hm hb
  once := by
    intro b k' hb
    by_cases eb : b = a
    · subst eb
      rw [update_self] at hb
      cases hb
      refine ⟨l', update_self .., ?_⟩
      rw [hp.count_eq, count_cons_self, count_eq_zero_of_not_mem (h.not_mem ha hl)]
    · rw [update_of_ne eb] at hb
      obtain ⟨m, hm, hc⟩ := h.once hb
      by_cases ek : k' = k
      · subst ek
        rw [hl] at hm
        cases hm
        refine ⟨l', update_self .., ?_⟩
        rw [hp.count_eq, count_cons_of_ne (Ne.symm eb), hc]
      · exact ⟨m, by rw [update_of_ne ek, hm], hc⟩

lemma erase (ha : key a = some k) (hl : list k = some l) :
    Indexed (Function.update list k (some (l.erase a))) (Function.update key a none) where
  keyed := by
    intro k' m b hm hb
    have hba : b ≠ a := by
      rintro rfl
      by_cases ek : k' = k
      · subst ek
        rw [update_self] at hm
        cases hm
        obtain ⟨l', hl', hc⟩ := h.once ha
        rw [hl] at hl'
        cases hl'
        have := count_pos_iff.mpr hb
        rw [count_erase_self] at this
        omega
      · rw [update_of_ne ek] at hm
        have := h.keyed hm hb
        rw [ha] at this
        cases this
        exact ek rfl
    rw [update_of_ne hba]
    by_cases ek : k' = k
    · subst ek
      rw [update_self] at hm
      cases hm
      exact h.keyed hl (mem_of_mem_erase hb)
    · rw [update_of_ne ek] at hm
      exact h.keyed hm hb
  once := by
    intro b k' hb
    have hba : b ≠ a := by
      rintro rfl
      rw [update_self] at hb
      cases hb
    rw [update_of_ne hba] at hb
    obtain ⟨m, hm, hc⟩ := h.once hb
    by_cases ek : k' = k
    · subst ek
      rw [hl] at hm
      cases hm
      refine ⟨l.erase a, update_self .., ?_⟩
      rw [count_erase_of_ne hba, hc]
    · exact ⟨m, by rw [update_of_ne ek, hm], hc⟩

end

end Indexed
