import Audk.Ue.Relocate

/-!
# Relocation tables as lists of roots

A table without chains is the encoding of a list of roots.  The first phase of the relocation writes
such a table, head by head; the second phase reads it.

* `headSpots`, `rootSpots`: the types and targets of the fixups that a table describes;
* `Between`, `InRoot`: what a runtime context holds between two roots and inside of one.
-/

namespace Audk.Ue

open Bytes Arith List Nat

structure Head where
  relocType : Nat
  next : Nat

structure Root where
  first : Nat
  heads : List Head

def Head.info (h : Head) : Nat := h.next * 2^4 + h.relocType

def Head.width (h : Head) : Nat := (relocWidth h.relocType).getD 0

/-- from the end of the fixup to the next one; the last fixup of a root has none -/
def Head.advance (h : Head) : Nat := if h.next = ueFixupOffsetEnd then 0 else h.next

/-! ## encoding -/

def HeadsAt (m : Mem) : Nat → List Head → Prop
  | _, [] => True
  | off, h :: hs => le m off 2 = h.info ∧ HeadsAt m (off + 2) hs

def Root.size (r : Root) : Nat := roundUp (4 + 2 * r.heads.length) 4

def rootsSize : List Root → Nat
  | [] => 0
  | r :: rs => r.size + rootsSize rs

def RootAt (m : Mem) (off : Nat) (r : Root) : Prop := le m off 4 = r.first ∧ HeadsAt m (off + 4) r.heads

def RootsAt (m : Mem) : Nat → List Root → Prop
  | _, [] => True
  | off, r :: rs => RootAt m off r ∧ RootsAt m (off + r.size) rs

section
variable {m m' : Mem} {off : Nat}

lemma Root.le_size (r : Root) : 4 + 2 * r.heads.length ≤ r.size := le_roundUp _ (by decide)

lemma Root.size_le (r : Root) : r.size ≤ 6 + 2 * r.heads.length := by
  have h := roundUp_lt (4 + 2 * r.heads.length) (show 0 < 4 by decide)
  have hd : 4 ∣ roundUp (4 + 2 * r.heads.length) 4 := dvd_roundUp _ _
  unfold Root.size
  omega

lemma rootsSize_append (rs ts : List Root) : rootsSize (rs ++ ts) = rootsSize rs + rootsSize ts := by
  induction rs with
  | nil => exact (zero_add _).symm
  | cons r rs ih => rw [cons_append, rootsSize, rootsSize, ih, add_assoc]

lemma dvd_rootsSize (rs : List Root) : 4 ∣ rootsSize rs := by
  induction rs with
  | nil => exact dvd_zero 4
  | cons r rs ih => exact (Nat.dvd_add_right (dvd_roundUp _ _)).mpr ih

lemma headsAt_append (hs ts : List Head) :
    HeadsAt m off (hs ++ ts) ↔ HeadsAt m off hs ∧ HeadsAt m (off + 2 * hs.length) ts := by
  induction hs generalizing off with
  | nil => simp [HeadsAt]
  | cons h hs ih =>
    rw [cons_append, HeadsAt, HeadsAt, ih, and_assoc, length_cons,
      show off + 2 + 2 * hs.length = off + 2 * (hs.length + 1) by omega]

lemma rootsAt_append (rs ts : List Root) :
    RootsAt m off (rs ++ ts) ↔ RootsAt m off rs ∧ RootsAt m (off + rootsSize rs) ts := by
  induction rs generalizing off with
  | nil => simp [RootsAt, rootsSize]
  | cons r rs ih =>
    rw [cons_append, RootsAt, RootsAt, ih, and_assoc, rootsSize, ← add_assoc]

lemma HeadsAt.congr {hs : List Head} (h : HeadsAt m off hs)
    (hm : SameOn m m' off (off + 2 * hs.length)) : HeadsAt m' off hs := by
  induction hs generalizing off with
  | nil => trivial
  | cons x hs ih =>
    rw [length_cons] at hm
    refine ⟨?_, ih h.2 (hm.mono (by omega) (by omega))⟩
    rw [← h.1]
    exact (le_congr (hm.mono le_rfl (by omega))).symm

lemma RootsAt.congr {rs : List Root} (h : RootsAt m off rs)
    (hm : SameOn m m' off (off + rootsSize rs)) : RootsAt m' off rs := by
  induction rs generalizing off with
  | nil => trivial
  | cons r rs ih =>
    have hr := r.le_size
    rw [rootsSize] at hm
    refine ⟨⟨?_, h.1.2.congr (hm.mono (by omega) (by omega))⟩, ih h.2 (hm.mono (by omega) (by omega))⟩
    rw [← h.1.1]
    exact (le_congr (hm.mono le_rfl (by omega))).symm

/-! ## fixups -/

/-- the types and targets of the fixups of a root, from the target of the first one on -/
def headSpots : Nat → List Head → List (Nat × Nat)
  | _, [] => []
  | t, h :: hs => (h.relocType, t) :: headSpots (t + h.width + h.advance) hs

def headEnd : Nat → List Head → Nat
  | t, [] => t
  | t, h :: hs => headEnd (t + h.width + h.advance) hs

def rootSpots : Nat → List Root → List (Nat × Nat)
  | _, [] => []
  | t, r :: rs => headSpots (t + r.first) r.heads ++ rootSpots (headEnd (t + r.first) r.heads) rs

def rootEnd : Nat → List Root → Nat
  | t, [] => t
  | t, r :: rs => rootEnd (headEnd (t + r.first) r.heads) rs

lemma headSpots_append (t : Nat) (hs ts : List Head) :
    headSpots t (hs ++ ts) = headSpots t hs ++ headSpots (headEnd t hs) ts := by
  induction hs generalizing t with
  | nil => rfl
  | cons h hs ih => rw [cons_append, headSpots, headSpots, ih, cons_append, headEnd]

lemma headEnd_append (t : Nat) (hs ts : List Head) : headEnd t (hs ++ ts) = headEnd (headEnd t hs) ts := by
  induction hs generalizing t with
  | nil => rfl
  | cons h hs ih => rw [cons_append, headEnd, headEnd, ih]

lemma rootSpots_append (t : Nat) (rs ts : List Root) :
    rootSpots t (rs ++ ts) = rootSpots t rs ++ rootSpots (rootEnd t rs) ts := by
  induction rs generalizing t with
  | nil => rfl
  | cons r rs ih => rw [cons_append, rootSpots, rootSpots, ih, append_assoc, rootEnd]

lemma rootEnd_append (t : Nat) (rs ts : List Root) : rootEnd t (rs ++ ts) = rootEnd (rootEnd t rs) ts := by
  induction rs generalizing t with
  | nil => rfl
  | cons r rs ih => rw [cons_append, rootEnd, rootEnd, ih]

lemma headSpots_length (t : Nat) (hs : List Head) : (headSpots t hs).length = hs.length := by
  induction hs generalizing t with
  | nil => rfl
  | cons h hs ih => rw [headSpots, length_cons, length_cons, ih]

lemma rootsSize_le (t : Nat) (rs : List Root) : rootsSize rs ≤ 6 * rs.length + 2 * (rootSpots t rs).length := by
  induction rs generalizing t with
  | nil => exact le_rfl
  | cons r rs ih =>
    have h1 := ih (headEnd (t + r.first) r.heads)
    have h2 := r.size_le
    rw [rootsSize, rootSpots, length_cons, length_append, headSpots_length]
    omega

lemma length_le_rootsSize (rs : List Root) : rs.length ≤ rootsSize rs := by
  induction rs with
  | nil => exact le_rfl
  | cons r rs ih =>
    have := r.le_size
    rw [rootsSize, length_cons]
    omega

lemma rootsSize_eq_zero {rs : List Root} : rootsSize rs = 0 ↔ rs = [] := by
  refine ⟨fun h => ?_, fun h => h ▸ rfl⟩
  cases rs with
  | nil => rfl
  | cons r rs =>
    have := r.le_size
    rw [rootsSize] at h
    omega

/-! ## the table of a runtime context -/

/-- the context holds complete roots -/
structure Between (c : RuntimeContext) (rs : List Root) : Prop where
  size : c.unchainedRelocsSize = rootsSize rs
  roots : RootsAt c.unchainedRelocs 0 rs

/-- behind complete roots, the context holds the beginning of another one -/
structure InRoot (c : RuntimeContext) (rs : List Root) (first : Nat) (hs : List Head) : Prop where
  size : c.unchainedRelocsSize = rootsSize rs + 4 + 2 * hs.length
  roots : RootsAt c.unchainedRelocs 0 rs
  root : le c.unchainedRelocs (rootsSize rs) 4 = first
  heads : HeadsAt c.unchainedRelocs (rootsSize rs + 4) hs

lemma RuntimeContext.append_table (c : RuntimeContext) (size value : Nat) (d : Option Nat) :
    (c.append size value d).unchainedRelocs = put c.unchainedRelocs c.unchainedRelocsSize size value ∧
      (c.append size value d).unchainedRelocsSize = add32 c.unchainedRelocsSize size := by
  cases d <;> exact ⟨rfl, rfl⟩

variable {c : RuntimeContext} {rs : List Root} {first : Nat} {hs : List Head} {h : Head}

lemma Between.append_root (hc : Between c rs) (hlt : rootsSize rs + 4 < 2^32) (hfirst : first < 2^32) :
    InRoot (c.append sizeofUeFixupRoot first none) rs first [] := by
  obtain ⟨htab, hsize⟩ := c.append_table sizeofUeFixupRoot first none
  rw [hc.size] at htab hsize
  exact {
    size := hsize.trans (add32_eq hlt)
    roots := by
      rw [htab]
      exact hc.roots.congr (sameOn_put (.inl (by omega))).symm
    root := by
      rw [htab]
      exact (le_put_same _ _ _ _).trans (mod_eq_of_lt hfirst)
    heads := trivial }

lemma InRoot.append_head (hc : InRoot c rs first hs)
    (hlt : rootsSize rs + 4 + 2 * hs.length + 2 < 2^32) (hinfo : h.info < 2^16) (d : Option Nat) :
    InRoot (c.append sizeofUeHead h.info d) rs first (hs ++ [h]) := by
  obtain ⟨htab, hsize⟩ := c.append_table sizeofUeHead h.info d
  rw [hc.size] at htab hsize
  have hlen : (hs ++ [h]).length = hs.length + 1 := length_append
  exact {
    size := by
      rw [hsize, hlen]
      exact (add32_eq hlt).trans (by
        show _ + 2 = _
        omega)
    roots := by
      rw [htab]
      exact hc.roots.congr (sameOn_put (.inl (by omega))).symm
    root := by
      rw [htab, le_put_disjoint _ (.inl (by omega))]
      exact hc.root
    heads := by
      rw [htab, headsAt_append]
      refine ⟨hc.heads.congr (sameOn_put (.inl (by omega))).symm, ?_, trivial⟩
      exact (le_put_same _ _ _ _).trans (mod_eq_of_lt hinfo) }

section
variable (hc : InRoot c rs first (hs ++ [h]))
include hc

lemma InRoot.last (hlt : c.unchainedRelocsSize < 2^32) :
    sub32 c.unchainedRelocsSize sizeofUeHead = rootsSize rs + 4 + 2 * hs.length ∧
      le c.unchainedRelocs (rootsSize rs + 4 + 2 * hs.length) 2 = h.info := by
  have hsize := hc.size
  rw [length_append, length_singleton] at hsize
  have h2 : sizeofUeHead = 2 := rfl
  refine ⟨?_, ((headsAt_append hs [h]).mp hc.heads).2.1⟩
  rw [sub32_eq (by omega) hlt]
  omega

lemma InRoot.replace_last {m : Mem} {h' : Head}
    (hm : m = put c.unchainedRelocs (rootsSize rs + 4 + 2 * hs.length) 2 h'.info) (hinfo : h'.info < 2^16) :
    RootsAt m 0 rs ∧ le m (rootsSize rs) 4 = first ∧ HeadsAt m (rootsSize rs + 4) (hs ++ [h']) := by
  subst hm
  refine ⟨hc.roots.congr (sameOn_put (.inl (by omega))).symm, ?_, ?_⟩
  · rw [le_put_disjoint _ (.inl (by omega))]
    exact hc.root
  · rw [headsAt_append]
    refine ⟨((headsAt_append hs [h]).mp hc.heads).1.congr (sameOn_put (.inl (by omega))).symm, ?_, trivial⟩
    exact (le_put_same _ _ _ _).trans (mod_eq_of_lt hinfo)

lemma InRoot.setOffset_eq (hlt : c.unchainedRelocsSize < 2^32)
    (htype : h.relocType < 2^4) (o : Nat) : c.setOffset o =
      if o = ueFixupOffsetEnd ∧ alignValueAddend c.unchainedRelocsSize sizeofUeFixupRoot ≠ 0 then { c with
          unchainedRelocs := Bytes.zero (put c.unchainedRelocs (rootsSize rs + 4 + 2 * hs.length) 2
            (Head.mk h.relocType o).info) c.unchainedRelocsSize
            (alignValueAddend c.unchainedRelocsSize sizeofUeFixupRoot)
          unchainedRelocsSize := add32 c.unchainedRelocsSize
            (alignValueAddend c.unchainedRelocsSize sizeofUeFixupRoot) }
      else
        { c with
          unchainedRelocs := put c.unchainedRelocs (rootsSize rs + 4 + 2 * hs.length) 2
            (Head.mk h.relocType o).info } := by
  obtain ⟨hindex, hlast⟩ := hc.last hlt
  have hinfo : o * 2^4 + h.info % 2^4 = (Head.mk h.relocType o).info := by
    show o * 2^4 + (h.next * 2^4 + h.relocType) % 2^4 = o * 2^4 + h.relocType
    omega
  simp only [RuntimeContext.setOffset, hindex, hlast, hinfo]

lemma InRoot.setOffset_next (hlt : c.unchainedRelocsSize < 2^32)
    (htype : h.relocType < 2^4) {o : Nat} (ho : o < 2^12) (hne : o ≠ ueFixupOffsetEnd) :
    InRoot (c.setOffset o) rs first (hs ++ [⟨h.relocType, o⟩]) := by
  have hinfo : (Head.mk h.relocType o).info < 2^16 := by
    show o * 2^4 + h.relocType < 2^16
    omega
  rw [hc.setOffset_eq hlt htype, if_neg fun hc => hne hc.1]
  obtain ⟨h1, h2, h3⟩ := hc.replace_last rfl hinfo
  refine ⟨?_, h1, h2, h3⟩
  have := hc.size
  rw [length_append] at this ⊢
  exact this

lemma InRoot.setOffset_end (hlt : c.unchainedRelocsSize + 2 < 2^32) (htype : h.relocType < 2^4) : Between (c.setOffset ueFixupOffsetEnd)
      (rs ++ [⟨first, hs ++ [⟨h.relocType, ueFixupOffsetEnd⟩]⟩]) := by
  have hinfo : (Head.mk h.relocType ueFixupOffsetEnd).info < 2^16 := by
    show 0xFFF * 2^4 + h.relocType < 2^16
    omega
  have hlen : (hs ++ [Head.mk h.relocType ueFixupOffsetEnd]).length = hs.length + 1 := length_append
  have hsize := hc.size
  rw [length_append, length_singleton] at hsize
  -- the padded size is the size of the root
  have hadd : c.unchainedRelocsSize + alignValueAddend c.unchainedRelocsSize sizeofUeFixupRoot =
      rootsSize (rs ++ [⟨first, hs ++ [⟨h.relocType, ueFixupOffsetEnd⟩]⟩]) := by
    rw [add_alignValueAddend (by decide) (by decide) (by omega), rootsSize_append, hsize, add_assoc]
    show roundUp (rootsSize rs + (4 + 2 * (hs.length + 1))) 4 = rootsSize rs + (roundUp _ 4 + 0)
    rw [hlen]
    exact roundUp_add _ (by decide) (dvd_rootsSize rs)
  have hpad : ∀ m : Mem, RootsAt m 0 rs → le m (rootsSize rs) 4 = first →
      HeadsAt m (rootsSize rs + 4) (hs ++ [⟨h.relocType, ueFixupOffsetEnd⟩]) →
      RootsAt m 0 (rs ++ [⟨first, hs ++ [⟨h.relocType, ueFixupOffsetEnd⟩]⟩]) := by
    intro m h1 h2 h3
    rw [rootsAt_append, zero_add]
    exact ⟨h1, ⟨h2, h3⟩, trivial⟩
  obtain ⟨h1, h2, h3⟩ := hc.replace_last rfl hinfo
  rw [hc.setOffset_eq (by omega) htype]
  by_cases h0 : alignValueAddend c.unchainedRelocsSize sizeofUeFixupRoot = 0
  · rw [if_neg fun hc => hc.2 h0]
    refine ⟨?_, hpad _ h1 h2 h3⟩
    rw [h0] at hadd
    exact hadd
  rw [if_pos ⟨rfl, h0⟩]
  have hzero : ∀ {m : Mem} {lo hi : Nat}, hi ≤ c.unchainedRelocsSize →
      SameOn m (Bytes.zero m c.unchainedRelocsSize
        (alignValueAddend c.unchainedRelocsSize sizeofUeFixupRoot)) lo hi := by
    intro m lo hi hle i _ hi'
    exact (if_neg (by omega)).symm
  refine ⟨?_, hpad _ (h1.congr (hzero (by omega))) ?_ (h3.congr (hzero (by rw [hlen]; omega)))⟩
  · show add32 c.unchainedRelocsSize _ = _
    rw [← hadd]
    refine add32_eq ?_
    rw [hadd, rootsSize_append]
    have hr := Root.size_le ⟨first, hs ++ [⟨h.relocType, ueFixupOffsetEnd⟩]⟩
    simp only [rootsSize, hlen] at hr ⊢
    omega
  · rw [← h2]
    exact (le_congr (hzero (by omega))).symm

end

end

end Audk.Ue
