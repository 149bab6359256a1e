import Audk.Lib.Regions
import Audk.Mem.Page

/-!
# The list of map descriptors as a partial function

`MapOk l d M`: the descriptors of the list `l` are whole pages, disjoint, and stand for the map `M` from
addresses to type and attributes; the stack descriptors among them are different and below `d`.

* `findEntry_some`, `findEntry_none`: the search for an address;
* `MapOk.pop`: a stack descriptor becomes a heap descriptor.
-/

namespace Audk.Mem

open Prog Regions List Option Nat

abbrev Label := Nat × Nat

def MapNode.region (n : MapNode) : Region Label := ⟨n.entry.start, n.entry.end_, (n.entry.type, n.entry.attr)⟩

/-- a range of whole pages that does not reach the end of the address space -/
structure WholePages (lo hi : Nat) : Prop where
  lo_aligned : efiPageSize ∣ lo
  hi_aligned : efiPageSize ∣ hi + 1
  nonempty : lo ≤ hi
  hi_lt : hi + 1 < 2^64

/-- the stack descriptors of the list -/
structure StackOk (l : List MapNode) (d : Nat) : Prop where
  lt : ∀ n ∈ l, ∀ i, n.place = .stack i → i < d
  unique : l.Pairwise fun m n => ∀ i, m.place = .stack i → n.place ≠ .stack i

structure MapOk (l : List MapNode) (d : Nat) (M : Nat → Option Label) : Prop where
  spans : Spans (l.map MapNode.region) M
  paged : ∀ n ∈ l, WholePages n.entry.start n.entry.end_
  stack : StackOk l d

section
variable {l l' : List MapNode} {d : Nat} {M : Nat → Option Label} {n : MapNode}

lemma StackOk.perm (h : StackOk l d) (hp : l.Perm l') : StackOk l' d where
  lt := fun n hn => h.lt n (hp.mem_iff.mpr hn)
  unique := hp.pairwise h.unique fun hxy i hi hx => hxy i hx hi

lemma StackOk.sublist (h : StackOk l d) (hs : l'.Sublist l) : StackOk l' d where
  lt := fun n hn => h.lt n (hs.subset hn)
  unique := h.unique.sublist hs

lemma MapOk.perm (h : MapOk l d M) (hp : l.Perm l') : MapOk l' d M where
  spans := h.spans.perm (hp.map _)
  paged := fun n hn => h.paged n (hp.mem_iff.mpr hn)
  stack := h.stack.perm hp

lemma StackOk.push (h : StackOk l d) (hn : n.place = .stack d) : StackOk (n :: l) (d + 1) where
  lt := by
    intro m hm i hi
    rcases mem_cons.mp hm with rfl | hm
    · rw [hn] at hi
      cases hi
      exact lt_succ_self d
    · exact lt_succ_of_lt (h.lt m hm i hi)
  unique := by
    refine pairwise_cons.mpr ⟨fun m hm i hi hmi => ?_, h.unique⟩
    rw [hn] at hi
    cases hi
    exact lt_irrefl d (h.lt m hm d hmi)

lemma MapOk.push (h : MapOk l d M) (hn : n.place = .stack d) (hp : WholePages n.entry.start n.entry.end_)
    (hM : ∀ a, n.entry.start ≤ a → a ≤ n.entry.end_ → M a = none) : MapOk (l ++ [n]) (d + 1)
      (paint M n.entry.start n.entry.end_ (n.entry.type, n.entry.attr)) := by
  have hcons : MapOk (n :: l) (d + 1) (paint M n.entry.start n.entry.end_ (n.entry.type, n.entry.attr)) :=
    { spans := h.spans.add hp.nonempty hM
      paged := by
        intro m hm
        rcases mem_cons.mp hm with rfl | hm
        · exact hp
        · exact h.paged m hm
      stack := h.stack.push hn }
  exact hcons.perm (perm_append_singleton n l).symm

lemma MapOk.remove (h : MapOk (n :: l) d M) : MapOk l d (wipe M n.entry.start n.entry.end_) where
  spans := Spans.remove (r := n.region) h.spans
  paged := fun m hm => h.paged m (mem_cons_of_mem _ hm)
  stack := h.stack.sublist (sublist_cons_self n l)

lemma MapOk.replace {m : MapNode} (h : MapOk (n :: l) d M) (hplace : m.place = n.place)
    (hp : WholePages m.entry.start m.entry.end_)
    (hsub : n.entry.start ≤ m.entry.start ∧ m.entry.end_ ≤ n.entry.end_) :
    MapOk (m :: l) d (paint (wipe M n.entry.start n.entry.end_) m.entry.start m.entry.end_
      (m.entry.type, m.entry.attr)) where
  spans := by
    refine h.remove.spans.add hp.nonempty fun a h1 h2 => wipe_inside ?_
    exact ⟨hsub.1.trans h1, h2.trans hsub.2⟩
  paged := by
    intro x hx
    rcases mem_cons.mp hx with rfl | hx
    · exact hp
    · exact h.paged x (mem_cons_of_mem _ hx)
  stack := by
    refine ⟨fun x hx i hi => ?_, ?_⟩
    · rcases mem_cons.mp hx with rfl | hx
      · exact h.stack.lt n mem_cons_self i (hplace ▸ hi)
      · exact h.stack.lt x (mem_cons_of_mem _ hx) i hi
    · have hu := pairwise_cons.mp h.stack.unique
      exact pairwise_cons.mpr ⟨fun x hx i hi => hu.1 x hx i (hplace ▸ hi), hu.2⟩

/-! ## adjoining descriptors -/

variable {pre ns : List MapNode} {type attr start end_ : Nat}

lemma absorb_sublist (l : List MapNode) (start end_ : Nat) :
    (absorbAdjoining type attr l start end_).kept.Sublist l := by
  induction l generalizing start end_ with
  | nil => exact List.Sublist.refl _
  | cons n ns ih =>
    unfold absorbAdjoining
    split_ifs
    · exact (ih start end_).cons_cons n
    · exact (ih n.entry.start end_).cons n
    · exact (ih start n.entry.end_).cons n
    · exact (ih start end_).cons_cons n

/-- the new range with the descriptors that are left still stands for the map -/
lemma absorb_spans (type attr : Nat) (l pre : List MapNode) (hpaged : ∀ n ∈ l, WholePages n.entry.start n.entry.end_)
    (hp : WholePages start end_) (h : Spans (⟨start, end_, (type, attr)⟩ :: (pre ++ l).map MapNode.region) M) :
    Spans (⟨(absorbAdjoining type attr l start end_).start,
        (absorbAdjoining type attr l start end_).end_, (type, attr)⟩ ::
        (pre ++ (absorbAdjoining type attr l start end_).kept).map MapNode.region) M ∧
      WholePages (absorbAdjoining type attr l start end_).start (absorbAdjoining type attr l start end_).end_ := by
  induction l generalizing pre start end_ with
  | nil => exact ⟨h, hp⟩
  | cons n ns ih =>
    have hn := hpaged n mem_cons_self
    have hns := fun x hx => hpaged x (mem_cons_of_mem n hx)
    have happ (t : List MapNode) : pre ++ n :: t = (pre ++ [n]) ++ t := by
      rw [append_assoc, singleton_append]
    have hkeep : ∀ r, r = absorbAdjoining type attr ns start end_ →
        Spans (⟨(r.keep n).start, (r.keep n).end_, (type, attr)⟩ :: (pre ++ (r.keep n).kept).map MapNode.region) M ∧
        WholePages (r.keep n).start (r.keep n).end_ := by
      intro r hr
      have := ih (pre ++ [n]) hns hp (by rw [← happ]; exact h)
      rw [← hr, ← happ] at this
      exact this
    -- the descriptor in front of the others
    have hperm : (pre ++ n :: ns).Perm (n :: (pre ++ ns)) := perm_middle
    have hfront : Spans (⟨start, end_, (type, attr)⟩ :: n.region :: (pre ++ ns).map MapNode.region) M :=
      h.perm ((hperm.map MapNode.region).cons _)
    unfold absorbAdjoining
    split_ifs with hlabel hbefore hbehind
    · exact hkeep _ rfl
    · rw [not_or, not_not, not_not] at hlabel
      rw [mod_eq_of_lt hn.hi_lt] at hbefore
      have hregion : n.region = ⟨n.entry.start, n.entry.end_, (type, attr)⟩ := by
        rw [← hlabel.1, ← hlabel.2]
        rfl
      have hswap := hfront.perm (List.Perm.swap _ _ _)
      rw [hregion, ← hbefore] at hswap
      have hjoin := hswap.join
      refine ih pre hns ⟨hn.lo_aligned, hp.hi_aligned, ?_, hp.hi_lt⟩ hjoin
      have h1 := hn.nonempty
      have h2 := hp.nonempty
      omega
    · rw [not_or, not_not, not_not] at hlabel
      rw [mod_eq_of_lt hp.hi_lt] at hbehind
      have hregion : n.region = ⟨end_ + 1, n.entry.end_, (type, attr)⟩ := by
        rw [← hlabel.1, ← hlabel.2, ← hbehind]
        rfl
      rw [hregion] at hfront
      refine ih pre hns ⟨hp.lo_aligned, hn.hi_aligned, ?_, hn.hi_lt⟩ hfront.join
      have h1 := hn.nonempty
      have h2 := hp.nonempty
      omega
    · exact hkeep _ rfl

/-- **a range is added to the map** -/
theorem MapOk.absorb (h : MapOk l d M) (hp : WholePages start end_)
    (hM : ∀ a, start ≤ a → a ≤ end_ → M a = none) {r : Absorbed} (hr : r = absorbAdjoining type attr l start end_) :
    MapOk (r.kept ++ [⟨⟨type, r.start, r.end_, 0, attr⟩, .stack d⟩]) (d + 1) (paint M start end_ (type, attr)) := by
  obtain ⟨hspans, hpages⟩ := absorb_spans type attr l [] h.paged hp (h.spans.add hp.nonempty hM)
  rw [nil_append, ← hr] at hspans
  rw [← hr] at hpages
  have hsub : r.kept.Sublist l := hr ▸ absorb_sublist l start end_
  have hcons : MapOk (⟨⟨type, r.start, r.end_, 0, attr⟩, .stack d⟩ :: r.kept) (d + 1)
      (paint M start end_ (type, attr)) :=
    { spans := hspans
      paged := by
        intro m hm
        rcases mem_cons.mp hm with rfl | hm
        · exact hpages
        · exact h.paged m (hsub.subset hm)
      stack := (h.stack.sublist hsub).push rfl }
  exact hcons.perm (perm_append_singleton _ _).symm

/-! ## a range is pulled out -/

variable {post : List MapNode} {a rangeEnd : Nat}

lemma findEntry_some (h : findEntry a l = some (pre, n, post)) :
    l = pre ++ n :: post ∧ n.entry.start ≤ a ∧ a < n.entry.end_ := by
  induction l generalizing pre with
  | nil => cases h
  | cons m ms ih =>
    unfold findEntry at h
    split_ifs at h with hm
    · cases h
      exact ⟨rfl, hm⟩
    · obtain ⟨⟨pre', n', post'⟩, hr, heq⟩ := map_eq_some_iff.mp h
      cases heq
      obtain ⟨hl, hn⟩ := ih hr
      exact ⟨by rw [hl]; rfl, hn⟩

lemma findEntry_none (h : findEntry a l = none) : ∀ n ∈ l, ¬ (n.entry.start ≤ a ∧ a < n.entry.end_) := by
  induction l with
  | nil => exact fun n hn => absurd hn not_mem_nil
  | cons m ms ih =>
    unfold findEntry at h
    split_ifs at h with hm
    intro n hn
    rcases mem_cons.mp hn with rfl | hn
    · exact hm
    · exact ih (map_eq_none_iff.mp h) n hn

lemma MapOk.label (h : MapOk (pre ++ n :: post) d M) (ha : n.entry.start ≤ a ∧ a ≤ n.entry.end_) :
    M a = some (n.entry.type, n.entry.attr) :=
  h.spans.label n.region (mem_map_of_mem (mem_append_right _ mem_cons_self)) a ha

lemma paint_rest_left (start : Nat) (hlabel : ∀ a, n.entry.start ≤ a ∧ a ≤ n.entry.end_ →
      M a = some (n.entry.type, n.entry.attr)) (h1 : n.entry.start < start) (h2 : start ≤ n.entry.end_) :
    paint (wipe M n.entry.start n.entry.end_) n.entry.start (start - 1) (n.entry.type, n.entry.attr) =
      wipe M start n.entry.end_ := by
  funext a
  unfold paint wipe
  by_cases hleft : n.entry.start ≤ a ∧ a ≤ start - 1
  · rw [if_pos hleft, if_neg (by omega), hlabel a (by omega)]
  · rw [if_neg hleft]
    by_cases hin : start ≤ a ∧ a ≤ n.entry.end_
    · rw [if_pos hin, if_pos (by omega)]
    · rw [if_neg hin, if_neg (by omega)]

lemma paint_rest_right (rangeEnd : Nat) (hlabel : ∀ a, n.entry.start ≤ a ∧ a ≤ n.entry.end_ →
      M a = some (n.entry.type, n.entry.attr)) (h1 : n.entry.start ≤ rangeEnd) (h2 : rangeEnd < n.entry.end_) :
    paint (wipe M n.entry.start n.entry.end_) (rangeEnd + 1) n.entry.end_ (n.entry.type, n.entry.attr) =
      wipe M n.entry.start rangeEnd := by
  funext a
  unfold paint wipe
  by_cases hright : rangeEnd + 1 ≤ a ∧ a ≤ n.entry.end_
  · rw [if_pos hright, if_neg (by omega), hlabel a (by omega)]
  · rw [if_neg hright]
    by_cases hin : n.entry.start ≤ a ∧ a ≤ rangeEnd
    · rw [if_pos hin, if_pos (by omega)]
    · rw [if_neg hin, if_neg (by omega)]

lemma paint_rest_middle (start rangeEnd : Nat) (hlabel : ∀ a, n.entry.start ≤ a ∧ a ≤ n.entry.end_ →
      M a = some (n.entry.type, n.entry.attr)) (h1 : n.entry.start ≤ start) (h2 : start ≤ rangeEnd)
    (h3 : rangeEnd < n.entry.end_) :
    paint (wipe M start n.entry.end_) (rangeEnd + 1) n.entry.end_ (n.entry.type, n.entry.attr) =
      wipe M start rangeEnd := by
  funext a
  unfold paint wipe
  by_cases hright : rangeEnd + 1 ≤ a ∧ a ≤ n.entry.end_
  · rw [if_pos hright, if_neg (by omega), hlabel a (by omega)]
  · rw [if_neg hright]
    by_cases hin : start ≤ a ∧ a ≤ rangeEnd
    · rw [if_pos hin, if_pos (by omega)]
    · rw [if_neg hin, if_neg (by omega)]

lemma paint_wipe (M : Nat → Option Label) (lo hi : Nat) (v : Label) :
    paint (wipe M lo hi) lo hi v = paint M lo hi v := by
  funext a
  unfold paint wipe
  by_cases h : lo ≤ a ∧ a ≤ hi
  · rw [if_pos h, if_pos h]
  · rw [if_neg h, if_neg h, if_neg h]

/-! ## a stack descriptor becomes a heap descriptor -/

variable {rest : List MapNode} {i : Nat}

lemma takeStack_some (h : takeStack i l = some (n, rest)) : l.Perm (n :: rest) ∧ n.place = .stack i := by
  induction l generalizing rest with
  | nil => cases h
  | cons m ms ih =>
    unfold takeStack at h
    split_ifs at h with hm
    · cases h
      exact ⟨List.Perm.refl _, hm⟩
    · obtain ⟨⟨n', rest'⟩, hr, heq⟩ := map_eq_some_iff.mp h
      cases heq
      obtain ⟨hp, hn⟩ := ih hr
      exact ⟨(hp.cons m).trans (List.Perm.swap _ _ _), hn⟩

lemma takeStack_none (h : takeStack i l = none) : ∀ n ∈ l, n.place ≠ .stack i := by
  induction l with
  | nil => exact fun n hn => absurd hn not_mem_nil
  | cons m ms ih =>
    unfold takeStack at h
    split_ifs at h with hm
    intro n hn
    rcases mem_cons.mp hn with rfl | hn
    · exact hm
    · exact ih (map_eq_none_iff.mp h) n hn

lemma insertHeap_perm (e : MemoryMapEntry) (l : List MapNode) : (insertHeap e l).Perm (⟨e, .heap⟩ :: l) := by
  induction l with
  | nil => exact List.Perm.refl _
  | cons n ns ih =>
    unfold insertHeap
    split_ifs
    · exact List.Perm.refl _
    · exact (ih.cons n).trans (List.Perm.swap _ _ _)

lemma StackOk.lower (h : StackOk l (d + 1)) (hd : ∀ n ∈ l, n.place ≠ .stack d) : StackOk l d where
  lt := by
    intro n hn i hi
    have h1 := h.lt n hn i hi
    have h2 : i ≠ d := fun hid => hd n hn (hid ▸ hi)
    omega
  unique := h.unique

/-- **the top of the stack moves to the heap** -/
theorem MapOk.toHeap (h : MapOk l (d + 1) M) (ht : takeStack d l = some (n, rest)) :
    MapOk (insertHeap n.entry rest) d M := by
  obtain ⟨hp, hn⟩ := takeStack_some ht
  have hfront := h.perm hp
  have hu := pairwise_cons.mp hfront.stack.unique
  have hrest : StackOk rest d :=
    (hfront.stack.sublist (sublist_cons_self n rest)).lower fun m hm => hu.1 m hm d hn
  have hcons : MapOk (⟨n.entry, .heap⟩ :: rest) d M :=
    { spans := hfront.spans
      paged := by
        intro m hm
        rcases mem_cons.mp hm with rfl | hm
        · exact hfront.paged n mem_cons_self
        · exact hfront.paged m (mem_cons_of_mem _ hm)
      stack :=
        { lt := by
            intro m hm i hi
            rcases mem_cons.mp hm with rfl | hm
            · cases hi
            · exact hrest.lt m hm i hi
          unique := pairwise_cons.mpr ⟨fun m hm i hi => (nomatch hi), hrest.unique⟩ } }
  exact hcons.perm (insertHeap_perm _ _).symm

end

end Audk.Mem
