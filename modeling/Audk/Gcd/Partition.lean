import Audk.Gcd.Model
import Audk.Lib.Chain

/-!
# Search, split and merge keep the partition

`Ranges l a b`: the entries of `l` follow one another from `a` up to `b`.

* `convertFrom_found`, `convertRange_ranges`: the entries of a range are converted, and nothing else changes;
* `convertRange_wrapped`: what happens if the end of the range wrapped around.
-/

namespace Audk.Gcd

open Prog Mem Regions List Option Nat Bool

/-- what entries have in common that can be merged -/
abbrev Kind := Nat × Nat × GcdMemoryType × GcdIoType × Nat × Nat

def MapEntry.kind (e : MapEntry) : Kind :=
  (e.capabilities, e.attributes, e.gcdMemoryType, e.gcdIoType, e.imageHandle, e.deviceHandle)

def MapEntry.region (e : MapEntry) : Region Kind := ⟨e.baseAddress, e.endAddress, e.kind⟩

lemma MapEntry.sameKind_iff (e f : MapEntry) : e.SameKind f ↔ e.kind = f.kind := by
  unfold MapEntry.SameKind MapEntry.kind
  simp only [Prod.mk.injEq]

abbrev Ranges (l : List MapEntry) (a b : Nat) : Prop := Chain (l.map MapEntry.region) a b

def kindAt (l : List MapEntry) : Nat → Option Kind := labelAt (l.map MapEntry.region)

section
variable {l l' : List MapEntry} {e f : MapEntry} {a b c p : Nat}

lemma ranges_cons : Ranges (e :: l) a b ↔
    e.baseAddress = a ∧ e.baseAddress ≤ e.endAddress ∧ Ranges l (e.endAddress + 1) b := Iff.rfl

lemma ranges_append : Ranges (l ++ l') a c ↔ ∃ b, Ranges l a b ∧ Ranges l' b c := by
  unfold Ranges
  rw [map_append, chain_append]

lemma ranges_singleton : Ranges [e] a b ↔
    e.baseAddress = a ∧ e.baseAddress ≤ e.endAddress ∧ e.endAddress + 1 = b := Iff.rfl

lemma kindAt_append : kindAt (l ++ l') p = (kindAt l p).or (kindAt l' p) := by
  unfold kindAt
  rw [map_append, labelAt_append]

lemma kindAt_cons_of_covers (h : e.Covers p) : kindAt (e :: l) p = some e.kind := labelAt_cons_of_covers h

lemma kindAt_cons_of_not (h : ¬ e.Covers p) : kindAt (e :: l) p = kindAt l p := labelAt_cons_of_not h

lemma Ranges.bounds (h : Ranges l a b) (he : e ∈ l) :
    a ≤ e.baseAddress ∧ e.baseAddress ≤ e.endAddress ∧ e.endAddress < b :=
  Chain.bounds h (mem_map_of_mem he)

lemma Ranges.kindAt_none (h : Ranges l a b) (hp : p < a ∨ b ≤ p) : kindAt l p = none := Chain.labelAt_none h hp

lemma Ranges.kindAt_of_mem (h : Ranges l a b) (he : e ∈ l) (hp : e.Covers p) : kindAt l p = some e.kind :=
  Chain.labelAt_of_mem h (mem_map_of_mem he) hp

lemma Ranges.split (h : Ranges l a b) (hp : a ≤ p) (hp' : p < b) : ∃ l1 e l2, l = l1 ++ e :: l2 ∧ e.Covers p := by
  obtain ⟨m1, r, m2, heq, hr⟩ := Chain.split h hp hp'
  obtain ⟨l1, l', rfl, -, h2⟩ := map_eq_append_iff.mp heq
  obtain ⟨e, l2, rfl, rfl, -⟩ := map_eq_cons_iff.mp h2
  exact ⟨l1, e, l2, rfl, hr⟩

/-! ## the search -/

/-- the entries `i..k` of the map are `range` -/
structure Found (map : List MapEntry) (base last i k : Nat) (before range after : List MapEntry) : Prop where
  eq : map = before ++ range ++ after
  first : before.length = i
  length : k + 1 = i + range.length
  covers_base : ∃ e es, range = e :: es ∧ e.Covers base
  covers_last : ∃ es e, range = es ++ [e] ∧ e.Covers last

variable {map before range after : List MapEntry} {base last i j k n stop : Nat}

section
variable (h : Found map base last i k before range after)
include h

lemma Found.between : between map i k = range := by
  have hlen := h.length
  unfold Gcd.between
  rw [h.eq, append_assoc, ← h.first, drop_left, show k + 1 - before.length = range.length by
    rw [h.first]; omega, take_left]

lemma Found.take : map.take i = before := by
  rw [h.eq, append_assoc, ← h.first, take_left]

lemma Found.drop : map.drop (k + 1) = after := by
  rw [h.eq, h.length, ← h.first, ← length_append, drop_left]

end

lemma searchFrom_started (h : Ranges l a b) (ha : base < a) (hs : searchFrom base last l n (some j) = some (i, k)) :
    i = j ∧ ∃ es e post, l = es ++ e :: post ∧ e.Covers last ∧ k = n + es.length := by
  induction l generalizing a n with
  | nil => cases hs
  | cons e es ih =>
    obtain ⟨hlo, hne, hes⟩ := ranges_cons.mp h
    have hbase : ¬ e.Covers base := fun hc => by
      have := hc.1
      omega
    unfold searchFrom at hs
    rw [if_neg hbase] at hs
    dsimp only at hs
    by_cases hlast : e.Covers last
    · rw [if_pos hlast] at hs
      cases hs
      exact ⟨rfl, [], e, es, rfl, hlast, rfl⟩
    · rw [if_neg hlast] at hs
      obtain ⟨hij, es', e', post, rfl, hc, rfl⟩ := ih hes (by omega) hs
      exact ⟨hij, e :: es', e', post, rfl, hc, by rw [length_cons]; omega⟩

lemma searchFrom_found (h : Ranges l a b) (hs : searchFrom base last l n none = some (i, k)) :
    ∃ before range after, l = before ++ range ++ after ∧ i = n + before.length ∧ k + 1 = i + range.length ∧
      (∃ e es, range = e :: es ∧ e.Covers base) ∧ ∃ es e, range = es ++ [e] ∧ e.Covers last := by
  induction l generalizing a n with
  | nil => cases hs
  | cons e es ih =>
    obtain ⟨hlo, hne, hes⟩ := ranges_cons.mp h
    unfold searchFrom at hs
    by_cases hbase : e.Covers base
    · rw [if_pos hbase] at hs
      dsimp only at hs
      by_cases hlast : e.Covers last
      · rw [if_pos hlast] at hs
        cases hs
        exact ⟨[], [e], es, rfl, rfl, rfl, ⟨e, [], rfl, hbase⟩, ⟨[], e, rfl, hlast⟩⟩
      rw [if_neg hlast] at hs
      have hlt := hbase.2
      obtain ⟨rfl, es', e', post, rfl, hc, rfl⟩ := searchFrom_started hes (by omega) hs
      refine ⟨[], e :: es' ++ [e'], post, ?_, rfl, ?_, ⟨e, _, rfl, hbase⟩, ⟨_, e', rfl, hc⟩⟩
      · simp
      · simp
        omega
    · rw [if_neg hbase] at hs
      obtain ⟨before, range, after, rfl, hi, hk, hb, hl⟩ := ih hes hs
      refine ⟨e :: before, range, after, rfl, ?_, hk, hb, hl⟩
      rw [hi, length_cons]
      omega

/-- **what the search finds** -/
theorem coreSearchGcdMapEntry_found {length : Nat} (h : Ranges map 0 stop)
    (hs : coreSearchGcdMapEntry base length map = some (i, k)) :
    ∃ before range after, Found map base (lastAddress base length) i k before range after := by
  obtain ⟨before, range, after, heq, hi, hk, hb, hl⟩ := searchFrom_found h hs
  exact ⟨before, range, after, heq, by omega, hk, hb, hl⟩

lemma searchFrom_started_isSome (h : Ranges l a b) (ha : base < a) (hlast : a ≤ last) (hlt : last < b) :
    ∃ k, searchFrom base last l n (some j) = some (j, k) := by
  induction l generalizing a n with
  | nil =>
    have : a = b := h
    omega
  | cons e es ih =>
    obtain ⟨hlo, hne, hes⟩ := ranges_cons.mp h
    have hbase : ¬ e.Covers base := fun hc => by
      have := hc.1
      omega
    unfold searchFrom
    rw [if_neg hbase]
    dsimp only
    by_cases hc : e.Covers last
    · exact ⟨n, if_pos hc⟩
    · rw [if_neg hc]
      have : e.endAddress < last := by
        by_contra hle
        exact hc ⟨by omega, by omega⟩
      exact ih hes (by omega) (by omega)

lemma searchFrom_isSome (h : Ranges l a b) (ha : a ≤ base) (hle : base ≤ last) (hlt : last < b) :
    ∃ i k, searchFrom base last l n none = some (i, k) := by
  induction l generalizing a n with
  | nil =>
    have : a = b := h
    omega
  | cons e es ih =>
    obtain ⟨hlo, hne, hes⟩ := ranges_cons.mp h
    unfold searchFrom
    by_cases hbase : e.Covers base
    · rw [if_pos hbase]
      dsimp only
      by_cases hc : e.Covers last
      · exact ⟨n, n, if_pos hc⟩
      rw [if_neg hc]
      have hb' := hbase.2
      have : e.endAddress < last := by
        by_contra hle'
        exact hc ⟨by omega, by omega⟩
      exact ⟨n, searchFrom_started_isSome hes (by omega) (by omega) hlt⟩
    · rw [if_neg hbase]
      have : e.endAddress < base := by
        by_contra hle'
        exact hbase ⟨by omega, by omega⟩
      exact ih hes (by omega)

lemma coreSearchGcdMapEntry_isSome {length : Nat} (h : Ranges map 0 stop)
    (hle : base ≤ lastAddress base length) (hlt : lastAddress base length < stop) :
    ∃ i k, coreSearchGcdMapEntry base length map = some (i, k) :=
  searchFrom_isSome h (zero_le _) hle hlt

section
variable (h : Found map base last i k before range after)
include h

lemma Found.ranges (hm : Ranges map 0 stop) :
    ∃ m n, Ranges before 0 m ∧ Ranges range m n ∧ Ranges after n stop := by
  have hmap := hm
  rw [h.eq, ranges_append] at hmap
  obtain ⟨n, h1, h2⟩ := hmap
  obtain ⟨m, h0, h1⟩ := ranges_append.mp h1
  exact ⟨m, n, h0, h1, h2⟩

lemma Found.base_lt (hm : Ranges map 0 stop) :
    base < stop ∧ last < stop := by
  obtain ⟨e, es, rfl, he⟩ := h.covers_base
  obtain ⟨es', f, hf, hl⟩ := h.covers_last
  have hmem : e ∈ map := by
    rw [h.eq]
    simp
  have hmem' : f ∈ map := by
    rw [h.eq, hf]
    simp
  exact ⟨he.2.trans_lt (hm.bounds hmem).2.2, hl.2.trans_lt (hm.bounds hmem').2.2⟩

/-- if the end wrapped around, it is in the same entry as the beginning -/
lemma Found.wrapped (hm : Ranges map 0 stop)
    (hlt : last < base) : ∃ e, range = [e] ∧ e.Covers base ∧ e.Covers last := by
  obtain ⟨m, n, -, hr, -⟩ := h.ranges hm
  obtain ⟨e, es, rfl, he⟩ := h.covers_base
  obtain ⟨es', f, hf, hl⟩ := h.covers_last
  obtain ⟨-, -, hes⟩ := ranges_cons.mp hr
  cases es' with
  | nil =>
    obtain ⟨rfl, rfl⟩ := List.cons.inj hf
    exact ⟨e, rfl, he, hl⟩
  | cons e' es' =>
    obtain ⟨rfl, rfl⟩ := List.cons.inj hf
    have hmem := (hes.bounds (mem_append_right _ (mem_singleton.mpr rfl))).1
    have h1 := he.2
    have h2 := hl.1
    omega

end

/-! ## the merge -/

variable {rev : List MapEntry} {m : Nat}

lemma mergeBackward_same {f : MapEntry} (h : e.SameKind f) :
    mergeBackward (f :: rev) e = { e with baseAddress := f.baseAddress } :: rev := if_pos h

lemma mergeBackward_other {f : MapEntry} (h : ¬ e.SameKind f) : mergeBackward (f :: rev) e = e :: f :: rev := if_neg h

lemma mergeForward_same {f : MapEntry} (h : e.SameKind f) :
    mergeForward e (f :: after) = { e with endAddress := f.endAddress } :: after := if_pos h

lemma mergeForward_other {f : MapEntry} (h : ¬ e.SameKind f) :
    mergeForward e (f :: after) = e :: f :: after := if_neg h

lemma coreCleanupGcdMapEntry_eq (h : range.foldl mergeBackward before.reverse = e :: rev) :
    coreCleanupGcdMapEntry before range after = rev.reverse ++ mergeForward e after := by
  unfold coreCleanupGcdMapEntry
  rw [h]

lemma mergeBackward_ranges (h : Ranges rev.reverse a m) (he : Ranges [e] m n) :
    Ranges (mergeBackward rev e).reverse a n ∧
      kindAt (mergeBackward rev e).reverse = kindAt (rev.reverse ++ [e]) := by
  cases rev with
  | nil =>
    have ham : a = m := h
    rw [ham]
    exact ⟨he, rfl⟩
  | cons f fs =>
    by_cases hsame : e.SameKind f
    · rw [mergeBackward_same hsame, reverse_cons, reverse_cons]
      rw [reverse_cons, ranges_append] at h
      obtain ⟨m', hfs, hf⟩ := h
      obtain ⟨h1, h2, h3⟩ := ranges_singleton.mp hf
      obtain ⟨h4, h5, h6⟩ := ranges_singleton.mp he
      refine ⟨ranges_append.mpr ⟨m', hfs, ranges_singleton.mpr ⟨h1, ?_, h6⟩⟩, ?_⟩
      · show f.baseAddress ≤ e.endAddress
        omega
      · funext q
        rw [append_assoc, kindAt_append, kindAt_append (l := fs.reverse)]
        congr 1
        have hkind : MapEntry.kind { e with baseAddress := f.baseAddress } = f.kind := (e.sameKind_iff f).mp hsame
        by_cases hq : f.baseAddress ≤ q ∧ q ≤ e.endAddress
        · rw [kindAt_cons_of_covers (e := { e with baseAddress := f.baseAddress }) hq, hkind]
          by_cases hqf : f.Covers q
          · exact (kindAt_cons_of_covers hqf).symm
          · have hqe : e.Covers q := ⟨by unfold GcdMapEntry.Covers at hqf; omega, hq.2⟩
            rw [singleton_append, kindAt_cons_of_not hqf, kindAt_cons_of_covers hqe]
            exact congrArg some ((e.sameKind_iff f).mp hsame).symm
        · have hqf : ¬ f.Covers q := fun hc => hq ⟨hc.1, by have := hc.2; omega⟩
          have hqe : ¬ e.Covers q := fun hc => hq ⟨by have := hc.1; omega, hc.2⟩
          rw [singleton_append, kindAt_cons_of_not (e := { e with baseAddress := f.baseAddress }) hq,
            kindAt_cons_of_not hqf, kindAt_cons_of_not hqe]
    · rw [mergeBackward_other hsame, reverse_cons]
      exact ⟨ranges_append.mpr ⟨m, h, he⟩, rfl⟩

lemma mergeBackward_ne_nil (rev : List MapEntry) (e : MapEntry) : mergeBackward rev e ≠ [] := by
  unfold mergeBackward
  cases rev with
  | nil => exact cons_ne_nil _ _
  | cons f fs =>
    dsimp only
    split_ifs <;> exact cons_ne_nil _ _

lemma foldl_mergeBackward_ranges (h : Ranges rev.reverse a m) (hr : Ranges range m n) :
    Ranges (range.foldl mergeBackward rev).reverse a n ∧
      kindAt (range.foldl mergeBackward rev).reverse = kindAt (rev.reverse ++ range) ∧
      (range ≠ [] → range.foldl mergeBackward rev ≠ []) := by
  induction range generalizing rev m with
  | nil =>
    have hmn : m = n := hr
    rw [append_nil, ← hmn]
    exact ⟨h, rfl, fun hne => absurd rfl hne⟩
  | cons e es ih =>
    obtain ⟨h1, h2, hes⟩ := ranges_cons.mp hr
    obtain ⟨hmerge, hkind⟩ := mergeBackward_ranges h (ranges_singleton.mpr ⟨h1, h2, rfl⟩)
    obtain ⟨hall, hkinds, -⟩ := ih hmerge hes
    refine ⟨hall, ?_, fun _ => ?_⟩
    · rw [foldl_cons, hkinds]
      funext q
      rw [kindAt_append, hkind, ← kindAt_append, append_assoc, singleton_append]
    · rw [foldl_cons]
      cases es with
      | nil => exact mergeBackward_ne_nil _ _
      | cons e' es' => exact (ih hmerge hes).2.2 (cons_ne_nil _ _)

lemma mergeForward_ranges (he : Ranges [e] a m) (h : Ranges after m b) :
    Ranges (mergeForward e after) a b ∧ kindAt (mergeForward e after) = kindAt (e :: after) := by
  obtain ⟨h1, h2, h3⟩ := ranges_singleton.mp he
  cases after with
  | nil =>
    have hmb : m = b := h
    exact ⟨ranges_singleton.mpr ⟨h1, h2, h3.trans hmb⟩, rfl⟩
  | cons f fs =>
    obtain ⟨h4, h5, hfs⟩ := ranges_cons.mp h
    by_cases hsame : e.SameKind f
    · rw [mergeForward_same hsame]
      refine ⟨ranges_cons.mpr ⟨h1, ?_, hfs⟩, ?_⟩
      · show e.baseAddress ≤ f.endAddress
        omega
      · funext q
        have hkind := (e.sameKind_iff f).mp hsame
        by_cases hq : e.baseAddress ≤ q ∧ q ≤ f.endAddress
        · rw [kindAt_cons_of_covers (e := { e with endAddress := f.endAddress }) hq]
          by_cases hqe : e.Covers q
          · exact (kindAt_cons_of_covers hqe).symm
          · have hqf : f.Covers q := ⟨by unfold GcdMapEntry.Covers at hqe; omega, hq.2⟩
            rw [kindAt_cons_of_not hqe, kindAt_cons_of_covers hqf]
            exact congrArg some hkind
        · have hqe : ¬ e.Covers q := fun hc => hq ⟨hc.1, by have := hc.2; omega⟩
          have hqf : ¬ f.Covers q := fun hc => hq ⟨by have := hc.1; omega, hc.2⟩
          rw [kindAt_cons_of_not (e := { e with endAddress := f.endAddress }) hq, kindAt_cons_of_not hqe,
            kindAt_cons_of_not hqf]
    · rw [mergeForward_other hsame]
      exact ⟨ranges_cons.mpr ⟨h1, h2, h3 ▸ h⟩, rfl⟩

/-- **the merge keeps the partition and every kind** -/
theorem coreCleanupGcdMapEntry_ranges (h : Ranges before a m) (hr : Ranges range m n) (ha : Ranges after n b)
    (hne : range ≠ []) : Ranges (coreCleanupGcdMapEntry before range after) a b ∧
      kindAt (coreCleanupGcdMapEntry before range after) = kindAt (before ++ range ++ after) := by
  have hb : Ranges before.reverse.reverse a m := by rwa [reverse_reverse]
  obtain ⟨hfold, hkinds, hcons⟩ := foldl_mergeBackward_ranges hb hr
  cases hrev : range.foldl mergeBackward before.reverse with
  | nil => exact absurd hrev (hcons hne)
  | cons e rev =>
    rw [coreCleanupGcdMapEntry_eq hrev]
    rw [hrev, reverse_cons] at hfold hkinds
    obtain ⟨m', hfront, he⟩ := ranges_append.mp hfold
    obtain ⟨hmerge, hkind⟩ := mergeForward_ranges he ha
    refine ⟨ranges_append.mpr ⟨m', hfront, hmerge⟩, ?_⟩
    funext q
    rw [reverse_reverse] at hkinds
    rw [kindAt_append, hkind, ← kindAt_append, kindAt_append (l := before ++ range), ← hkinds, ← kindAt_append,
      append_assoc, singleton_append]

/-! ## the split -/

/-- a conversion does not move the entry, and a part of an entry is converted like the entry -/
structure KeepsBounds (convert : Nat → MapEntry → MapEntry × Nat) : Prop where
  base : ∀ c e, (convert c e).1.baseAddress = e.baseAddress
  end_ : ∀ c e, (convert c e).1.endAddress = e.endAddress
  kind : ∀ c e m n, (convert c { e with baseAddress := m, endAddress := n }).1.kind = (convert c e).1.kind
  carried : ∀ c e m n, (convert c { e with baseAddress := m, endAddress := n }).2 = (convert c e).2

def carry (convert : Nat → MapEntry → MapEntry × Nat) (c : Nat) (es : List MapEntry) : Nat :=
  es.foldl (fun c e => (convert c e).2) c

/-- `x` is one of the entries after its conversion, perhaps only a part of it -/
def Converts (convert : Nat → MapEntry → MapEntry × Nat) (c : Nat) (es : List MapEntry) (x : MapEntry) : Prop :=
  ∃ es₁ e es₂, es = es₁ ++ e :: es₂ ∧ e.baseAddress ≤ x.baseAddress ∧ x.endAddress ≤ e.endAddress ∧
    x.kind = (convert (carry convert c es₁) e).1.kind

variable {convert : Nat → MapEntry → MapEntry × Nat} {length : Nat} {es : List MapEntry} {spares : Spares} {w : Walk}

lemma Converts.cons {c : Nat} {x : MapEntry} (h : Converts convert (convert c e).2 es x) :
    Converts convert c (e :: es) x := by
  obtain ⟨es1, f, es2, rfl, hx⟩ := h
  exact ⟨e :: es1, f, es2, rfl, hx⟩

lemma ranges_convert (hconv : KeepsBounds convert) (c : Nat) (e : MapEntry)
    (h : e.baseAddress ≤ e.endAddress) : Ranges [(convert c e).1] e.baseAddress (e.endAddress + 1) :=
  ranges_singleton.mpr ⟨hconv.base c e, by rw [hconv.base, hconv.end_]; exact h, by rw [hconv.end_]⟩

lemma ranges_lower (e : MapEntry) {m : Nat} (h : e.baseAddress ≤ m) :
    Ranges [{ e with endAddress := m }] e.baseAddress (m + 1) := ranges_singleton.mpr ⟨rfl, h, rfl⟩

lemma kindAt_lower (e : MapEntry) {m p : Nat} (hm : m ≤ e.endAddress) (hp : p ≤ m) :
    kindAt [{ e with endAddress := m }] p = kindAt [e] p := by
  by_cases hpe : e.Covers p
  · rw [kindAt_cons_of_covers hpe]
    exact kindAt_cons_of_covers (e := { e with endAddress := m }) ⟨hpe.1, hp⟩
  · rw [kindAt_cons_of_not hpe]
    exact kindAt_cons_of_not (e := { e with endAddress := m }) fun hc => hpe ⟨hc.1, hc.2.trans hm⟩

lemma kindAt_upper (e : MapEntry) {m p : Nat} (hm : e.baseAddress ≤ m) (hp : m ≤ p) :
    kindAt [{ e with baseAddress := m }] p = kindAt [e] p := by
  by_cases hpe : e.Covers p
  · rw [kindAt_cons_of_covers hpe]
    exact kindAt_cons_of_covers (e := { e with baseAddress := m }) ⟨hp, hpe.2⟩
  · rw [kindAt_cons_of_not hpe]
    exact kindAt_cons_of_not (e := { e with baseAddress := m }) fun hc => hpe ⟨hm.trans hc.1, hc.2⟩

/-- the part below the range, which is empty behind the first entry -/
lemma splitBottom_ranges (h2 : base ≤ e.endAddress) (h3 : e.endAddress < 2^64) :
    ∃ bottom, splitBottom base e = (bottom, { e with baseAddress := max e.baseAddress base }) ∧
      Ranges bottom e.baseAddress (max e.baseAddress base) ∧ (base ≤ e.baseAddress → bottom = []) ∧
      ∀ p < base, kindAt bottom p = kindAt [e] p := by
  unfold splitBottom
  by_cases hlt : e.baseAddress < base
  · have hsub : sub64 base 1 + 1 = base := by
      unfold sub64
      omega
    rw [if_pos hlt, max_eq_right hlt.le]
    refine ⟨[{ e with endAddress := sub64 base 1 }], rfl, ?_, fun h => absurd hlt (not_lt.mpr h), fun p hp => ?_⟩
    · have hr := ranges_lower e (m := sub64 base 1) (by omega)
      rw [hsub] at hr
      exact hr
    · exact kindAt_lower e (by omega) (by omega)
  · rw [if_neg hlt, max_eq_left (not_lt.mp hlt)]
    refine ⟨[], rfl, rfl, fun _ => rfl, fun p hp => (kindAt_cons_of_not fun hc => ?_).symm⟩
    exact hlt (hc.1.trans_lt hp)

lemma splitTop_ranges (hlast : lastAddress base length = last) (hnext : (base + length) % 2^64 = (last + 1) % 2^64)
    (h : e.baseAddress ≤ last) (h3 : e.endAddress < 2^64) :
    ∃ top, splitTop base length e = (top, { e with endAddress := min e.endAddress last }) ∧
      Ranges top (min e.endAddress last + 1) (e.endAddress + 1) ∧ (e.endAddress ≤ last → top = []) ∧
      ∀ p, last < p → kindAt top p = kindAt [e] p := by
  unfold splitTop
  rw [hlast]
  by_cases hlt : last < e.endAddress
  · rw [if_pos hlt, min_eq_right hlt.le, hnext, mod_eq_of_lt (by omega)]
    exact ⟨_, rfl, ranges_singleton.mpr ⟨rfl, hlt, rfl⟩, fun h => absurd hlt (not_lt.mpr h),
      fun p hp => kindAt_upper e (by omega) hp⟩
  · rw [if_neg hlt, min_eq_left (not_lt.mp hlt)]
    refine ⟨[], rfl, rfl, fun _ => rfl, fun p hp => (kindAt_cons_of_not fun hc => ?_).symm⟩
    exact hlt (hp.trans_le hc.2)

/-- the spare entries are unused, so no `ASSERT` fails -/
lemma coreInsertGcdMapEntry_ok {bottom top : List MapEntry} {e1 e2 : MapEntry}
    (hb : splitBottom base e = (bottom, e1)) (ht : splitTop base length e1 = (top, e2))
    (hfree : bottom = [] ∨ spares.bottom = false) (htop : spares.top = false) :
    coreInsertGcdMapEntry base length spares e =
      .ok ⟨bottom, e2, top, ⟨!top.isEmpty, spares.bottom || !bottom.isEmpty⟩⟩ := by
  unfold coreInsertGcdMapEntry
  rw [hb]
  dsimp only
  rw [ht, htop, if_neg, if_neg]
  · rfl
  · exact fun h => false_ne_true h.2
  · intro ⟨h1, h2⟩
    rcases hfree with hfree | hfree
    · exact h1 hfree
    · rw [hfree] at h2
      exact false_ne_true h2

lemma convertFrom_last {i : Inserted} (fuel : Nat) (h : coreInsertGcdMapEntry base length w.spares e = .ok i) :
    convertFrom base length convert (fuel + 1) [e] w =
      .ok { w.push i.bottom (convert w.carried i.entry) i.spares with after := i.top } := by
  unfold convertFrom
  rw [h]

lemma convertFrom_next {i : Inserted} {e1 : MapEntry} (fuel : Nat)
    (h : coreInsertGcdMapEntry base length w.spares e = .ok i) :
    convertFrom base length convert (fuel + 1) (e :: e1 :: es) w =
      convertFrom base length convert fuel (i.top ++ e1 :: es)
        (w.push i.bottom (convert w.carried i.entry) i.spares) := by
  rw [convertFrom, h]

lemma push_eq {bottom : List MapEntry} (h : w.range ≠ [] → bottom = []) (x : MapEntry × Nat) (spares : Spares) :
    w.push bottom x spares = ⟨if w.range = [] then bottom else w.before, w.range ++ [x.1], [], spares, x.2⟩ := by
  unfold Walk.push
  by_cases hnil : w.range = []
  · rw [if_pos hnil, if_pos hnil, hnil]
    rfl
  · rw [if_neg hnil, if_neg hnil, h hnil, append_nil]

lemma covers_last_cons {e1 : MapEntry} (h : Ranges (e :: e1 :: es) a b)
    (hcover : ∃ es' f, e :: e1 :: es = es' ++ [f] ∧ f.Covers last) :
    e.endAddress < last ∧ ∃ es' f, e1 :: es = es' ++ [f] ∧ f.Covers last := by
  obtain ⟨-, -, hes⟩ := ranges_cons.mp h
  obtain ⟨es', f, hf, hc⟩ := hcover
  cases es' with
  | nil => exact absurd (List.cons.inj hf).2 (cons_ne_nil _ _)
  | cons x xs =>
    have htail := (List.cons.inj hf).2
    have hmem : f ∈ e1 :: es := by
      rw [htail]
      exact mem_append_right _ (mem_singleton.mpr rfl)
    have h1 := (hes.bounds hmem).1
    have h2 := hc.1
    exact ⟨by omega, xs, f, htail, hc⟩

lemma covers_last_singleton (hcover : ∃ es' f, [e] = es' ++ [f] ∧ f.Covers last) : e.Covers last := by
  obtain ⟨es', f, hf, hc⟩ := hcover
  cases es' with
  | nil => exact (List.cons.inj hf).1 ▸ hc
  | cons x xs => exact absurd (List.cons.inj hf).2.symm (append_ne_nil_of_right_ne_nil _ (cons_ne_nil _ _))

/-- **the entries of the range are converted**: `before` and `after` are what is split off of the first and of the last
of them -/
theorem convertFrom_found (hconv : KeepsBounds convert) (hlast : lastAddress base length = last)
    (hnext : (base + length) % 2^64 = (last + 1) % 2^64) (fuel : Nat) (h : Ranges es a b) (hb64 : b ≤ 2^64)
    (hle : base ≤ last) (hcover : ∃ e es', es = e :: es' ∧ base ≤ e.endAddress)
    (hcover' : ∃ es' f, es = es' ++ [f] ∧ f.Covers last) (hfuel : es.length ≤ fuel) (htop : w.spares.top = false)
    (hfirst : w.range = [] ∧ w.spares.bottom = false ∨ w.range ≠ [] ∧ base < a) :
    ∃ w' r, convertFrom base length convert fuel es w = .ok w' ∧ w'.range = w.range ++ r ∧
      Ranges r (max a base) (last + 1) ∧ Ranges w'.after (last + 1) b ∧ (w.range ≠ [] → w'.before = w.before) ∧
      (w.range = [] → Ranges w'.before a (max a base) ∧ ∀ p < base, kindAt w'.before p = kindAt es p) ∧
      (∀ p, last < p → kindAt w'.after p = kindAt es p) ∧ ∀ x ∈ r, Converts convert w.carried es x := by
  induction es generalizing a fuel w with
  | nil =>
    obtain ⟨e, es', heq, -⟩ := hcover
    cases heq
  | cons e es ih =>
    obtain ⟨rfl, hne, hes⟩ := ranges_cons.mp h
    obtain ⟨fuel, rfl⟩ : ∃ k, fuel = k + 1 := ⟨fuel - 1, by rw [length_cons] at hfuel; omega⟩
    have hend := (h.bounds mem_cons_self).2.2.trans_le hb64
    obtain ⟨_, _, heq, hbase⟩ := hcover
    cases heq
    have hstart : e.baseAddress ≤ last := by
      cases es with
      | nil => exact (covers_last_singleton hcover').1
      | cons e1 es => exact hne.trans (covers_last_cons h hcover').1.le
    obtain ⟨bottom, hsplit, hbottom, hnil, hkind⟩ := splitBottom_ranges hbase hend
    obtain ⟨top, hsplit', hranges, hnil', hkind'⟩ := splitTop_ranges
      (e := { e with baseAddress := max e.baseAddress base }) hlast hnext (max_le hstart hle) hend
    have hpush : w.range ≠ [] → bottom = [] := fun hr => hnil (by
      have := (hfirst.resolve_left fun hw => hr hw.1).2
      omega)
    have hok := coreInsertGcdMapEntry_ok hsplit hsplit'
      (hfirst.elim (fun hw => .inr hw.2) fun hw => .inl (hpush hw.1)) htop
    -- the part of the entry in the range
    have hentry := ranges_convert hconv w.carried
      { e with baseAddress := max e.baseAddress base, endAddress := min e.endAddress last }
      (le_min (max_le hne hbase) (max_le hstart hle))
    have hconverts : Converts convert w.carried (e :: es) (convert w.carried
        { e with baseAddress := max e.baseAddress base, endAddress := min e.endAddress last }).1 := by
      refine ⟨[], e, es, rfl, ?_, ?_, hconv.kind _ _ _ _⟩
      · rw [hconv.base]
        exact le_max_left _ _
      · rw [hconv.end_]
        exact min_le_left _ _
    have hbefore (p : Nat) (hp : p < base) : kindAt bottom p = kindAt (e :: es) p := by
      have hout := hes.kindAt_none (p := p) (.inl (by omega))
      rw [hkind p hp, ← singleton_append (l := es), kindAt_append, hout, or_none]
    cases es with
    | nil =>
      have hcl := covers_last_singleton hcover'
      have hb : e.endAddress + 1 = b := hes
      rw [min_eq_right hcl.2] at hranges hentry hconverts hok
      rw [convertFrom_last _ hok, push_eq hpush]
      refine ⟨_, _, rfl, rfl, hentry, hb ▸ hranges, fun hr => if_neg hr, fun hr => ?_, fun p hp => ?_, fun x hx => ?_⟩
      · show Ranges (if w.range = [] then bottom else w.before) _ _ ∧ _
        rw [if_pos hr]
        exact ⟨hbottom, hbefore⟩
      · rw [← kindAt_upper e (le_max_left _ base) (by omega)]
        exact hkind' p hp
      · rw [mem_singleton.mp hx]
        exact hconverts
    | cons e1 es =>
      obtain ⟨hlt, hcover''⟩ := covers_last_cons h hcover'
      obtain ⟨h1, -, -⟩ := ranges_cons.mp hes
      have hne1 : e1.baseAddress ≤ e1.endAddress := (h.bounds (by simp)).2.1
      obtain rfl := hnil' hlt.le
      rw [min_eq_left hlt.le] at hentry hconverts hok
      rw [convertFrom_next _ hok, push_eq hpush, nil_append]
      obtain ⟨w', r, hrun, hrange', hr, hafter, hbefore', -, hkinds, hall⟩ := ih fuel hes ⟨e1, es, rfl, by omega⟩
        hcover'' (by simp only [length_cons] at hfuel ⊢; omega) rfl
        (w := ⟨if w.range = [] then bottom else w.before, w.range ++ [(convert w.carried
            { e with baseAddress := max e.baseAddress base, endAddress := e.endAddress }).1], [],
          ⟨false, w.spares.bottom || !bottom.isEmpty⟩, (convert w.carried
            { e with baseAddress := max e.baseAddress base, endAddress := e.endAddress }).2⟩)
        (.inr ⟨append_ne_nil_of_right_ne_nil _ (cons_ne_nil _ _), by omega⟩)
      have hbefore' := hbefore' (append_ne_nil_of_right_ne_nil _ (cons_ne_nil _ _))
      rw [max_eq_left (by omega)] at hr
      refine ⟨w', (convert w.carried
        { e with baseAddress := max e.baseAddress base, endAddress := e.endAddress }).1 :: r, hrun, ?_, ?_, hafter,
        fun hw => hbefore'.trans (if_neg hw), fun hw => ?_, fun p hp => ?_, fun x hx => ?_⟩
      · rw [hrange', append_assoc, singleton_append]
      · exact ranges_append.mpr ⟨_, hentry, hr⟩
      · rw [hbefore', if_pos hw]
        exact ⟨hbottom, hbefore⟩
      · rw [hkinds p hp]
        refine (kindAt_cons_of_not fun hc => ?_).symm
        have := hc.2
        omega
      · rcases mem_cons.mp hx with rfl | hx
        · exact hconverts
        · have hx := hall x hx
          rw [hconv.carried] at hx
          exact hx.cons

/-! ## the conversion of a range -/

lemma lastAddress_eq (hbase : base < 2^64) (hlen : length < 2^64) (hne : length ≠ 0) :
    (base + length ≤ 2^64 ∧ lastAddress base length + 1 = base + length) ∨
      (2^64 < base + length ∧ lastAddress base length + 1 + 2^64 = base + length ∧
        lastAddress base length < base) := by
  unfold lastAddress sub64
  omega

/-- **a range of the map is converted**: the map stays a partition, outside of the range every address keeps its kind,
and in the range it gets what its entry is converted to -/
theorem convertRange_ranges (hconv : KeepsBounds convert) (hm : Ranges map 0 stop) (hstop : stop ≤ 2^64)
    (hlen : length < 2^64) (hne : length ≠ 0)
    (hf : Found map base (lastAddress base length) i k before range after) (hfit : base + length ≤ 2^64)
    (carried : Nat) : ∃ map', convertRange base length convert carried map i k = .ok map' ∧ Ranges map' 0 stop ∧
      (∀ p, ¬ (base ≤ p ∧ p < base + length) → kindAt map' p = kindAt map p) ∧
      ∀ p, base ≤ p → p < base + length → ∃ es1 e es2, range = es1 ++ e :: es2 ∧ e.Covers p ∧
        kindAt map' p = some (convert (carry convert carried es1) e).1.kind := by
  obtain ⟨m, n, h₁, h₂, h3⟩ := hf.ranges hm
  obtain ⟨hb, hl⟩ := hf.base_lt hm
  rcases lastAddress_eq (hb.trans_le hstop) hlen hne with ⟨-, hlast⟩ | ⟨hwrap, -, -⟩
  · have hn : n ≤ stop := Chain.le h3
    obtain ⟨e, es, hes, hcover⟩ := hf.covers_base
    have hm : m ≤ base := by
      rw [hes] at h₂
      exact (ranges_cons.mp h₂).1 ▸ hcover.1
    obtain ⟨w, r, hrun, hr, hrange, hafter, -, hbefore, hka, hconverts⟩ := convertFrom_found hconv rfl
      (by rw [hlast]) _ h₂ (by omega) (by omega) ⟨e, es, hes, hcover.2⟩ hf.covers_last (le_succ _) rfl
      (w := ⟨[], [], [], ⟨false, false⟩, carried⟩) (.inl ⟨rfl, rfl⟩)
    obtain ⟨hbefore, hkb⟩ := hbefore rfl
    subst hr
    rw [max_eq_right hm] at hrange hbefore
    unfold convertRange
    rw [hf.between, hf.take, hf.drop, hrun]
    have hpre := ranges_append.mpr ⟨m, h₁, hbefore⟩
    have hpost := ranges_append.mpr ⟨n, hafter, h3⟩
    have hnonempty : w.range ≠ [] := by
      intro hnil
      rw [hnil] at hrange
      have : base = lastAddress base length + 1 := hrange
      omega
    obtain ⟨hranges, hkinds⟩ := coreCleanupGcdMapEntry_ranges hpre hrange hpost hnonempty
    refine ⟨_, rfl, hranges, fun p hp => ?_, fun p hp hp' => ?_⟩
    · rw [hkinds, hf.eq]
      simp only [kindAt_append]
      rcases lt_or_ge p base with hlt | hge
      · -- below the range
        rw [hkb p hlt, hrange.kindAt_none (.inl hlt), hafter.kindAt_none (.inl (by omega)), or_none,
          none_or]
      · -- above it
        have hgt : lastAddress base length < p := by omega
        rw [hka p hgt, hrange.kindAt_none (.inr (by omega)), hbefore.kindAt_none (.inr hge), or_none,
          Option.or_none, Option.or_assoc]
    · obtain ⟨l1, x, l2, hw, hx⟩ := hrange.split hp (by omega)
      have hmem : x ∈ w.range := by
        rw [hw]
        simp
      obtain ⟨es1, f, es2, heq, h1, h2, hkind⟩ := hconverts x hmem
      refine ⟨es1, f, es2, heq, ⟨h1.trans hx.1, hx.2.trans h2⟩, ?_⟩
      rw [hkinds, kindAt_append, kindAt_append, hpre.kindAt_none (.inr hp), hrange.kindAt_of_mem hmem hx,
        none_or, some_or, hkind]
  · omega

lemma convertRange_single {last : Nat} {e e1 e2 bottom top : MapEntry}
    (hf : Found map base last i k before [e] after) (hbottom : splitBottom base e = ([bottom], e1))
    (htop : splitTop base length e1 = ([top], e2)) (carried : Nat) :
    convertRange base length convert carried map i k =
      .ok (coreCleanupGcdMapEntry (before ++ [bottom]) [(convert carried e2).1] (top :: after)) := by
  unfold convertRange
  rw [hf.between, hf.take, hf.drop,
    convertFrom_last _ (coreInsertGcdMapEntry_ok hbottom htop (.inr rfl) rfl), push_eq fun h => absurd rfl h]
  rfl

/-- the end of the range wrapped around, so the entry is cut into parts that overlap -/
lemma convertRange_wrapped (convert : Nat → MapEntry → MapEntry × Nat) (hm : Ranges map 0 stop)
    (hstop : stop < 2^64) (hlen : length < 2^64)
    (hne : length ≠ 0) (hf : Found map base (lastAddress base length) i k before range after)
    (hwrap : 2^64 < base + length) (carried : Nat) : ∃ e m n, range = [e] ∧ lastAddress base length < base ∧
      convertRange base length convert carried map i k =
        .ok (coreCleanupGcdMapEntry (before ++ [{ e with endAddress := m }])
          [(convert carried { e with baseAddress := base, endAddress := lastAddress base length }).1]
          ({ e with baseAddress := n } :: after)) := by
  obtain ⟨hb, hl⟩ := hf.base_lt hm
  rcases lastAddress_eq (hb.trans hstop) hlen hne with ⟨hfit, -⟩ | ⟨-, hlast, hlt⟩
  · omega
  · obtain ⟨e, rfl, hcb, hcl⟩ := hf.wrapped hm hlt
    have hbottom : e.baseAddress < base := hcl.1.trans_lt hlt
    have htop : lastAddress base length < e.endAddress := hlt.trans_le hcb.2
    exact ⟨e, _, _, rfl, hlt, convertRange_single hf (if_pos hbottom) (if_pos htop) carried⟩

/-- **the merge after a wrap**: the old map if the entry keeps its kind, otherwise the entry stays -/
theorem coreCleanupGcdMapEntry_wrapped (e x : MapEntry) (m n : Nat) (before after : List MapEntry) :
    (x.kind = e.kind → coreCleanupGcdMapEntry (before ++ [{ e with endAddress := m }]) [x]
        ({ e with baseAddress := n } :: after) = before ++ [e] ++ after) ∧
      (x.kind ≠ e.kind → x ∈ coreCleanupGcdMapEntry (before ++ [{ e with endAddress := m }]) [x]
        ({ e with baseAddress := n } :: after)) := by
  have hfold : [x].foldl mergeBackward (before ++ [{ e with endAddress := m }]).reverse =
      mergeBackward ({ e with endAddress := m } :: before.reverse) x := by
    rw [reverse_append]
    rfl
  constructor
  · intro hkind
    have hsame : x.SameKind { e with endAddress := m } := (x.sameKind_iff _).mpr hkind
    have hsame' : MapEntry.SameKind { x with baseAddress := e.baseAddress } { e with baseAddress := n } :=
      (MapEntry.sameKind_iff _ _).mpr hkind
    rw [mergeBackward_same hsame] at hfold
    rw [coreCleanupGcdMapEntry_eq hfold, mergeForward_same hsame', reverse_reverse, append_assoc, singleton_append]
    obtain ⟨⟨xb, xe, xc, xa, xm, xi⟩, xh, xd⟩ := x
    cases hkind
    rfl
  · intro hkind
    have hsame : ¬ x.SameKind { e with endAddress := m } := fun h => hkind ((x.sameKind_iff _).mp h)
    have hsame' : ¬ x.SameKind { e with baseAddress := n } := fun h => hkind ((x.sameKind_iff _).mp h)
    rw [mergeBackward_other hsame] at hfold
    rw [coreCleanupGcdMapEntry_eq hfold, mergeForward_other hsame']
    exact mem_append_right _ mem_cons_self

end

end Audk.Gcd
