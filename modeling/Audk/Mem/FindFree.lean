import Audk.Mem.PageContract

/-!
# `CoreFindFreePagesI`: the highest free run

The loop takes from every conventional entry the highest aligned run below `MaxAddress` and keeps the one with the
highest end.  Its result is the residue of a subtraction: without a run it is no page address.

* `Wraps`: all of the entry below the limit is below the first aligned address, so its end becomes `2^64 - 1`;
* `WholeSpace`: the size of the entry becomes `0`.
-/

namespace Audk.Mem

open Prog Regions Arith List Nat

/-! ## what has to be found -/

/-- an aligned run of free pages at `a`, in one entry and between the limits -/
structure FreeRun (map : List MapNode) (max min pages align a : Nat) : Prop where
  nonempty : pages ≠ 0
  above : a ≠ 0
  page : efiPageSize ∣ a
  aligned : align ∣ a
  min_le : min ≤ a
  le_max : a + pages * efiPageSize ≤ max + 1
  entry : ∃ n ∈ map, n.entry.type = efiConventionalMemory ∧ n.entry.start ≤ a ∧
    a + pages * efiPageSize ≤ n.entry.end_ + 1

/-- `r` is the highest run, or `0` if there is none -/
structure FindsHighest (map : List MapNode) (max min pages align r : Nat) : Prop where
  found : r ≠ 0 ↔ ∃ a, FreeRun map max min pages align a
  run : r ≠ 0 → FreeRun map max min pages align r
  highest : ∀ a, FreeRun map max min pages align a → a ≤ r

/-- a request: whole aligned units, and no number above 64 bits -/
structure Request (max min pages align : Nat) : Prop where
  max_lt : max < 2^64
  min_lt : min < 2^64
  pow2 : isPow2 align
  align_lt : align < 2^64
  fits : pages * efiPageSize < 2^64
  dvd : align ∣ pages * efiPageSize

/-- the entries are whole pages of the address space, and apart -/
structure MemoryMapOk (map : List MapNode) : Prop where
  paged : ∀ n ∈ map, n.entry.Paged
  end_lt : ∀ n ∈ map, n.entry.end_ < 2^64
  disjoint : map.Pairwise fun m n => DisjointEntries m.entry n.entry

/-! ## where the loop goes wrong -/

/-- the part of the entry below the limit ends below the first aligned address -/
structure Wraps (max min pages align : Nat) (n : MapNode) : Prop where
  free : n.entry.type = efiConventionalMemory
  nonempty : pages ≠ 0
  start_ne : n.entry.start ≠ 0
  below : n.entry.start < pageEnd max
  above : min ≤ n.entry.end_
  short : (if pageEnd max ≤ n.entry.end_ then pageEnd max else n.entry.end_) + 1 < align
  room : n.entry.start + pages * efiPageSize ≤ 2^64
  base : min + pages * efiPageSize ≤ 2^64
  max_ge : efiPageSize - 1 ≤ max

/-- the entry is the whole address space, and there is no limit -/
structure WholeSpace (max pages : Nat) (n : MapNode) : Prop where
  free : n.entry.type = efiConventionalMemory
  nonempty : pages ≠ 0
  start : n.entry.start = 0
  end_ : n.entry.end_ = 2^64 - 1
  max : max = 2^64 - 1

/-! ## the loop -/

/-- the loop takes the entry, up to the address `t` -/
structure Takes (max min bytes align : Nat) (n : MapNode) (t : Nat) : Prop extends Fits max bytes align n t where
  below : n.entry.start < max
  above : min ≤ n.entry.end_
  base : min ≤ (sub64 t bytes + 1) % 2^64

section
variable {max min bytes align : Nat}

lemma betterTarget_takes {n : MapNode} {t : Nat} (h : Takes max min bytes align n t) (target : Nat) :
    betterTarget max min bytes align target n = if target < t then t else target := by
  unfold betterTarget
  rw [if_neg (not_not_intro h.free), if_neg (by have := h.below; have := h.above; omega)]
  rw [← h.end_eq, if_neg (not_lt.mpr h.start_le), if_neg (not_lt.mpr h.room), if_neg (not_lt.mpr h.base)]

lemma betterTarget_skips {n : MapNode} (h : ∀ t, ¬ Takes max min bytes align n t) (target : Nat) :
    betterTarget max min bytes align target n = target := by
  unfold betterTarget
  dsimp only
  generalize hd : alignedEnd align (if max ≤ n.entry.end_ then max else n.entry.end_) = d
  split_ifs with h1 h2 h3 h4 h5 h6
  · rfl
  · rfl
  · rfl
  · rfl
  · rfl
  · rw [not_or] at h2
    exact absurd ⟨⟨hd.symm, not_lt.mp h3, not_lt.mp h4, not_not.mp h1⟩, not_le.mp h2.1, not_lt.mp h2.2, not_lt.mp h5⟩
      (h d)
  · rfl

lemma foldl_betterTarget_le_iff (map : List MapNode) (target b : Nat) :
    map.foldl (betterTarget max min bytes align) target ≤ b ↔
      target ≤ b ∧ ∀ n ∈ map, ∀ t, Takes max min bytes align n t → t ≤ b := by
  induction map generalizing target with
  | nil => simp
  | cons n ns ih =>
    rw [foldl_cons, ih, forall_mem_cons, ← and_assoc]
    refine and_congr_left fun _ => ?_
    by_cases h : ∃ t, Takes max min bytes align n t
    · obtain ⟨t, ht⟩ := h
      have hone : ∀ u, Takes max min bytes align n u → u = t := fun u hu => hu.end_eq.trans ht.end_eq.symm
      rw [betterTarget_takes ht]
      constructor
      · intro hle
        refine ⟨?_, fun u hu => ?_⟩
        · split_ifs at hle <;> omega
        · rw [hone u hu]
          split_ifs at hle <;> omega
      · rintro ⟨htarget, hall⟩
        have := hall t ht
        split_ifs <;> omega
    · rw [betterTarget_skips fun t ht => h ⟨t, ht⟩]
      exact ⟨fun hle => ⟨hle, fun t ht => absurd ⟨t, ht⟩ h⟩, fun hle => hle.1⟩

lemma le_foldl_betterTarget {map : List MapNode} {n : MapNode} (hn : n ∈ map) {t : Nat}
    (h : Takes max min bytes align n t) : t ≤ map.foldl (betterTarget max min bytes align) 0 :=
  ((foldl_betterTarget_le_iff map 0 _).mp le_rfl).2 n hn t h

lemma foldl_betterTarget_takes (max min bytes align : Nat) (map : List MapNode) (target : Nat) :
    map.foldl (betterTarget max min bytes align) target = target ∨
      ∃ n ∈ map, Takes max min bytes align n (map.foldl (betterTarget max min bytes align) target) := by
  induction map generalizing target with
  | nil => exact .inl rfl
  | cons n ns ih =>
    rw [foldl_cons]
    rcases ih (betterTarget max min bytes align target n) with heq | ⟨m, hm, hm'⟩
    · rw [heq]
      by_cases h : ∃ t, Takes max min bytes align n t
      · obtain ⟨t, ht⟩ := h
        rw [betterTarget_takes ht]
        split_ifs
        · exact .inr ⟨n, mem_cons_self, ht⟩
        · exact .inl rfl
      · exact .inl (betterTarget_skips (fun t ht => h ⟨t, ht⟩) _)
    · exact .inr ⟨m, mem_cons_of_mem _ hm, hm'⟩

end

/-! ## the ends -/

lemma pageEnd_spec {max : Nat} (h : efiPageSize - 1 ≤ max) :
    efiPageSize ∣ pageEnd max + 1 ∧ pageEnd max ≤ max ∧ ∀ x, efiPageSize ∣ x → x ≤ max + 1 → x ≤ pageEnd max + 1 := by
  unfold pageEnd efiPageSize at *
  split_ifs
  · exact ⟨by omega, by omega, fun x hx hle => by omega⟩
  · exact ⟨by omega, le_rfl, fun x _ hle => hle⟩

lemma sub64_zero_one : sub64 0 1 = 2^64 - 1 := by norm_num [sub64]

/-- the aligned end of an entry; below the first aligned address it wraps around -/
lemma alignedEnd_cases {align e : Nat} (hpow : isPow2 align) (halign : align < 2^64) (he : e < 2^64)
    (hpage : efiPageSize ∣ e + 1) : (e + 1 < align ∧ alignedEnd align e = 2^64 - 1) ∨
      (align ∣ alignedEnd align e + 1 ∧ efiPageSize ∣ alignedEnd align e + 1 ∧ alignedEnd align e ≤ e ∧
        ∀ x, align ∣ x → x ≤ e + 1 → x ≤ alignedEnd align e + 1) := by
  have hpos := isPow2_pos hpow
  have hpage64 : efiPageSize ∣ 2^64 := by decide
  have halign64 : align ∣ 2^64 := isPow2_dvd hpow (isPow2_iff.mpr ⟨64, rfl⟩) halign.le
  by_cases htop : e + 1 = 2^64
  · have hend : alignedEnd align e = 2^64 - 1 := by
      unfold alignedEnd
      rw [htop, Nat.mod_self, Nat.zero_div, Nat.zero_mul, sub64_zero_one]
    rw [hend]
    exact .inr ⟨halign64, hpage64, by omega, fun x _ hx => by omega⟩
  · obtain ⟨q, hq⟩ : ∃ q, (e + 1) / align * align = q := ⟨_, rfl⟩
    have hle : q ≤ e + 1 := hq ▸ div_mul_le_self _ _
    have hdvd : align ∣ q := hq ▸ Dvd.intro_left _ rfl
    have hend : alignedEnd align e = sub64 q 1 := by
      unfold alignedEnd
      rw [mod_eq_of_lt (by omega), hq]
    rw [hend]
    by_cases hshort : e + 1 < align
    · rw [div_eq_of_lt hshort, zero_mul] at hq
      exact .inl ⟨hshort, hq ▸ sub64_zero_one⟩
    have hq0 : 0 < q := hq ▸ mul_pos (div_pos (not_lt.mp hshort) hpos) hpos
    have hsub : sub64 q 1 + 1 = q := by
      unfold sub64
      omega
    -- a smaller alignment divides the page, a larger one is a multiple of it
    have hqpage : efiPageSize ∣ q := by
      rcases le_total align efiPageSize with hsmall | hlarge
      · have : align ∣ e + 1 := (isPow2_dvd hpow (by decide) hsmall).trans hpage
        rw [← hq, Nat.div_mul_cancel this]
        exact hpage
      · exact (isPow2_dvd (by decide) hpow hlarge).trans hdvd
    rw [hsub]
    refine .inr ⟨hdvd, hqpage, by omega, fun x hx hxe => ?_⟩
    obtain ⟨c, rfl⟩ := hx
    rw [← hq, mul_comm align c]
    exact mul_le_mul_right _ ((le_div_iff_mul_le hpos).mpr (mul_comm align c ▸ hxe))

section
variable {map : List MapNode} {max min pages align : Nat} {n : MapNode}

lemma clippedEnd_spec (hge : efiPageSize - 1 ≤ max) (hpaged : n.entry.Paged) (hend : n.entry.end_ < 2^64) {e : Nat}
    (he : e = if pageEnd max ≤ n.entry.end_ then pageEnd max else n.entry.end_) :
    efiPageSize ∣ e + 1 ∧ e < 2^64 ∧ e ≤ n.entry.end_ ∧ e ≤ max ∧
      ∀ x, efiPageSize ∣ x → x ≤ max + 1 → x ≤ n.entry.end_ + 1 → x ≤ e + 1 := by
  obtain ⟨hpage, hle, hall⟩ := pageEnd_spec hge
  have hend' := hpaged.end_aligned
  split_ifs at he with hc
  · subst he
    exact ⟨hpage, by omega, hc, hle, fun x hx hxm _ => hall x hx hxm⟩
  · subst he
    exact ⟨hend', hend, le_rfl, by omega, fun x _ _ hxe => hxe⟩

lemma Request.bytes (h : Request max min pages align) : efiPagesToSize pages = pages * efiPageSize :=
  mod_eq_of_lt h.fits

/-- what the loop takes is a run, or has wrapped around -/
lemma Takes.cases (hreq : Request max min pages align) (hge : efiPageSize - 1 ≤ max) (hne : pages ≠ 0)
    (hpaged : n.entry.Paged) (hend : n.entry.end_ < 2^64) {t : Nat}
    (h : Takes (pageEnd max) min (pages * efiPageSize) align n t) :
    efiPageSize ∣ t + 1 ∧ pages * efiPageSize ≤ t + 1 ∧ t < 2^64 ∧ ((Wraps max min pages align n ∧ t = 2^64 - 1) ∨
        (align ∣ t + 1 ∧ n.entry.start + pages * efiPageSize ≤ t + 1 ∧ t ≤ n.entry.end_ ∧ t ≤ max ∧
          min + pages * efiPageSize ≤ t + 1)) := by
  obtain ⟨e, he⟩ : ∃ e, e = if pageEnd max ≤ n.entry.end_ then pageEnd max else n.entry.end_ := ⟨_, rfl⟩
  obtain ⟨hepage, he64, hen, hemax, -⟩ := clippedEnd_spec hge hpaged hend he
  have ht := h.end_eq
  have hroom := h.room
  have hstart := h.start_le
  have hbase := h.base
  have hpos : 0 < pages * efiPageSize := mul_pos (pos_of_ne_zero hne) (by decide)
  rw [← he] at ht
  rcases alignedEnd_cases hreq.pow2 hreq.align_lt he64 hepage with ⟨hshort, hwrap⟩ | ⟨halign, hpage, hle, -⟩
  · rw [hwrap] at ht
    subst ht
    have hsub : (sub64 (2^64 - 1) (pages * efiPageSize) + 1) % 2^64 = 2^64 - pages * efiPageSize := by
      unfold sub64
      omega
    refine ⟨by decide, by omega, by norm_num, .inl ⟨?_, rfl⟩⟩
    exact {
      free := h.free
      nonempty := hne
      start_ne := by omega
      below := h.below
      above := h.above
      short := he ▸ hshort
      room := by omega
      base := by omega
      max_ge := hge }
  · rw [← ht] at halign hpage hle
    have hroom' : n.entry.start + pages * efiPageSize ≤ t + 1 := by
      omega
    have hsub : (sub64 t (pages * efiPageSize) + 1) % 2^64 = t + 1 - pages * efiPageSize := by
      unfold sub64
      omega
    exact ⟨hpage, by omega, by omega, .inr ⟨halign, hroom', by omega, by omega, by omega⟩⟩

/-- an entry that holds a run is taken, up to the end of the run at least -/
lemma FreeRun.takes (hreq : Request max min pages align) (hmap : MemoryMapOk map) {a : Nat}
    (h : FreeRun map max min pages align a) : ∃ n ∈ map, WholeSpace max pages n ∨
      ∃ t, Takes (pageEnd max) min (pages * efiPageSize) align n t ∧ a + pages * efiPageSize ≤ t + 1 := by
  obtain ⟨n, hn, hfree, hstart, hn_end⟩ := h.entry
  have hpos : 0 < pages * efiPageSize := mul_pos (pos_of_ne_zero h.nonempty) (by decide)
  have hrunpage : efiPageSize ∣ a + pages * efiPageSize := dvd_add h.page (Dvd.intro_left _ rfl)
  have hrunalign : align ∣ a + pages * efiPageSize := dvd_add h.aligned hreq.dvd
  have hmaxle := h.le_max
  have hmin := h.min_le
  have hge : efiPageSize - 1 ≤ max := by
    have := le_of_dvd (by omega) hrunpage
    omega
  have hend := hmap.end_lt n hn
  have hpaged := hmap.paged n hn
  obtain ⟨e, he⟩ : ∃ e, e = if pageEnd max ≤ n.entry.end_ then pageEnd max else n.entry.end_ := ⟨_, rfl⟩
  obtain ⟨hepage, he64, hen, hemax, hall⟩ := clippedEnd_spec hge hpaged hend he
  have hrun_e := hall _ hrunpage hmaxle hn_end
  have hbelow : n.entry.start < pageEnd max := by
    have hlimit := (pageEnd_spec hge).2.2 _ hrunpage hmaxle
    unfold efiPageSize at *
    omega
  refine ⟨n, hn, ?_⟩
  rcases alignedEnd_cases hreq.pow2 hreq.align_lt he64 hepage with ⟨hshort, -⟩ | ⟨-, -, hle, hhigh⟩
  · have := le_of_dvd (by omega) hrunalign
    omega
  have hrun_t := hhigh _ hrunalign hrun_e
  by_cases hwhole : n.entry.start = 0 ∧ alignedEnd align e = 2^64 - 1
  · refine .inl ⟨hfree, h.nonempty, hwhole.1, by omega, ?_⟩
    have := hreq.max_lt
    omega
  · refine .inr ⟨alignedEnd align e, ⟨⟨by rw [he], by omega, ?_, hfree⟩, hbelow, by omega, ?_⟩, hrun_t⟩
    · rw [mod_eq_of_lt (by omega)]
      omega
    · unfold sub64
      omega

/-! ## the result -/

section
variable (hreq : Request max min pages align)
include hreq

lemma coreFindFreePagesI_eq (hge : efiPageSize - 1 ≤ max) (hne : pages ≠ 0)
    (hmap : MemoryMapOk map) {n : MapNode} (hn : n ∈ map) {t : Nat}
    (h : Takes (pageEnd max) min (pages * efiPageSize) align n t)
    (ht : map.foldl (betterTarget (pageEnd max) min (pages * efiPageSize) align) 0 = t) :
    coreFindFreePagesI map max min pages align = t + 1 - pages * efiPageSize := by
  have hpos : 0 < pages * efiPageSize := mul_pos (pos_of_ne_zero hne) (by decide)
  obtain ⟨hpage, hle, ht64, -⟩ := h.cases hreq hge hne (hmap.paged n hn) (hmap.end_lt n hn)
  have hsub : sub64 t (sub64 (pages * efiPageSize) 1) = t + 1 - pages * efiPageSize := by
    unfold sub64
    omega
  have hdvd : efiPageSize ∣ t + 1 - pages * efiPageSize := dvd_sub hpage (Dvd.intro_left _ rfl)
  unfold coreFindFreePagesI
  rw [if_neg (by omega)]
  dsimp only
  rw [hreq.bytes, ht, hsub, if_neg (not_not_intro (mod_eq_zero_of_dvd hdvd))]

/-- the loop has taken no entry, or one of those with the highest end -/
lemma coreFindFreePagesI_cases (hmap : MemoryMapOk map) :
    (coreFindFreePagesI map max min pages align = 0 ∧ (pages ≠ 0 → efiPageSize - 1 ≤ max →
        ∀ n ∈ map, ∀ t, ¬ Takes (pageEnd max) min (pages * efiPageSize) align n t)) ∨
      ∃ n ∈ map, ∃ t, Takes (pageEnd max) min (pages * efiPageSize) align n t ∧ pages ≠ 0 ∧ efiPageSize - 1 ≤ max ∧
        coreFindFreePagesI map max min pages align = t + 1 - pages * efiPageSize ∧
        ∀ m ∈ map, ∀ u, Takes (pageEnd max) min (pages * efiPageSize) align m u → u ≤ t := by
  by_cases hzero : max < efiPageSize - 1 ∨ pages = 0
  · refine .inl ⟨?_, fun hne hge => absurd hzero (by omega)⟩
    unfold coreFindFreePagesI
    rw [if_pos hzero]
  rw [not_or, not_lt] at hzero
  by_cases hany : ∃ n ∈ map, ∃ t, Takes (pageEnd max) min (pages * efiPageSize) align n t
  · obtain ⟨m, hm, u, hu⟩ := hany
    rcases foldl_betterTarget_takes (pageEnd max) min (pages * efiPageSize) align map 0 with h0 | ⟨n, hn, hn'⟩
    · -- the end of what is taken is not `0`
      have hle := le_foldl_betterTarget hm hu
      obtain ⟨hpage, -⟩ := hu.cases hreq hzero.1 hzero.2 (hmap.paged m hm) (hmap.end_lt m hm)
      rw [h0] at hle
      have hu0 : u = 0 := le_zero.mp hle
      rw [hu0] at hpage
      exact absurd hpage (by decide)
    · exact .inr ⟨n, hn, _, hn', hzero.2, hzero.1, coreFindFreePagesI_eq hreq hzero.1 hzero.2 hmap hn hn' rfl,
        fun m hm u hu => le_foldl_betterTarget hm hu⟩
  · refine .inl ⟨?_, fun _ _ n hn t ht => hany ⟨n, hn, t, ht⟩⟩
    have h0 : map.foldl (betterTarget (pageEnd max) min (pages * efiPageSize) align) 0 = 0 := by
      refine le_zero.mp ((foldl_betterTarget_le_iff map 0 0).mpr ⟨le_rfl, fun n hn t ht => ?_⟩)
      exact absurd ⟨n, hn, t, ht⟩ hany
    unfold coreFindFreePagesI
    rw [if_neg (by omega)]
    dsimp only
    rw [hreq.bytes, h0]
    refine if_pos ?_
    unfold sub64 efiPageSize at *
    omega

/-- an entry that wraps around is taken up to `2^64 - 1` -/
lemma Wraps.takes (hmap : MemoryMapOk map) (hn : n ∈ map)
    (h : Wraps max min pages align n) : Takes (pageEnd max) min (pages * efiPageSize) align n (2^64 - 1) := by
  obtain ⟨e, he⟩ : ∃ e, e = if pageEnd max ≤ n.entry.end_ then pageEnd max else n.entry.end_ := ⟨_, rfl⟩
  have hshort := h.short
  have hstart := h.start_ne
  have hroom := h.room
  have hbase := h.base
  have hpos : 0 < pages * efiPageSize := mul_pos (pos_of_ne_zero h.nonempty) (by decide)
  rw [← he] at hshort
  have hend : alignedEnd align e = 2^64 - 1 := by
    unfold alignedEnd
    rw [mod_eq_of_lt (by have := hreq.align_lt; omega), div_eq_of_lt hshort, zero_mul,
      sub64_zero_one]
  refine ⟨⟨?_, by omega, ?_, h.free⟩, h.below, h.above, ?_⟩
  · rw [← he, hend]
  · rw [mod_eq_of_lt (by omega)]
    omega
  · unfold sub64
    omega

end

/-- no entry is taken beside the whole space, and it is not taken itself -/
lemma WholeSpace.not_takes (hmap : MemoryMapOk map) (hn : n ∈ map) (h : WholeSpace max pages n) {m : MapNode}
    (hm : m ∈ map) {t : Nat} : ¬ Takes (pageEnd max) min (pages * efiPageSize) align m t := by
  intro ht
  have hstart := h.start
  have hend := h.end_
  have hmend := hmap.end_lt m hm
  have hpos : 0 < pages * efiPageSize := mul_pos (pos_of_ne_zero h.nonempty) (by decide)
  by_cases hmn : m = n
  · subst hmn
    have hclip : t = alignedEnd align (2^64 - 1) := by
      rw [ht.end_eq, hend, h.max]
      rfl
    have htop : alignedEnd align (2^64 - 1) = 2^64 - 1 := by
      unfold alignedEnd
      rw [show (2^64 - 1 + 1) % 2^64 = 0 by decide, Nat.zero_div, Nat.zero_mul, sub64_zero_one]
    have hroom := ht.room
    omega
  · have hsymm : Std.Symm fun m n : MapNode => DisjointEntries m.entry n.entry := ⟨fun m n h => h.symm⟩
    have hdis := hmap.disjoint.forall hm hn hmn
    have := (hmap.paged m hm).nonempty
    rcases hdis with hlt | hlt <;> omega

/-- **the function finds the highest run** if and only if no entry below the first aligned address wraps around,
unless the last pages of the address space are that run, and the map is not one entry with too many pages -/
theorem coreFindFreePagesI_highest_iff (hreq : Request max min pages align) (hmap : MemoryMapOk map) :
    FindsHighest map max min pages align (coreFindFreePagesI map max min pages align) ↔
      (∀ n ∈ map, Wraps max min pages align n → FreeRun map max min pages align (2^64 - pages * efiPageSize)) ∧
      (∀ n ∈ map, WholeSpace max pages n → 2^64 - pages * efiPageSize < min) := by
  have hfits := hreq.fits
  constructor
  · intro h
    refine ⟨fun n hn hwraps => ?_, fun n hn hwhole => ?_⟩
    · have htakes := hwraps.takes hreq hmap hn
      rcases coreFindFreePagesI_cases hreq hmap with ⟨-, hnone⟩ | ⟨m, hm, t, ht, hne, hge, hr, hbest⟩
      · exact absurd htakes (hnone hwraps.nonempty hwraps.max_ge n hn _)
      · have hle := hbest n hn _ htakes
        obtain ⟨-, -, ht64, -⟩ := ht.cases hreq hge hne (hmap.paged m hm) (hmap.end_lt m hm)
        have hr' : coreFindFreePagesI map max min pages align = 2^64 - pages * efiPageSize := by omega
        exact hr' ▸ h.run (by omega)
    · by_contra hmin
      have hpage : efiPageSize ∣ 2^64 - pages * efiPageSize := dvd_sub (by decide) (Dvd.intro_left _ rfl)
      have halign : align ∣ 2^64 - pages * efiPageSize :=
        dvd_sub (isPow2_dvd hreq.pow2 (isPow2_iff.mpr ⟨64, rfl⟩) hreq.align_lt.le) hreq.dvd
      have hrun : FreeRun map max min pages align (2^64 - pages * efiPageSize) := {
        nonempty := hwhole.nonempty
        above := by omega
        page := hpage
        aligned := halign
        min_le := not_lt.mp hmin
        le_max := by have := hwhole.max; omega
        entry := ⟨n, hn, hwhole.free, by have := hwhole.start; omega, by have := hwhole.end_; omega⟩ }
      rcases coreFindFreePagesI_cases hreq hmap with ⟨h0, -⟩ | ⟨m, hm, t, ht, -⟩
      · exact (h.found.mpr ⟨_, hrun⟩) h0
      · exact hwhole.not_takes hmap hn hm ht
  · rintro ⟨hwraps, hwhole⟩
    -- a run is at or below the result
    have hhigh : ∀ a, FreeRun map max min pages align a → a ≤ coreFindFreePagesI map max min pages align := by
      intro a ha
      have hne := ha.nonempty
      have habove := ha.above
      have hmin := ha.min_le
      obtain ⟨n, hn, hw | ⟨t, ht, hat⟩⟩ := ha.takes hreq hmap
      · have hlt := hwhole n hn hw
        obtain ⟨m, hm, -, -, hm_end⟩ := ha.entry
        have := hmap.end_lt m hm
        omega
      have hge : efiPageSize - 1 ≤ max := by
        have hle := ha.le_max
        have hpage := le_of_dvd (by omega) ha.page
        omega
      rcases coreFindFreePagesI_cases hreq hmap with ⟨-, hnone⟩ | ⟨m, hm, u, hu, -, -, hr, hbest⟩
      · exact absurd ht (hnone hne hge n hn t)
      · have := hbest n hn t ht
        omega
    -- the result is a run
    have hrun : coreFindFreePagesI map max min pages align ≠ 0 →
        FreeRun map max min pages align (coreFindFreePagesI map max min pages align) := by
      intro hr0
      rcases coreFindFreePagesI_cases hreq hmap with ⟨h0, -⟩ | ⟨n, hn, t, ht, hne, hge, hr, -⟩
      · exact absurd h0 hr0
      obtain ⟨hpage, hle, ht64, ⟨hw, htop⟩ | ⟨halign, hstart, hend, hmax, hmin⟩⟩ :=
        ht.cases hreq hge hne (hmap.paged n hn) (hmap.end_lt n hn)
      · have hr' : coreFindFreePagesI map max min pages align = 2^64 - pages * efiPageSize := by omega
        rw [hr']
        exact hwraps n hn hw
      rw [hr] at hr0 ⊢
      exact {
        nonempty := hne
        above := hr0
        page := dvd_sub hpage (Dvd.intro_left _ rfl)
        aligned := dvd_sub halign hreq.dvd
        min_le := by omega
        le_max := by omega
        entry := ⟨n, hn, ht.free, by omega, by omega⟩ }
    refine ⟨⟨fun hr0 => ⟨_, hrun hr0⟩, ?_⟩, hrun, hhigh⟩
    rintro ⟨a, ha⟩
    have := hhigh a ha
    have := ha.above
    omega

end

/-- two free pages at `0x100000`, and eight at `0x1000` -/
def lowAndHigh : List MapNode :=
  [⟨⟨efiConventionalMemory, 0x1000, 0x8fff, 0, 0xf⟩, .heap⟩,
    ⟨⟨efiConventionalMemory, 0x100000, 0x101fff, 0, 0xf⟩, .heap⟩]

lemma lowAndHigh_ok : MemoryMapOk lowAndHigh where
  paged := by
    intro n hn
    fin_cases hn <;> exact ⟨by decide, by decide, by decide⟩
  end_lt := by decide
  disjoint := by
    refine pairwise_pair.mpr ?_
    exact .inl (by decide)

theorem lowAndHigh_highest :
    FindsHighest lowAndHigh 0xffffffff 0 1 0x1000 (coreFindFreePagesI lowAndHigh 0xffffffff 0 1 0x1000) := by
  have hreq : Request 0xffffffff 0 1 0x1000 :=
    ⟨by norm_num, by norm_num, by decide, by norm_num, by decide, by decide⟩
  refine (coreFindFreePagesI_highest_iff hreq lowAndHigh_ok).mpr ⟨fun n hn hw => ?_, fun n hn hw => ?_⟩
  · have hshort := hw.short
    fin_cases hn <;> exact absurd hshort (by decide)
  · exact absurd hw.max (by decide)

/-- sixteen pages that are aligned to 64 KiB are "found" in the lower entry, at the end of the address space, and
there is no such run -/
theorem lowAndHigh_not_highest :
    coreFindFreePagesI lowAndHigh 0xffffffff 0 16 0x10000 = 0xffffffffffff0000 ∧
      ¬ FindsHighest lowAndHigh 0xffffffff 0 16 0x10000 (coreFindFreePagesI lowAndHigh 0xffffffff 0 16 0x10000) := by
  have hfound : coreFindFreePagesI lowAndHigh 0xffffffff 0 16 0x10000 = 0xffffffffffff0000 := by decide +kernel
  refine ⟨hfound, fun h => ?_⟩
  have hrun := h.run (by rw [hfound]; decide)
  rw [hfound] at hrun
  exact absurd hrun.le_max (by decide)

end Audk.Mem
