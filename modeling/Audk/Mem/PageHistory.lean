import Audk.Mem.PageContract

/-!
# Histories of the page allocator

The operations on the map, one after the other.  `Operation.run` is one of them, `History` is a sequence
of them in which no `ASSERT` fails.

* `wp_reserveBins`, `wp_finishBins`: the bins of the memory types are allocated and freed again, and leave
  no trace in the map;
* `History.invariant`: the map stays a list of disjoint whole pages in heap descriptors, has exactly the
  pages that were added or promoted, and an operation changes only the pages it is asked for.
-/

namespace Audk.Mem

open Prog Regions List Function Option Nat

/-! ## the bins of the memory types -/

/-- the type, the first and the last address of a bin -/
def binType (s : PageState) (i : Nat) : Nat := (s.info i).type

def binStart (s : PageState) (i : Nat) : Nat := (s.stats (binType s i)).baseAddress

def binPages (arch : Arch) (s : PageState) (i : Nat) : Nat :=
  roundPages (s.info i).numberOfPages (pageAlignment arch (binType s i))

def InReserved (arch : Arch) (s : PageState) (i a : Nat) : Prop :=
  Within (binStart s i) (requestEnd (binStart s i) (binPages arch s i)) a

structure Held (arch : Arch) (s : PageState) (i : Nat) : Prop where
  type_ne : binType s i ≠ efiConventionalMemory
  start_lt : binStart s i < 2^64
  aligned : pageAlignment arch (binType s i) ∣ binStart s i
  pages : binPages arch s i ≠ 0
  nonempty : binStart s i < requestEnd (binStart s i) (binPages arch s i)
  label : ∀ a, InReserved arch s i a → ∃ attr, pageAt s a = some (binType s i, attr)

/-- the bins `is` are allocated; if they were free, the map would be as in `s₀` -/
structure Reserved (arch : Arch) (s₀ : PageState) (is : List Nat) (s : PageState) : Prop where
  valid : Valid arch s
  rests : s.mMapDepth = 0
  evolves : MapEvolves arch (fun _ => True) s₀ s
  held : ∀ i ∈ is, HasBin s i → Held arch s i
  outside : ∀ a, (∀ i ∈ is, HasBin s i → ¬ InReserved arch s i a) → Background arch s₀ a (pageAt s₀ a) (pageAt s a)
  inside : ∀ i ∈ is, HasBin s i → ∀ a, InReserved arch s i a → ∀ attr,
    pageAt s a = some (binType s i, attr) → Background arch s₀ a (pageAt s₀ a) (some (efiConventionalMemory, attr))

/-- before the bins are set up, the counters use no entry of `gMemoryTypeInformation` but the last one -/
structure InfoOk (s : PageState) : Prop where
  last : (s.info efiMaxMemoryType).type = efiMaxMemoryType
  index : ∀ t, (s.stats t).informationIndex = efiMaxMemoryType
  pages : ∀ i, (s.info i).numberOfPages < 2^32
  distinct : ∀ i j, i < efiMaxMemoryType → j < efiMaxMemoryType → i ≠ j → HasBin s i → HasBin s j →
    (s.info i).type ≠ (s.info j).type

/-- what the other bins know of a state -/
structure SameBinsOn (is : List Nat) (s s' : PageState) : Prop where
  info : ∀ i ∈ is, s'.info i = s.info i
  base : ∀ i ∈ is, HasBin s i → (s'.stats (s.info i).type).baseAddress = (s.stats (s.info i).type).baseAddress

section
variable {arch : Arch} {s₀ s s' : PageState} {is : List Nat} {i : Nat}

section
variable (h : SameBinsOn is s s')
include h

section
variable (hi : i ∈ is)
include hi

lemma SameBinsOn.binType : binType s' i = binType s i := by
  unfold Mem.binType
  rw [h.info i hi]

lemma SameBinsOn.hasBin : HasBin s' i ↔ HasBin s i := by
  unfold HasBin
  rw [h.info i hi]

lemma SameBinsOn.binPages : binPages arch s' i = binPages arch s i := by
  unfold Mem.binPages
  rw [h.binType hi, h.info i hi]

lemma SameBinsOn.binStart (hbin : HasBin s i) :
    binStart s' i = binStart s i := by
  unfold Mem.binStart
  rw [h.binType hi]
  exact h.base i hi hbin

lemma SameBinsOn.inReserved (hbin : HasBin s i) (a : Nat) :
    InReserved arch s' i a ↔ InReserved arch s i a := by
  unfold InReserved
  rw [h.binStart hi hbin, h.binPages hi]

end

end

lemma Held.step (h : Held arch s i) (hi : i ∈ is) (hbin : HasBin s i) (hb : SameBinsOn is s s')
    (hpage : ∀ a, InReserved arch s i a → pageAt s' a = pageAt s a) : Held arch s' i where
  type_ne := by
    rw [hb.binType hi]
    exact h.type_ne
  start_lt := by
    rw [hb.binStart hi hbin]
    exact h.start_lt
  aligned := by
    rw [hb.binType hi, hb.binStart hi hbin]
    exact h.aligned
  pages := by
    rw [hb.binPages hi]
    exact h.pages
  nonempty := by
    rw [hb.binStart hi hbin, hb.binPages hi]
    exact h.nonempty
  label := by
    intro a ha
    rw [hb.inReserved hi hbin] at ha
    rw [hb.binType hi, hpage a ha]
    exact h.label a ha

lemma held_transfer (s₀ : PageState) (is : List Nat) (hheld : ∀ i ∈ is, HasBin s i → Held arch s i)
    (hinside : ∀ i ∈ is, HasBin s i → ∀ a, InReserved arch s i a → ∀ attr, pageAt s a = some (binType s i, attr) →
        Background arch s₀ a (pageAt s₀ a) (some (efiConventionalMemory, attr))) (hb : SameBinsOn is s s')
    (hpage : ∀ i ∈ is, HasBin s i → ∀ a, InReserved arch s i a → pageAt s' a = pageAt s a) :
    (∀ i ∈ is, HasBin s' i → Held arch s' i) ∧
    ∀ i ∈ is, HasBin s' i → ∀ a, InReserved arch s' i a → ∀ attr, pageAt s' a = some (binType s' i, attr) →
      Background arch s₀ a (pageAt s₀ a) (some (efiConventionalMemory, attr)) := by
  refine ⟨fun i hi hbin => ?_, fun i hi hbin a ha attr hv => ?_⟩
  · rw [hb.hasBin hi] at hbin
    exact (hheld i hi hbin).step hi hbin hb (hpage i hi hbin)
  · rw [hb.hasBin hi] at hbin
    rw [hb.inReserved hi hbin] at ha
    rw [hpage i hi hbin a ha, hb.binType hi] at hv
    exact hinside i hi hbin a ha attr hv

section
variable (h : Reserved arch s₀ is s)
include h

lemma Reserved.step (hs' : Valid arch s') (hrests : s'.mMapDepth = 0)
    (hev : MapEvolves arch Nobody s s') (hb : SameBinsOn is s s') : Reserved arch s₀ is s' := by
  obtain ⟨hheld, hinside⟩ := held_transfer s₀ is h.held h.inside hb fun i hi hbin a ha => by
    obtain ⟨attr, hv⟩ := (h.held i hi hbin).label a ha
    exact (hev.other a id).eq hv (h.held i hi hbin).type_ne
  refine ⟨hs', hrests, h.evolves.trans (hev.mono fun a ha => trivial), hheld, fun a ha => ?_, hinside⟩
  refine (h.outside a fun i hi hbin hin => ?_).trans (hev.other a id) fun attr => h.evolves.promotable
  exact ha i hi ((hb.hasBin hi).mpr hbin) ((hb.inReserved hi hbin a).mpr hin)

lemma Reserved.of_eq (hmap : s'.gMemoryMap = s.gMemoryMap)
    (hdepth : s'.mMapDepth = s.mMapDepth) (hgcd : s'.mGcdMemorySpaceMap = s.mGcdMemorySpaceMap)
    (hkey : s'.mMemoryMapKey = s.mMemoryMapKey) (hb : SameBinsOn is s s') : Reserved arch s₀ is s' :=
  h.step (h.valid.of_eq hmap hdepth hgcd) (hdepth.trans h.rests) (MapEvolves.of_eq hmap hgcd hkey) hb

lemma Reserved.skip (hbin : ¬ HasBin s i) : Reserved arch s₀ (is ++ [i]) s where
  valid := h.valid
  rests := h.rests
  evolves := h.evolves
  held := by
    intro j hj hbin'
    rcases mem_append.mp hj with hj | hj
    · exact h.held j hj hbin'
    · rw [mem_singleton.mp hj] at hbin'
      exact absurd hbin' hbin
  outside := fun a ha => h.outside a fun j hj => ha j (mem_append_left _ hj)
  inside := by
    intro j hj hbin'
    rcases mem_append.mp hj with hj | hj
    · exact h.inside j hj hbin'
    · rw [mem_singleton.mp hj] at hbin'
      exact absurd hbin' hbin

end

lemma Reserved.tail (h : Reserved arch s₀ (i :: is) s) (hbin : ¬ HasBin s i) : Reserved arch s₀ is s where
  valid := h.valid
  rests := h.rests
  evolves := h.evolves
  held := fun j hj => h.held j (mem_cons_of_mem _ hj)
  outside := by
    intro a ha
    refine h.outside a fun j hj hbin' => ?_
    rcases mem_cons.mp hj with rfl | hj
    · exact absurd hbin' hbin
    · exact ha j hj hbin'
  inside := fun j hj => h.inside j (mem_cons_of_mem _ hj)

lemma sameBinsOn_of_sameBins (h : SameBins s s') (hinfo : InfoOk s)
    (his : ∀ i ∈ is, i < efiMaxMemoryType) : SameBinsOn is s s' where
  info := by
    intro i hi
    refine h.info i fun t ht => ?_
    have := his i hi
    rw [hinfo.index t] at ht
    omega
  base := fun i hi _ => h.base _

lemma SameBinsOn.trans {s'' : PageState} (h : SameBinsOn is s s') (h' : SameBinsOn is s' s'') :
    SameBinsOn is s s'' where
  info := fun i hi => (h'.info i hi).trans (h.info i hi)
  base := by
    intro i hi hbin
    have h1 := h'.base i hi ((h.hasBin hi).mpr hbin)
    rw [h.info i hi] at h1
    exact h1.trans (h.base i hi hbin)

lemma sameBinsOn_setStats (hinfo : InfoOk s) (hi : i < efiMaxMemoryType) (hbin : HasBin s i)
    (his : ∀ j ∈ is, j < efiMaxMemoryType) (hmem : i ∉ is) (f : MemoryTypeStatistics → MemoryTypeStatistics) :
    SameBinsOn is s (setStats (s.info i).type f s) where
  info := fun j hj => rfl
  base := by
    intro j hj hbin'
    have hne : (s.info j).type ≠ (s.info i).type :=
      hinfo.distinct j i (his j hj) hi (fun h => hmem (h ▸ hj)) hbin' hbin
    unfold setStats
    dsimp only
    rw [update_of_ne hne]

lemma InfoOk.step (h : InfoOk s) (hb : SameBins s s') : InfoOk s' where
  last := by
    rw [hb.type]
    exact h.last
  index := by
    intro t
    rw [hb.index]
    exact h.index t
  pages := hb.small h.pages
  distinct := by
    intro i j hi hj hij h1 h2
    have hsame (k : Nat) (hk : k < efiMaxMemoryType) : s'.info k = s.info k :=
      hb.info k fun t ht => by
        rw [h.index t] at ht
        omega
    unfold HasBin at h1 h2
    rw [hsame i hi] at h1 ⊢
    rw [hsame j hj] at h2 ⊢
    exact h.distinct i j hi hj hij h1 h2

lemma sameBinsOn_clearBin (hmem : i ∉ is) (s : PageState) : SameBinsOn is s (clearBin i s) where
  info := by
    intro j hj
    have hne : j ≠ i := fun h => hmem (h ▸ hj)
    exact update_of_ne hne _ _
  base := fun j hj _ => rfl

lemma InfoOk.clearBin (h : InfoOk s) (hi : i < efiMaxMemoryType) : InfoOk (clearBin i s) := by
  have hother (j : Nat) (hj : j ≠ i) : (Mem.clearBin i s).info j = s.info j := update_of_ne hj _ _
  have hself : (Mem.clearBin i s).info i = ⟨(s.info i).type, 0⟩ := update_self _ _ _
  have hne (j : Nat) (hj : HasBin (Mem.clearBin i s) j) : j ≠ i := by
    intro hji
    unfold HasBin at hj
    rw [hji, hself] at hj
    exact hj.2 rfl
  refine ⟨?_, h.index, fun j => ?_, fun j k hj hk hjk h1 h2 => ?_⟩
  · rw [hother _ (by omega)]
    exact h.last
  · by_cases hji : j = i
    · rw [hji, hself]
      norm_num
    · rw [hother j hji]
      exact h.pages j
  · have h1' := hne j h1
    have h2' := hne k h2
    unfold HasBin at h1 h2
    rw [hother j h1'] at h1 ⊢
    rw [hother k h2'] at h2 ⊢
    exact h.distinct j k hj hk hjk h1 h2

lemma InfoOk.setStats (h : InfoOk s) (type : Nat) (f : MemoryTypeStatistics → MemoryTypeStatistics)
    (hf : ∀ st, (f st).informationIndex = st.informationIndex) : InfoOk (setStats type f s) where
  last := h.last
  index := by
    intro t
    unfold Mem.setStats
    dsimp only
    by_cases ht : t = type
    · rw [ht, update_self, hf]
      exact h.index type
    · rw [update_of_ne ht]
      exact h.index t
  pages := h.pages
  distinct := h.distinct

variable {A : Nat}

def BasesOk (s : PageState) : Prop := ∀ t, (s.stats t).baseAddress < 2^64

lemma BasesOk.step (h : BasesOk s) (hb : SameBins s s') : BasesOk s' := fun t => by
  rw [hb.base]
  exact h t

lemma BasesOk.setStats (h : BasesOk s) (type : Nat) (f : MemoryTypeStatistics → MemoryTypeStatistics)
    (hf : ∀ st, st.baseAddress < 2^64 → (f st).baseAddress < 2^64) : BasesOk (setStats type f s) := by
  intro t
  unfold Mem.setStats
  dsimp only
  by_cases ht : t = type
  · rw [ht, update_self]
    exact hf _ (h type)
  · rw [update_of_ne ht]
    exact h t

lemma BasesOk.place (h : BasesOk s) (hA : A < 2^64) : BasesOk (placeBin i A s) :=
  h.setStats (s.info i).type (fun st =>
    { st with
      baseAddress := A
      maximumAddress := sub64 ((A + efiPagesToSize (s.info i).numberOfPages) % 2^64) 1 }) fun _ _ => hA

/-! ## bins are freed -/

lemma granularity_dvd {align : Nat} (h : Granularity align) {a : Nat} (ha : align ∣ a) : efiPageSize ∣ a := by
  rcases h with rfl | rfl
  · exact ha
  · exact dvd_trans (by decide) ha

/-- **the pages of a bin are freed** -/
theorem wp_freeBin (h : Reserved arch s₀ (i :: is) s) (hbin : HasBin s i) (hinfo : InfoOk s)
    (hi : i < efiMaxMemoryType) (his : ∀ j ∈ is, j < efiMaxMemoryType) (hmem : i ∉ is) :
    wp (freeBin arch i) (fun _ s' => Reserved arch s₀ is s' ∧ SameBins s s') onlyAsserts s := by
  have hheld := h.held i mem_cons_self hbin
  have hd : efiPageSize ∣ binStart s i := granularity_dvd (pageAlignment_granularity _ _) hheld.aligned
  obtain ⟨attr0, hfirst⟩ := hheld.label (binStart s i) ⟨le_rfl, hheld.nonempty.le⟩
  obtain ⟨pre, n, post, hfind, htype, -⟩ := h.valid.findEntry hd hfirst
  unfold freeBin
  rw [wp_bind, wp_gets, wp_bind]
  unfold coreInternalFreePages
  rw [wp_bind, wp_gets]
  change findEntry (s.stats (s.info i).type).baseAddress s.gMemoryMap = _ at hfind
  dsimp only [id]
  rw [hfind]
  dsimp only
  rw [htype]
  change wp (if binStart s i % pageAlignment arch (binType s i) ≠ 0 then _
    else coreConvertPages _ (binStart s i) (binPages arch s i) _) _ _ _
  rw [if_neg (not_not_intro (mod_eq_zero_of_dvd hheld.aligned))]
  have hfree := wp_coreConvertPages_free (freeStackOk arch) h.valid (fun _ => h.rests) hheld.start_lt
    hheld.pages hd hheld.nonempty fun a ha => by
      obtain ⟨attr, hv⟩ := hheld.label a ha
      exact ⟨_, hv, hheld.type_ne⟩
  refine wp_post hfree ?_
  rintro _ s' ⟨hs', hrests, hev, hfreed⟩
  have hb : SameBinsOn is s s' := sameBinsOn_of_sameBins hev.bins hinfo his
  -- the types are different, so the other bins have no page of this one
  have hother : ∀ j ∈ is, HasBin s j → ∀ a, InReserved arch s j a → ¬ InReserved arch s i a := by
    intro j hj hbin' a ha ha'
    obtain ⟨attr, hv⟩ := (h.held j (mem_cons_of_mem _ hj) hbin').label a ha
    obtain ⟨attr', hv'⟩ := hheld.label a ha'
    rw [hv] at hv'
    exact hinfo.distinct j i (his j hj) hi (fun hji => hmem (hji ▸ hj)) hbin' hbin
      (congrArg Prod.fst (Option.some.inj hv'))
  obtain ⟨hheld', hinside'⟩ := held_transfer s₀ is
    (fun j hj => h.held j (mem_cons_of_mem _ hj)) (fun j hj => h.inside j (mem_cons_of_mem _ hj)) hb
    fun j hj hbin' a ha => by
      obtain ⟨attr, hv⟩ := (h.held j (mem_cons_of_mem _ hj) hbin').label a ha
      exact (hev.other a (hother j hj hbin' a ha)).eq hv (h.held j (mem_cons_of_mem _ hj) hbin').type_ne
  refine ⟨⟨hs', hrests rfl, h.evolves.trans (hev.toMapEvolves.mono fun a ha => trivial), hheld',
    fun a ha => ?_, hinside'⟩, hev.bins⟩
  by_cases hin : InReserved arch s i a
  · obtain ⟨attr, hv⟩ := hheld.label a hin
    exact (h.inside i mem_cons_self hbin a hin attr hv).trans (hfreed a hin _ hv)
      fun attr => h.evolves.promotable
  · refine (h.outside a fun j hj hbin' hin' => ?_).trans (hev.other a hin) fun attr => h.evolves.promotable
    rcases mem_cons.mp hj with rfl | hj
    · exact hin hin'
    · exact ha j hj ((hb.hasBin hj).mpr hbin') ((hb.inReserved hj hbin' a).mpr hin')

/-- **bins that were allocated are freed again** -/
theorem wp_releaseBins (is : List Nat) (h : Reserved arch s₀ is s) (hinfo : InfoOk s) (hbases : BasesOk s)
    (hnodup : is.Nodup) (his : ∀ j ∈ is, j < efiMaxMemoryType) :
    wp (releaseBins arch is ()) (fun _ s' => Reserved arch s₀ [] s' ∧ InfoOk s' ∧ BasesOk s') onlyAsserts s := by
  induction is generalizing s with
  | nil => exact ⟨h, hinfo, hbases⟩
  | cons i is ih =>
    obtain ⟨hmem, hnodup'⟩ := nodup_cons.mp hnodup
    have his' := fun j hj => his j (mem_cons_of_mem _ hj)
    unfold releaseBins forEach
    rw [wp_bind, wp_bind, wp_gets]
    split_ifs with hbin
    · refine wp_seq (wp_freeBin h hbin hinfo (his i mem_cons_self) his' hmem) ?_
      rintro _ s₁ ⟨h1, hb1⟩
      have hinfo1 := hinfo.step hb1
      have hsame : SameBinsOn [i] s s₁ := sameBinsOn_of_sameBins hb1 hinfo fun j hj => by
        rw [mem_singleton.mp hj]
        exact his i mem_cons_self
      have hset : SameBinsOn is s₁ (setStats (s.info i).type
          (fun st => { st with baseAddress := 0, maximumAddress := arch.maxAllocAddress }) s₁) := by
        rw [← hsame.info i mem_cons_self]
        exact sameBinsOn_setStats hinfo1 (his i mem_cons_self)
          ((hsame.hasBin mem_cons_self).mpr hbin) his' hmem _
      exact ih (h1.of_eq rfl rfl rfl rfl hset) (hinfo1.setStats _ _ fun _ => rfl)
        ((hbases.step hb1).setStats _ _ fun _ _ => by norm_num) hnodup' his'
    · rw [wp_pure]
      exact ih (h.tail hbin) hinfo hbases hnodup' his'

lemma wp_finishBins (is : List Nat) (h : Reserved arch s₀ is s) (hinfo : InfoOk s) (hnodup : is.Nodup)
    (his : ∀ j ∈ is, j < efiMaxMemoryType) :
    wp (finishBins arch is ()) (fun _ s' => Reserved arch s₀ [] s') onlyAsserts s := by
  induction is generalizing s with
  | nil => exact h
  | cons i is ih =>
    obtain ⟨hmem, hnodup'⟩ := nodup_cons.mp hnodup
    have his' := fun j hj => his j (mem_cons_of_mem _ hj)
    have hi := his i mem_cons_self
    unfold finishBins forEach
    rw [wp_bind, wp_bind, wp_gets]
    dsimp only [id]
    split_ifs with hbin
    · refine wp_seq (wp_freeBin h hbin hinfo hi his' hmem) ?_
      rintro _ s₁ ⟨h1, hb1⟩
      rw [wp_bind, wp_modify, wp_modify]
      have hinfo1 := hinfo.step hb1
      have hsame : SameBinsOn [i] s s₁ := sameBinsOn_of_sameBins hb1 hinfo fun j hj => by
        rw [mem_singleton.mp hj]
        exact hi
      have hset : SameBinsOn is s₁ (setStats (s.info i).type
          (fun st => { st with numberOfPages := (s.info i).numberOfPages }) s₁) := by
        rw [← hsame.info i mem_cons_self]
        exact sameBinsOn_setStats hinfo1 hi ((hsame.hasBin mem_cons_self).mpr hbin) his' hmem _
      have hinfo2 : InfoOk (setStats (s.info i).type
          (fun st => { st with numberOfPages := (s.info i).numberOfPages }) s₁) :=
        hinfo1.setStats _ _ fun _ => rfl
      have h2 : Reserved arch s₀ is (setStats (s.info i).type
          (fun st => { st with numberOfPages := (s.info i).numberOfPages }) s₁) :=
        h1.of_eq rfl rfl rfl rfl hset
      generalize setStats (s.info i).type
        (fun st => { st with numberOfPages := (s.info i).numberOfPages }) s₁ = s2 at hinfo2 h2 ⊢
      have h3 : Reserved arch s₀ is (clearBin i s2) := h2.of_eq rfl rfl rfl rfl (sameBinsOn_clearBin hmem s2)
      exact ih h3 (hinfo2.clearBin hi) hnodup' his'
    · rw [wp_pure]
      exact ih (h.tail hbin) hinfo hnodup' his'

/-! ## bins are allocated -/

variable {s₁ t : PageState} {done : List Nat} {v : Label}

/-- **a bin is allocated** -/
theorem Reserved.place (h : Reserved arch s₀ done s) (hinfo : InfoOk s) (hi : i < efiMaxMemoryType)
    (hdone : ∀ j ∈ done, j < efiMaxMemoryType) (hmem : i ∉ done) (hbin : HasBin s i)
    (htype : binType s i ≠ efiConventionalMemory) (hA : A < 2^64) (haligned : pageAlignment arch (binType s i) ∣ A)
    (halloc : Allocated arch (binType s i) (binPages arch s i) A s s₁ t s' v) (hrests : s'.mMapDepth = 0) :
    Reserved arch s₀ (done ++ [i]) (placeBin i A s') := by
  have hev := halloc.toEvolves
  have hinfo' := hinfo.step hev.bins
  have hsame : SameBinsOn (done ++ [i]) s s' := sameBinsOn_of_sameBins hev.bins hinfo fun j hj => by
    rcases mem_append.mp hj with hj | hj
    · exact hdone j hj
    · rw [mem_singleton.mp hj]
      exact hi
  have hmem_i : i ∈ done ++ [i] := mem_append_right _ mem_cons_self
  have hbin' : HasBin s' i := (hsame.hasBin hmem_i).mpr hbin
  have hb : SameBinsOn done s (placeBin i A s') := by
    have h1 : SameBinsOn done s s' :=
      ⟨fun j hj => hsame.info j (mem_append_left _ hj), fun j hj => hsame.base j (mem_append_left _ hj)⟩
    have h2 := sameBinsOn_setStats hinfo' hi hbin' hdone hmem fun st =>
      { st with
        baseAddress := A
        maximumAddress := sub64 ((A + efiPagesToSize (s'.info i).numberOfPages) % 2^64) 1 }
    exact h1.trans ⟨h2.info, h2.base⟩
  -- the bin in the new state
  have htype' : binType (placeBin i A s') i = binType s i := hsame.binType hmem_i
  have hpages' : binPages arch (placeBin i A s') i = binPages arch s i := hsame.binPages hmem_i
  have hstart' : binStart (placeBin i A s') i = A := by
    show (Function.update s'.stats (s'.info i).type _ (s'.info i).type).baseAddress = A
    rw [update_self]
  have hrange (a : Nat) : InReserved arch (placeBin i A s') i a ↔ Within A (requestEnd A (binPages arch s i)) a := by
    unfold InReserved
    rw [hstart', hpages']
  -- the other bins have no page of the new one, because those were free
  have hother : ∀ j ∈ done, HasBin s j → ∀ a, InReserved arch s j a →
      ¬ Within A (requestEnd A (binPages arch s i)) a := by
    intro j hj hbin'' a ha hin
    obtain ⟨attr, hv⟩ := (h.held j hj hbin'').label a ha
    rcases (halloc.before htype hin).1 with hfree | ⟨hnone, -⟩
    · rw [hv] at hfree
      exact (h.held j hj hbin'').type_ne (congrArg Prod.fst (Option.some.inj hfree))
    · rw [hv] at hnone
      cases hnone
  have hpage : pageAt (placeBin i A s') = pageAt s' := rfl
  obtain ⟨hheld, hinside⟩ := held_transfer s₀ _ h.held h.inside hb fun j hj hbin'' a ha => by
    obtain ⟨attr, hv⟩ := (h.held j hj hbin'').label a ha
    exact (halloc.others (hother j hj hbin'' a ha)).eq hv (h.held j hj hbin'').type_ne
  refine
    { valid := halloc.converted.valid.of_eq rfl rfl rfl
      rests := hrests
      evolves := h.evolves.trans ((hev.toMapEvolves.mono fun a ha => trivial).trans (MapEvolves.of_eq rfl rfl rfl))
      held := ?_
      outside := ?_
      inside := ?_ }
  · intro j hj hbinj
    rcases mem_append.mp hj with hj | hj
    · exact hheld j hj hbinj
    rw [mem_singleton.mp hj]
    refine ⟨by rw [htype']; exact htype, by rw [hstart']; exact hA, by rw [htype', hstart']; exact haligned,
      by rw [hpages']; exact halloc.pages_ne, by rw [hstart', hpages']; exact halloc.start_lt, ?_⟩
    intro a ha
    rw [hrange] at ha
    rw [htype', hpage]
    exact ⟨v.2, (halloc.before htype ha).2⟩
  · intro a ha
    have hout : ¬ Within A (requestEnd A (binPages arch s i)) a := fun hin =>
      ha i hmem_i hbin' ((hrange a).mpr hin)
    refine (h.outside a fun j hj hbin'' hin => ?_).trans (halloc.others hout) fun attr => h.evolves.promotable
    exact ha j (mem_append_left _ hj) ((hb.hasBin hj).mpr hbin'') ((hb.inReserved hj hbin'' a).mpr hin)
  · intro j hj hbinj a ha attr hv
    rcases mem_append.mp hj with hj | hj
    · exact hinside j hj hbinj a ha attr hv
    rw [mem_singleton.mp hj] at ha hv
    rw [hrange] at ha
    obtain ⟨hbefore, hafter⟩ := halloc.before htype ha
    rw [hpage, hafter, htype'] at hv
    cases hv
    have hfree : Background arch s a (pageAt s a) (some (efiConventionalMemory, v.2)) := by
      rcases hbefore with hconv | ⟨hnone, hprom⟩
      · exact .inl hconv.symm
      · exact .inr (.inr ⟨hnone, v.2, hprom, .inl rfl⟩)
    exact (h.outside a fun j hj hbin'' hin => hother j hj hbin'' a hin ha).trans hfree
      fun attr => h.evolves.promotable

lemma Allocated.aligned {type numberOfPages memory : Nat}
    (halloc : Allocated arch type (roundPages numberOfPages (pageAlignment arch type)) A s s₁ t s' v)
    (hchosen : Chosen arch .anyPages type (roundPages numberOfPages (pageAlignment arch type)) memory A)
    (hmemory : memory < 2^64) (hN : numberOfPages < 2^52) : pageAlignment arch type ∣ A := by
  have hA := hchosen.lt hmemory
  obtain ⟨-, hle, hdvd⟩ := roundPages_spec (pageAlignment_granularity arch type) hN
  have hlt := halloc.pages_lt hle hA
  have hend := (requestEnd_spec hA halloc.converted.pages.lo_aligned halloc.start_lt halloc.pages_ne).2.2 hlt
  have h64 := halloc.converted.pages.hi_lt
  exact (hchosen.found (by decide) hlt halloc.pages_ne (by omega) hdvd).1

/-- **the bins are allocated, or all of them are freed again** -/
theorem wp_reserveBins (is done : List Nat) (h : Reserved arch s₀ done s) (hinfo : InfoOk s)
    (hbases : BasesOk s) (hnodup : (done ++ is).Nodup) (his : ∀ j ∈ done ++ is, j < efiMaxMemoryType) :
    wp (reserveBins arch done is)
      (fun reserved s' => (reserved = true → Reserved arch s₀ (done ++ is) s' ∧ InfoOk s') ∧
        (reserved = false → Reserved arch s₀ [] s' ∧ InfoOk s' ∧ BasesOk s')) onlyAsserts s := by
  induction is generalizing s done with
  | nil =>
    rw [append_nil]
    exact ⟨fun _ => ⟨h, hinfo⟩, nofun⟩
  | cons i is ih =>
    have hcons : done ++ i :: is = (done ++ [i]) ++ is := by
      rw [append_assoc, singleton_append]
    have hdone : ∀ j ∈ done, j < efiMaxMemoryType := fun j hj => his j (mem_append_left _ hj)
    have hi : i < efiMaxMemoryType := his i (mem_append_right _ mem_cons_self)
    have hmem : i ∉ done := fun hj => (nodup_append.mp hnodup).2.2 i hj i mem_cons_self rfl
    rw [hcons] at hnodup his ⊢
    unfold reserveBins
    rw [wp_bind, wp_gets]
    split_ifs with hbin
    · rw [wp_bind]
      refine wp_coreInternalAllocatePages h.valid (fun _ => h.rests) (hbases _) ?_ ?_
      · -- those before are freed
        intro e s₁ hs1 hrests1 hev1
        rw [wp_bind]
        have h1 := h.step hs1 (hrests1 rfl) hev1.toMapEvolves (sameBinsOn_of_sameBins hev1.bins hinfo hdone)
        refine wp_post (wp_releaseBins done h1 (hinfo.step hev1.bins) (hbases.step hev1.bins)
          (nodup_append.mp (hcons ▸ hnodup)).1 hdone) ?_
        exact fun _ s2 h2 => ⟨nofun, fun _ => h2⟩
      · intro A s₁ t s' v htype hchosen halloc
        have hA := hchosen.lt (hbases _)
        have hN : (s.info i).numberOfPages < 2^52 := (hinfo.pages i).trans (by norm_num)
        have hbins := halloc.toEvolves.bins
        have h' : Reserved arch s₀ (done ++ [i]) (placeBin i A s') :=
          h.place hinfo hi hdone hmem hbin htype hA (halloc.aligned hchosen (hbases _) hN) halloc
            (halloc.converted.rests rfl)
        have hinfo' : InfoOk (placeBin i A s') := by
          have := (hinfo.step hbins).setStats (s'.info i).type (fun st =>
            { st with
              baseAddress := A
              maximumAddress := sub64 ((A + efiPagesToSize (s'.info i).numberOfPages) % 2^64) 1 }) fun _ => rfl
          exact ⟨this.last, this.index, this.pages, this.distinct⟩
        exact ih (done ++ [i]) h' hinfo' ((hbases.step hbins).place hA) hnodup his
    · exact ih (done ++ [i]) (h.skip hbin) hinfo hbases hnodup his

lemma infoIndexes_nodup (s : PageState) : (infoIndexes s).Nodup :=
  (nodup_range).sublist (takeWhile_sublist _)

lemma infoIndexes_lt (hinfo : InfoOk s) : ∀ i ∈ infoIndexes s, i < efiMaxMemoryType := by
  intro i hi
  have hmem := mem_range.mp ((takeWhile_sublist _).subset hi)
  have htype : (s.info i).type ≠ efiMaxMemoryType := of_decide_eq_true (all_eq_true.mp all_takeWhile i hi)
  have hne : i ≠ efiMaxMemoryType := fun h => htype (h ▸ hinfo.last)
  omega

/-! ## the operations -/

inductive Operation where
  | addMemoryDescriptor (type start pages attr : Nat)
  | allocatePages (allocate : AllocateType) (type pages memory : Nat)
  | freePages (memory pages : Nat)
  | allocatePoolPages (type pages align : Nat)
  | freePoolPages (memory pages : Nat)
  | updateMemoryAttributes (start pages attributes : Nat)

def Operation.run (arch : Arch) : Operation → PageProg (Option Nat)
  | .addMemoryDescriptor type start pages attr => do
    coreAddMemoryDescriptor arch type start pages attr
    pure none
  | .allocatePages allocate type pages memory => do
    let r ← coreInternalAllocatePages arch allocate type pages memory
    match r with
    | .ok A => pure (some A)
    | .error _ => pure none
  | .freePages memory pages => do
    let _ ← coreInternalFreePages arch memory pages
    pure none
  | .allocatePoolPages type pages align => do
    let A ← coreAllocatePoolPages arch (coreFreeMemoryMapStack arch) type pages align
    pure (if A = 0 then none else some A)
  | .freePoolPages memory pages => do
    coreFreePoolPages (coreFreeMemoryMapStack arch) memory pages
    pure none
  | .updateMemoryAttributes start pages attributes => do
    coreUpdateMemoryAttributes arch start pages attributes
    pure none

/-- the arguments: addresses are `UINT64` values, and a range that is added is new -/
def Operation.Proper (arch : Arch) (s : PageState) : Operation → Prop
  | .addMemoryDescriptor _ start pages _ =>
    efiPageSize ∣ start ∧ 0 < pages ∧ start + pages * efiPageSize < 2^64 ∧
      ∀ a, InPages start pages a → pageAt s a = none ∧ ∀ attr, ¬ Promotable arch s a attr
  | .allocatePages _ _ _ memory => memory < 2^64
  | .freePages memory _ => memory < 2^64
  | .allocatePoolPages type _ _ => type ≠ efiConventionalMemory
  | .freePoolPages memory _ => memory < 2^64
  | .updateMemoryAttributes start _ _ => start < 2^64

def Operation.Adds : Operation → Nat → Prop
  | .addMemoryDescriptor type start pages _, a =>
    ¬ (efiMaxMemoryType ≤ type ∧ type < memoryTypeOemReservedMin) ∧ InPages start pages a
  | _, _ => False

/-- the addresses that the operation is asked for, or returns -/
def Operation.Asked (arch : Arch) (s : PageState) : Operation → Option Nat → Nat → Prop
  | .addMemoryDescriptor _ start pages _, _ => InPages start pages
  | .allocatePages _ type pages _, some A => InPages A (roundPages pages (pageAlignment arch type))
  | .allocatePages .., none => Nobody
  | .freePages memory pages, _ =>
    InPages memory (roundPages pages (pageAlignment arch ((pageAt s memory).elim 0 Prod.fst)))
  | .allocatePoolPages _ pages _, some A => InPages A pages
  | .allocatePoolPages .., none => Nobody
  | .freePoolPages memory pages, _ => InPages memory pages
  | .updateMemoryAttributes start pages _, _ => InPages start pages

structure HistoryOk (arch : Arch) (s : PageState) : Prop where
  valid : Valid arch s
  rests : s.mMapDepth = 0
  bins : s.mMemoryTypeInformationInitialized = false → InfoOk s ∧ BasesOk s

structure Effect (arch : Arch) (Asked Adds : Nat → Prop) (s s' : PageState) : Prop where
  other : ∀ a, ¬ Asked a → Background arch s a (pageAt s a) (pageAt s' a)
  union : ∀ a, pageAt s' a ≠ none ↔ pageAt s a ≠ none ∨ Adds a ∨
    ∃ attr, Promotable arch s a attr ∧ ¬ Promotable arch s' a attr
  promotable : ∀ a attr, Promotable arch s' a attr → Promotable arch s a attr
  key_le : s.mMemoryMapKey ≤ s'.mMemoryMapKey
  key : pageAt s' ≠ pageAt s → s.mMemoryMapKey < s'.mMemoryMapKey

variable {R Adds : Nat → Prop}

lemma Valid.not_promotable (h : Valid arch s) {a attr : Nat} (hne : pageAt s a ≠ none) :
    ¬ Promotable arch s a attr := fun ⟨g, hg, hprom, ha, _⟩ => hne (h.gcd.fresh g hg hprom a ha)

lemma MapEvolves.toEffect (h : MapEvolves arch R s s') (hs' : Valid arch s') (hadds : ∀ a, ¬ Adds a) :
    Effect arch R Adds s s' where
  other := h.other
  union := by
    intro a
    have hkept (hne : pageAt s a ≠ none) : pageAt s' a ≠ none := by
      by_cases hR : R a
      · exact h.kept a hR hne
      · exact (h.other a hR).kept hne
    constructor
    · intro hne
      by_cases hnone : pageAt s a = none
      · have hfresh : ∃ attr, Promotable arch s a attr := by
          by_cases hR : R a
          · exact h.fresh a hR hnone hne
          · exact (h.other a hR).fresh hnone hne
        obtain ⟨attr, hp⟩ := hfresh
        exact .inr (.inr ⟨attr, hp, hs'.not_promotable hne⟩)
      · exact .inl hnone
    · intro hor
      rcases hor with hne | hadd | ⟨attr, hp, hnp⟩
      · exact hkept hne
      · exact absurd hadd (hadds a)
      · exact (h.promoted a attr hp).resolve_left hnp
  promotable := fun a attr => h.promotable
  key_le := h.key_le
  key := h.key

lemma effect_of_added {start end_ type attr : Nat} (hpage : pageAt t = paint (pageAt s) start end_ (type, attr))
    (hgcd : t.mGcdMemorySpaceMap = s.mGcdMemorySpaceMap) (hkey : t.mMemoryMapKey = s.mMemoryMapKey + 1)
    (hev : MapEvolves arch Nobody t s') (hs' : Valid arch s')
    (hadds : ∀ a, Adds a ↔ start ≤ a ∧ a ≤ end_) (hR : ∀ a, start ≤ a ∧ a ≤ end_ → R a) :
    Effect arch R Adds s s' := by
  have hprom (a attr : Nat) : Promotable arch t a attr ↔ Promotable arch s a attr := by
    unfold Promotable
    rw [hgcd]
  have heff : Effect arch Nobody (fun _ => False) t s' := hev.toEffect hs' fun _ h => h
  refine ⟨fun a ha => ?_, fun a => ?_, fun a attr hp => (hprom a attr).mp (heff.promotable a attr hp), ?_, fun _ => ?_⟩
  · have hmid : pageAt t a = pageAt s a := by
      rw [hpage]
      exact paint_outside fun hin => ha (hR a hin)
    have hB := heff.other a id
    rw [hmid] at hB
    exact Background.trans (.inl rfl) hB fun attr => (hprom a attr).mp
  · rw [heff.union a, hpage, hadds]
    have hp : (∃ attr, Promotable arch t a attr ∧ ¬ Promotable arch s' a attr) ↔
        ∃ attr, Promotable arch s a attr ∧ ¬ Promotable arch s' a attr :=
      exists_congr fun attr => and_congr_left fun _ => hprom a attr
    rw [hp, false_or]
    by_cases hin : start ≤ a ∧ a ≤ end_
    · rw [paint_inside hin]
      exact iff_of_true (.inl (some_ne_none _)) (.inr (.inl hin))
    rw [paint_outside hin]
    constructor
    · rintro (h | h)
      · exact .inl h
      · exact .inr (.inr h)
    · rintro (h | h | h)
      · exact .inl h
      · exact absurd h hin
      · exact .inr h
  · have := hev.key_le
    omega
  · have := hev.key_le
    omega

lemma Reserved.nil {s₀ : PageState} (h : Reserved arch s₀ [] s) : MapEvolves arch Nobody s₀ s :=
  { h.evolves with
    other := fun a _ => h.outside a nofun
    kept := nofun
    fresh := nofun }

lemma wholePages_of_pages {start pages : Nat} (hd : efiPageSize ∣ start) (hpages : 0 < pages)
    (hlt : start + pages * efiPageSize < 2^64) :
    WholePages start (requestEnd start pages) ∧ requestEnd start pages + 1 = start + pages * efiPageSize := by
  have hend : requestEnd start pages + 1 = start + pages * efiPageSize := by
    unfold requestEnd efiPagesToSize sub64 efiPageSize at *
    omega
  refine ⟨⟨hd, ?_, ?_, by omega⟩, hend⟩
  · rw [hend]
    exact dvd_add hd (dvd_mul_left _ _)
  · unfold efiPageSize at hend
    omega

/-- **`CoreAddMemoryDescriptor`**, with the bins that it sets up -/
theorem wp_coreAddMemoryDescriptor {type start pages attr : Nat} (h : HistoryOk arch s)
    (hp : (Operation.addMemoryDescriptor type start pages attr).Proper arch s) :
    wp (coreAddMemoryDescriptor arch type start pages attr) (fun _ s' => HistoryOk arch s' ∧
        Effect arch (InPages start pages) (Operation.addMemoryDescriptor type start pages attr).Adds s s')
      onlyAsserts s := by
  obtain ⟨hd, hpages, hlt, hnew⟩ := hp
  obtain ⟨hwhole, hend⟩ := wholePages_of_pages hd hpages hlt
  have hin (a : Nat) : start ≤ a ∧ a ≤ requestEnd start pages ↔ InPages start pages a :=
    and_congr_right fun _ => by omega
  unfold coreAddMemoryDescriptor
  by_cases hbad : start % efiPageSize ≠ 0 ∨ (efiMaxMemoryType ≤ type ∧ type < memoryTypeOemReservedMin)
  · rw [if_pos hbad]
    have hbadType := hbad.resolve_left (not_not_intro (mod_eq_zero_of_dvd hd))
    exact ⟨h, (Evolves.refl s).toMapEvolves.toEffect h.valid fun a hadds => hadds.1 hbadType⟩
  rw [if_neg hbad, wp_bind, ← requestEnd]
  have hadds (a : Nat) : (Operation.addMemoryDescriptor type start pages attr).Adds a ↔
      start ≤ a ∧ a ≤ requestEnd start pages :=
    (and_iff_right fun hbadType => hbad (.inr hbadType)).trans (hin a).symm
  refine wp_coreAddRange h.valid.map hwhole (fun a h1 h2 => (hnew a ((hin a).mp ⟨h1, h2⟩)).1) (.inl fun _ => rfl) ?_
  intro l f hl hdepth _
  have hpage := pageAt_of_mapOk (s := s.newMap l (s.mMapDepth + 1) f) hl rfl
  generalize ht : s.newMap l (s.mMapDepth + 1) f = t at hpage ⊢
  have hvalid : Valid arch t := by
    subst ht
    refine ⟨hpage ▸ hl, hdepth, h.valid.gcd.paged, h.valid.gcd.apart, fun g hg hprom a ha => ?_⟩
    rw [hpage, paint_outside fun hina => (hnew a ((hin a).mp hina)).2 _ ⟨g, hg, hprom, ha, rfl⟩]
    exact h.valid.gcd.fresh g hg hprom a ha
  have heffect {s' : PageState} (hev : MapEvolves arch Nobody t s') (hs' : Valid arch s') :
      Effect arch (InPages start pages) (Operation.addMemoryDescriptor type start pages attr).Adds s s' := by
    subst ht
    exact effect_of_added hpage rfl rfl hev hs' hadds fun a => (hin a).mp
  have hbins : SameBins s t := by
    subst ht
    exact SameBins.of_eq rfl rfl rfl
  refine wp_seq (freeStackOk arch t hvalid) ?_
  rintro _ s₁ ⟨hs1, hrests1, hev1⟩
  rw [wp_bind, wp_gets]
  dsimp only [id]
  by_cases hinit : s₁.mMemoryTypeInformationInitialized = true
  · rw [if_pos hinit]
    exact ⟨⟨hs1, hrests1 rfl, fun hno => Bool.noConfusion (hinit.symm.trans hno)⟩, heffect hev1.toMapEvolves hs1⟩
  rw [if_neg hinit, wp_bind]
  have hbins1 := hbins.trans hev1.bins
  obtain ⟨hinfo, hbases⟩ := h.bins (hbins1.initialized ▸ Bool.eq_false_of_not_eq_true hinit)
  have hinfo1 := hinfo.step hbins1
  have hreserved : Reserved arch s₁ [] s₁ :=
    ⟨hs1, hrests1 rfl, (Evolves.refl s₁).toMapEvolves, fun _ hi => absurd hi not_mem_nil, fun a _ => .inl rfl,
      fun _ hi => absurd hi not_mem_nil⟩
  have hlt1 := infoIndexes_lt hinfo1
  refine wp_post (wp_reserveBins (infoIndexes s₁) [] hreserved hinfo1 (hbases.step hbins1)
    (infoIndexes_nodup s₁) hlt1) ?_
  rintro reserved s2 ⟨htrue, hfalse⟩
  cases reserved with
  | false =>
    obtain ⟨h₂, hinfo2, hbases2⟩ := hfalse rfl
    exact ⟨⟨h₂.valid, h₂.rests, fun _ => ⟨hinfo2, hbases2⟩⟩, heffect (hev1.toMapEvolves.trans h₂.nil) h₂.valid⟩
  | true =>
    obtain ⟨h₂, hinfo2⟩ := htrue rfl
    refine wp_seq (wp_finishBins (infoIndexes s₁) h₂ hinfo2 (infoIndexes_nodup s₁) hlt1) ?_
    intro _ s3 h3
    have hvalid3 : Valid arch (settleStats arch s3) := h3.valid.of_eq rfl rfl rfl
    exact ⟨⟨hvalid3, h3.rests, fun hno => Bool.noConfusion hno⟩,
      heffect ((hev1.toMapEvolves.trans h3.nil).trans (MapEvolves.of_eq rfl rfl rfl)) hvalid3⟩

lemma HistoryOk.step (h : HistoryOk arch s) (hs' : Valid arch s') (hrests : Rests true s')
    (hbins : SameBins s s') : HistoryOk arch s' where
  valid := hs'
  rests := hrests rfl
  bins := by
    intro hinit
    obtain ⟨hinfo, hbases⟩ := h.bins (hbins.initialized ▸ hinit)
    exact ⟨hinfo.step hbins, hbases.step hbins⟩

lemma Converted.inPages {outer : Bool} {change : Change} {start pages : Nat} {t : PageState} {v : Label}
    (h : Converted arch outer change (requestEnd start pages) start (requestEnd start pages) s t s' v)
    (hstart : start < 2^64) (hlt : start < requestEnd start pages) (hne : pages ≠ 0) :
    Evolves arch (InPages start pages) s s' :=
  h.toEvolves.mono fun _ => inPages_of_within hstart h.pages.lo_aligned hlt hne

lemma PoolPages.evolves {type pages align start : Nat} (h : PoolPages arch true type pages align s start s') :
    Valid arch s' ∧ Rests true s' ∧ Evolves arch (InPages start pages) s s' ∧
      (start = 0 → Evolves arch Nobody s s') := by
  cases h with
  | notFound hs' hrests hev => exact ⟨hs', hrests, hev.background _, fun _ => hev⟩
  | ignored hne hs' hrests hev hfound => exact ⟨hs', hrests, hev.background _, fun hzero => absurd hzero hne⟩
  | converted hne hs1 hev hfound hpages hlt hconv =>
    obtain ⟨max', min, hmax, hstart⟩ := hfound
    have h64 : start < 2^64 := hstart ▸ coreFindFreePagesI_lt _ _ _ _ _
    exact ⟨hconv.valid, hconv.rests, (hev.background _).trans (hconv.inPages h64 hlt hpages),
      fun hzero => absurd hzero hne⟩

/-- **`CoreInternalFreePages`** -/
theorem wp_coreInternalFreePages {memory pages : Nat} (hs : Valid arch s) (hrests : Rests true s)
    (hmemory : memory < 2^64) : wp (coreInternalFreePages arch memory pages)
      (fun _ s' => Valid arch s' ∧ Rests true s' ∧
        Evolves arch ((Operation.freePages memory pages).Asked arch s none) s s') onlyAsserts s := by
  unfold coreInternalFreePages
  rw [wp_bind, wp_gets]
  cases hfind : findEntry memory s.gMemoryMap with
  | none => exact ⟨hs, hrests, Evolves.refl s⟩
  | some x =>
    obtain ⟨pre, n, post⟩ := x
    obtain ⟨hmap, hlo, hhi⟩ := findEntry_some hfind
    have hok := hs.map
    rw [hmap] at hok
    have hlabel : pageAt s memory = some (n.entry.type, n.entry.attr) := hok.label ⟨hlo, hhi.le⟩
    dsimp only
    by_cases haligned : memory % pageAlignment arch n.entry.type ≠ 0
    · rw [if_pos haligned]
      exact ⟨hs, hrests, Evolves.refl s⟩
    rw [if_neg haligned]
    have hasked : (Operation.freePages memory pages).Asked arch s none =
        InPages memory (roundPages pages (pageAlignment arch n.entry.type)) := by
      show InPages memory (roundPages pages (pageAlignment arch ((pageAt s memory).elim 0 Prod.fst))) = _
      rw [hlabel]
      rfl
    rw [hasked]
    exact wp_coreConvertPagesEx (freeStackOk arch) hs hrests hmemory (.type efiConventionalMemory)

/-- **one operation** -/
theorem wp_run (op : Operation) (h : HistoryOk arch s) (hp : op.Proper arch s) :
    wp (op.run arch) (fun r s' => HistoryOk arch s' ∧ Effect arch (op.Asked arch s r) op.Adds s s')
      onlyAsserts s := by
  have hrests : Rests true s := fun _ => h.rests
  -- what is left to show when the bins stay where they are
  have hdone {R : Nat → Prop} {s' : PageState} (hadds : ∀ a, ¬ op.Adds a) (hs' : Valid arch s')
      (hrests' : Rests true s') (hev : Evolves arch R s s') :
      HistoryOk arch s' ∧ Effect arch R op.Adds s s' :=
    ⟨h.step hs' hrests' hev.bins, hev.toMapEvolves.toEffect hs' hadds⟩
  cases op with
  | addMemoryDescriptor type start pages attr =>
    unfold Operation.run
    rw [wp_bind]
    exact wp_post (wp_coreAddMemoryDescriptor h hp) (fun _ s' h' => h')
  | allocatePages allocate type pages memory =>
    unfold Operation.run
    rw [wp_bind]
    refine wp_coreInternalAllocatePages h.valid hrests hp ?_ ?_
    · exact fun e s' hs' hrests' hev => hdone (fun a => id) hs' hrests' hev
    · intro start s₁ t s' v _ hchosen halloc
      have hev := (halloc.evolves.background _).trans
        (halloc.converted.inPages (hchosen.lt hp) halloc.start_lt halloc.pages_ne)
      exact hdone (fun a => id) halloc.converted.valid halloc.converted.rests hev
  | freePages memory pages =>
    refine wp_seq (wp_coreInternalFreePages h.valid hrests hp) ?_
    exact fun _ s' ⟨hs', hrests', hev⟩ => hdone (fun a => id) hs' hrests' hev
  | allocatePoolPages type pages align =>
    unfold Operation.run
    rw [wp_bind]
    refine wp_coreAllocatePoolPages hp (freeStackOk arch) h.valid hrests fun start s' hpool => ?_
    obtain ⟨hs', hrests', hev, hzero⟩ := hpool.evolves
    by_cases hstart : start = 0
    · rw [if_pos hstart]
      exact hdone (fun a => id) hs' hrests' (hzero hstart)
    · rw [if_neg hstart]
      exact hdone (fun a => id) hs' hrests' hev
  | freePoolPages memory pages =>
    unfold Operation.run coreFreePoolPages coreConvertPages
    rw [wp_bind]
    refine wp_seq (wp_coreConvertPagesEx (freeStackOk arch) h.valid hrests hp _) ?_
    exact fun _ s' ⟨hs', hrests', hev⟩ => hdone (fun a => id) hs' hrests' hev
  | updateMemoryAttributes start pages attributes =>
    unfold Operation.run coreUpdateMemoryAttributes
    rw [wp_bind]
    refine wp_seq (wp_coreConvertPagesEx (freeStackOk arch) h.valid hrests hp _) ?_
    exact fun _ s' ⟨hs', hrests', hev⟩ => hdone (fun a => id) hs' hrests' hev

/-! ## histories -/

/-- operations in which no `ASSERT` fails, one after the other -/
inductive History (arch : Arch) (s₀ : PageState) : List Operation → PageState → Prop where
  | nil : History arch s₀ [] s₀
  | snoc {ops : List Operation} {op : Operation} {s s' : PageState} {r : Option Nat}
      (h : History arch s₀ ops s) (hp : op.Proper arch s) (hrun : op.run arch s = (.ok r, s')) :
      History arch s₀ (ops ++ [op]) s'

variable {ops : List Operation} {op : Operation} {r : Option Nat}

lemma HistoryOk.run (h : HistoryOk arch s) (hp : op.Proper arch s) (hrun : op.run arch s = (.ok r, s')) :
    HistoryOk arch s' ∧ Effect arch (op.Asked arch s r) op.Adds s s' := by
  have hdone := wp_ok (wp_run op h hp) hrun
  exact hdone

/-- **the invariant holds after every operation, and the map has the pages that were added or promoted** -/
theorem History.invariant (h : History arch s₀ ops s) (h0 : HistoryOk arch s₀) :
    HistoryOk arch s ∧ (∀ a attr, Promotable arch s a attr → Promotable arch s₀ a attr) ∧
      ∀ a, pageAt s a ≠ none ↔ pageAt s₀ a ≠ none ∨ (∃ op ∈ ops, op.Adds a) ∨
        ∃ attr, Promotable arch s₀ a attr ∧ ¬ Promotable arch s a attr := by
  induction h with
  | nil =>
    refine ⟨h0, fun _ _ hp => hp, fun a => ⟨.inl, ?_⟩⟩
    rintro (hne | ⟨op, hop, -⟩ | ⟨attr, hp, hnp⟩)
    · exact hne
    · cases hop
    · exact absurd hp hnp
  | @snoc ops op s s' r _ hp hrun ih =>
    obtain ⟨hok, hprom, hunion⟩ := ih
    obtain ⟨hok', heff⟩ := hok.run hp hrun
    refine ⟨hok', fun a attr hp' => hprom a attr (heff.promotable a attr hp'), fun a => ?_⟩
    rw [heff.union a, hunion a]
    constructor
    · rintro ((hne | ⟨o, ho, hadds⟩ | ⟨attr, hp0, hnp⟩) | hadds | ⟨attr, hps, hnp⟩)
      · exact .inl hne
      · exact .inr (.inl ⟨o, mem_append_left _ ho, hadds⟩)
      · exact .inr (.inr ⟨attr, hp0, fun hp' => hnp (heff.promotable a attr hp')⟩)
      · exact .inr (.inl ⟨op, mem_append_right _ (mem_singleton.mpr rfl), hadds⟩)
      · exact .inr (.inr ⟨attr, hprom a attr hps, hnp⟩)
    · rintro (hne | ⟨o, ho, hadds⟩ | ⟨attr, hp0, hnp⟩)
      · exact .inl (.inl hne)
      · rcases mem_append.mp ho with ho | ho
        · exact .inl (.inr (.inl ⟨o, ho, hadds⟩))
        · rw [mem_singleton.mp ho] at hadds
          exact .inr (.inl hadds)
      · by_cases hps : Promotable arch s a attr
        · exact .inr (.inr ⟨attr, hps, hnp⟩)
        · exact .inl (.inr (.inr ⟨attr, hp0, hps⟩))

lemma Valid.heap (h : Valid arch s) (hdepth : s.mMapDepth = 0) : ∀ n ∈ s.gMemoryMap, n.place = .heap := by
  intro n hn
  cases hplace : n.place with
  | heap => rfl
  | stack i =>
    have hlt := h.map.stack.lt n hn i hplace
    omega

lemma Valid.covered (h : Valid arch s) (a : Nat) :
    pageAt s a ≠ none ↔ ∃ n ∈ s.gMemoryMap, n.entry.start ≤ a ∧ a ≤ n.entry.end_ := by
  constructor
  · intro hne
    obtain ⟨r, hr, hcovers⟩ := h.map.spans.complete a hne
    obtain ⟨n, hn, rfl⟩ := mem_map.mp hr
    exact ⟨n, hn, hcovers⟩
  · intro ⟨n, hn, hcovers⟩
    rw [h.map.spans.label n.region (mem_map_of_mem hn) a hcovers]
    exact some_ne_none _

lemma mod_ne_of_lt {k k' m : Nat} (h : k < k') (hm : k' < k + m) : k % m ≠ k' % m := by
  intro heq
  have hdvd : m ∣ k' - k := (modEq_iff_dvd' h.le).mp heq
  have hle := le_of_dvd (by omega) hdvd
  omega

/-- **The memory map.**  After every operation of a history in which no `ASSERT` fails, the descriptors are
whole pages, disjoint and on the heap; they have the pages of the beginning, those that were added and
those that were promoted; pages that the operation was not asked for stay, are taken for descriptors or are
promoted; and the key is another one if the map is. -/
theorem gMemoryMap_history (h₀ : HistoryOk arch s₀) (h : History arch s₀ ops s) (hp : op.Proper arch s)
    (hrun : op.run arch s = (.ok r, s')) :
    (∀ n ∈ s'.gMemoryMap, WholePages n.entry.start n.entry.end_ ∧ n.place = .heap) ∧ s'.mMapDepth = 0 ∧
    s'.gMemoryMap.Pairwise (fun m n => m.entry.end_ < n.entry.start ∨ n.entry.end_ < m.entry.start) ∧
    (∀ a, (∃ n ∈ s'.gMemoryMap, n.entry.start ≤ a ∧ a ≤ n.entry.end_) ↔
      (∃ n ∈ s₀.gMemoryMap, n.entry.start ≤ a ∧ a ≤ n.entry.end_) ∨ (∃ o ∈ ops ++ [op], o.Adds a) ∨
        ∃ attr, Promotable arch s₀ a attr ∧ ¬ Promotable arch s' a attr) ∧
    (∀ a, ¬ op.Asked arch s r a → Background arch s a (pageAt s a) (pageAt s' a)) ∧
    (pageAt s' ≠ pageAt s → s.mMemoryMapKey < s'.mMemoryMapKey ∧
      (s'.mMemoryMapKey ≤ s.mMemoryMapKey + arch.maxAddress →
        s.mMemoryMapKey % (arch.maxAddress + 1) ≠ s'.mMemoryMapKey % (arch.maxAddress + 1))) := by
  obtain ⟨hok, -, -⟩ := h.invariant h₀
  obtain ⟨hok', -, hunion⟩ := (h.snoc hp hrun).invariant h₀
  obtain ⟨-, heff⟩ := hok.run hp hrun
  have hvalid := hok'.valid
  refine ⟨fun n hn => ⟨hvalid.map.paged n hn, hvalid.heap hok'.rests n hn⟩, hok'.rests,
    pairwise_map.mp hvalid.map.spans.apart, fun a => ?_, heff.other, fun hne => ?_⟩
  · rw [← hvalid.covered, ← h₀.valid.covered]
    exact hunion a
  · have hlt := heff.key hne
    exact ⟨hlt, fun hle => mod_ne_of_lt hlt (by omega)⟩

end

def noMemory : PageState := { twoPages with gMemoryMap := [], freeEntries := 0 }

lemma noMemory_ok : HistoryOk .x64 noMemory where
  valid :=
    { map := ⟨⟨nofun, nofun, fun a h => absurd rfl h, .nil⟩, nofun, ⟨nofun, .nil⟩⟩
      depth := by decide
      gcd := ⟨nofun, .nil, nofun⟩ }
  rests := rfl
  bins := fun _ => ⟨⟨rfl, fun _ => rfl, fun _ => (by decide : 0 < 2^32), fun i j _ _ _ hi _ => absurd rfl hi.2⟩,
    fun t => (by decide : 0 < 2^64)⟩

/-- the first descriptor has to be usable memory, since its own storage is taken from it -/
theorem reservedFirst_asserts :
    HistoryOk .x64 noMemory ∧
    (Operation.addMemoryDescriptor efiReservedMemoryType 0x1000 16 0xf).Proper .x64 noMemory ∧
    ((Operation.addMemoryDescriptor efiReservedMemoryType 0x1000 16 0xf).run .x64 noMemory).1 =
      .error .assertion := by
  refine ⟨noMemory_ok, ⟨by decide, by decide, by decide, fun a _ => ⟨rfl, nofun⟩⟩, by decide +kernel⟩

theorem firstPage_history :
    let op₁ := Operation.addMemoryDescriptor efiConventionalMemory 0x1000 16 0xf
    let op2 := Operation.allocatePages .anyPages efiBootServicesData 1 0
    ∀ a, (∃ n ∈ (op2.run .x64 (op₁.run .x64 noMemory).2).2.gMemoryMap, n.entry.start ≤ a ∧ a ≤ n.entry.end_) ↔
      (∃ n ∈ noMemory.gMemoryMap, n.entry.start ≤ a ∧ a ≤ n.entry.end_) ∨ (∃ o ∈ [] ++ [op₁] ++ [op2], o.Adds a) ∨
        ∃ attr, Promotable .x64 noMemory a attr ∧
          ¬ Promotable .x64 (op2.run .x64 (op₁.run .x64 noMemory).2).2 a attr := by
  intro op₁ op2
  have hproper : op₁.Proper .x64 noMemory := ⟨by decide, by decide, by decide, fun a _ => ⟨rfl, nofun⟩⟩
  have hhistory : History .x64 noMemory ([] ++ [op₁]) (op₁.run .x64 noMemory).2 :=
    History.nil.snoc hproper (Prod.ext (by decide +kernel : _ = Except.ok none) rfl)
  have hrun : op2.run .x64 (op₁.run .x64 noMemory).2 =
      (.ok (some 0xf000), (op2.run .x64 (op₁.run .x64 noMemory).2).2) := Prod.ext (by decide +kernel) rfl
  have hproper2 : op2.Proper .x64 (op₁.run .x64 noMemory).2 := (by decide : 0 < 2^64)
  exact (gMemoryMap_history noMemory_ok hhistory hproper2 hrun).2.2.2.1

end Audk.Mem
