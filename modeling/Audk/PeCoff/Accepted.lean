import Audk.PeCoff.Init

/-!
# What an accepted PE image satisfies

Each function of `PeCoffInit.c` gets one specification; the last one, `peCoffInitializeContext_spec`,
says what holds of the context when the file is accepted, and that no read leaves the file whatever
the outcome is.

* `Verified`: the invariant of the loop over the sections;
* `Accepted`: the facts every later function relies on.
-/

namespace Audk.PeCoff

open Bytes Prog Arith Nat

/-- no logged read leaves the file, whatever the failure -/
def ReadsIn (f : File) (_ : Status) (log : List Span) : Prop := f.Covers log

/-! ## one section -/

section
variable {pcd : Pcd} {arch : Arch} {f : File} {log : List Span} {hdr va next align : Nat}

lemma lowerSectionAlignment_spec (arch : Arch) (va : Nat) (ha : isPow2 align) :
    isPow2 (lowerSectionAlignment arch va align) ∧ lowerSectionAlignment arch va align ∣ align ∧
      lowerSectionAlignment arch va align ∣ va := by
  -- a page size that divides `va` where `align` does not is smaller than `align`
  have key : ∀ g, isPow2 g → ¬ align ∣ va → g ∣ va → g ∣ align := by
    intro g hg hn hd
    rcases le_total g align with h | h
    · exact isPow2_dvd hg ha h
    · exact absurd ((isPow2_dvd ha hg h).trans hd) hn
  unfold lowerSectionAlignment
  simp only [isAligned_iff ha, isAligned_iff arch.runtime_pow2, isAligned_iff arch.default_pow2]
  split
  · next h => exact ⟨ha, dvd_rfl, h⟩
  next hn =>
  split
  · next h => exact ⟨arch.runtime_pow2, key _ arch.runtime_pow2 hn h, h⟩
  · split
    · next h => exact ⟨arch.default_pow2, key _ arch.default_pow2 hn h.2, h.2⟩
    · exact ⟨by decide, one_dvd _, one_dvd _⟩

lemma verifySectionWXorX_spec (hlog : f.Covers log) (hhdr : hdr + 40 ≤ f.size) :
    wp (verifySectionWXorX pcd f hdr) (fun _ l => f.Covers l) (ReadsIn f) log := by
  have hread : f.Covers (⟨hdr + 36, 4⟩ :: log) := File.covers_cons _ _ hlog (by omega)
  unfold verifySectionWXorX
  simp only [wp_ite, wp_bind, wp_read32, wp_stopIf, wp_pure]
  exact ⟨fun _ => ⟨fun _ => hread, fun _ => hread⟩, fun _ => hlog⟩

lemma verifySectionAddress_spec (ha : isPow2 align) (hlog : f.Covers log)
    (hnext : pcd.contiguousSections = false → align ∣ next) : wp (verifySectionAddress pcd arch va next align)
      (fun a l => f.Covers l ∧ isPow2 a ∧ a ∣ align ∧ a ∣ va ∧ next ≤ va ∧
        (pcd.contiguousSections = false → a = align ∧ va = next)) (ReadsIn f) log := by
  unfold verifySectionAddress
  simp only [wp_ite, wp_bind, wp_stopIf, wp_pure]
  refine ⟨fun hs => ⟨fun _ => hlog, fun h => ?_⟩, fun hs => ⟨fun _ => hlog, fun h => ?_⟩⟩
  · have e : va = next := not_not.mp h
    exact ⟨hlog, ha, dvd_rfl, e ▸ hnext hs, e.ge, fun _ => ⟨trivial, e⟩⟩
  · obtain ⟨h1, h2, h3⟩ := lowerSectionAlignment_spec arch va ha
    exact ⟨hlog, h1, h2, h3, not_lt.mp h, fun h => absurd h hs⟩

lemma verifySectionRawData_spec (hlog : f.Covers log) (hhdr : hdr + 40 ≤ f.size) : wp (verifySectionRawData f hdr)
      (fun _ l => f.Covers l ∧ (0 < f.u32 (hdr + 16) → f.u32 (hdr + 20) + f.u32 (hdr + 16) ≤ f.size))
      (ReadsIn f) log := by
  have h1 : f.Covers (⟨hdr + 16, 4⟩ :: log) := File.covers_cons _ _ hlog (by omega)
  have h2 : f.Covers (⟨hdr + 20, 4⟩ :: ⟨hdr + 16, 4⟩ :: log) := File.covers_cons _ _ h1 (by omega)
  unfold verifySectionRawData
  simp only [wp_ite, wp_bind, wp_read32, wp_stopIf, wp_pure]
  refine ⟨fun hpos => ⟨fun _ => h2, fun hov => ⟨fun _ => h2, fun hend => ⟨h2, fun _ => ?_⟩⟩⟩,
    fun hpos => ⟨h1, fun h => absurd h hpos⟩⟩
  rw [baseOverflowAddU32_snd (Bool.not_eq_true _ ▸ hov)] at hend
  omega

lemma nextSectionRva_spec {vs : Nat} (ha : isPow2 align) (hlt : align < 2^32) (hlog : f.Covers log) :
    wp (nextSectionRva pcd va vs align) (fun r l => f.Covers l ∧ r < 2^32 ∧ va + vs ≤ r ∧
        r = if pcd.contiguousSections = false then roundUp (va + vs) align else va + vs)
      (ReadsIn f) log := by
  unfold nextSectionRva
  simp only [wp_ite, wp_bind, wp_stopIf, wp_pure]
  refine ⟨fun _ => hlog, fun hov => ?_⟩
  have hov' : (baseOverflowAddU32 va vs).1 = false := by simpa using hov
  have hsum := baseOverflowAddU32_fst.mp hov'
  rw [baseOverflowAddU32_snd hov']
  refine ⟨fun hs => ⟨fun _ => hlog, fun h => ?_⟩, fun hs => ?_⟩
  · have h' : (baseOverflowAlignUpU32 (va + vs) align).1 = false := by simpa using h
    rw [alignUp_ok ha hlt h', if_pos hs]
    exact ⟨hlog, (alignUp_fst_iff ha hlt).mp h', le_roundUp _ (isPow2_pos ha), rfl⟩
  · rw [if_neg hs]
    exact ⟨hlog, hsum, le_rfl, rfl⟩

/-! ## the loop over the sections -/

/-- where the section behind the first `k` ones has to start -/
def expectedRva (pcd : Pcd) (f : File) (off start align : Nat) : Nat → Nat
  | 0 => start
  | k+1 =>
    if pcd.contiguousSections = false then roundUp (sectionAt f off k).top align
    else (sectionAt f off k).top

/-- the loop has verified the first `k` sections -/
structure Verified (pcd : Pcd) (f : File) (off start align0 k next align : Nat) : Prop where
  pow2 : isPow2 align
  dvd : align ∣ align0
  next_lt : next < 2^32
  next_eq : next = expectedRva pcd f off start align k
  aligned : ∀ j, j < k → align ∣ (sectionAt f off j).virtualAddress
  top_le : ∀ j, j < k → (sectionAt f off j).top ≤ next
  sorted : ∀ i j, i < j → j < k → (sectionAt f off i).top ≤ (sectionAt f off j).virtualAddress
  raw : ∀ j, j < k → 0 < (sectionAt f off j).sizeOfRawData →
    (sectionAt f off j).pointerToRawData + (sectionAt f off j).sizeOfRawData ≤ f.size
  start_le : ∀ j, j < k → start ≤ (sectionAt f off j).virtualAddress
  strict : pcd.contiguousSections = false → align = align0 ∧ align ∣ next ∧
    ∀ j, j < k → (sectionAt f off j).virtualAddress = expectedRva pcd f off start align j

variable {off start align0 : Nat}

lemma verified_zero (ha : isPow2 align0) (hlt : start < 2^32)
    (hs : pcd.contiguousSections = false → align0 ∣ start) : Verified pcd f off start align0 0 start align0 where
  pow2 := ha
  dvd := dvd_rfl
  next_lt := hlt
  next_eq := rfl
  aligned := fun j hj => absurd hj (not_lt_zero j)
  top_le := fun j hj => absurd hj (not_lt_zero j)
  sorted := fun _ j _ hj => absurd hj (not_lt_zero j)
  raw := fun j hj => absurd hj (not_lt_zero j)
  start_le := fun j hj => absurd hj (not_lt_zero j)
  strict := fun h => ⟨rfl, hs h, fun j hj => absurd hj (not_lt_zero j)⟩

lemma Verified.start_le_next {k next align : Nat}
    (h : Verified pcd f off start align0 k next align) : start ≤ next := by
  cases k with
  | zero => exact h.next_eq.ge
  | succ k =>
    have h1 := h.start_le k (lt_succ_self k)
    have h2 := h.top_le k (lt_succ_self k)
    exact h1.trans ((le_add_right _ _).trans h2)

lemma Verified.step {k next align a' next' : Nat}
    (h : Verified pcd f off start align0 k next align) (hp : isPow2 a') (hd : a' ∣ align)
    (hva : a' ∣ (sectionAt f off k).virtualAddress) (hle : next ≤ (sectionAt f off k).virtualAddress)
    (hst : pcd.contiguousSections = false → a' = align ∧ (sectionAt f off k).virtualAddress = next)
    (hraw : 0 < (sectionAt f off k).sizeOfRawData →
      (sectionAt f off k).pointerToRawData + (sectionAt f off k).sizeOfRawData ≤ f.size)
    (hlt : next' < 2^32) (htop : (sectionAt f off k).top ≤ next')
    (hnext : next' = expectedRva pcd f off start a' (k+1)) : Verified pcd f off start align0 (k+1) next' a' where
  pow2 := hp
  dvd := hd.trans h.dvd
  next_lt := hlt
  next_eq := hnext
  aligned := by
    intro j hj
    rcases Nat.lt_succ_iff_lt_or_eq.mp hj with hj | rfl
    · exact hd.trans (h.aligned j hj)
    · exact hva
  top_le := by
    intro j hj
    rcases Nat.lt_succ_iff_lt_or_eq.mp hj with hj | rfl
    · exact (h.top_le j hj).trans (hle.trans ((le_add_right _ _).trans htop))
    · exact htop
  sorted := by
    intro i j hij hj
    rcases Nat.lt_succ_iff_lt_or_eq.mp hj with hj | rfl
    · exact h.sorted i j hij hj
    · exact (h.top_le i hij).trans hle
  raw := by
    intro j hj
    rcases Nat.lt_succ_iff_lt_or_eq.mp hj with hj | rfl
    · exact h.raw j hj
    · exact hraw
  start_le := by
    intro j hj
    rcases Nat.lt_succ_iff_lt_or_eq.mp hj with hj | rfl
    · exact h.start_le j hj
    · exact h.start_le_next.trans hle
  strict := by
    intro hs
    obtain ⟨ha, hdv, hall⟩ := h.strict hs
    obtain ⟨ha', hva'⟩ := hst hs
    refine ⟨ha'.trans ha, ?_, fun j hj => ?_⟩
    · rw [hnext, expectedRva, if_pos hs]
      exact dvd_roundUp _ _
    · rw [ha']
      rcases Nat.lt_succ_iff_lt_or_eq.mp hj with hj | rfl
      · exact hall j hj
      · rw [hva', h.next_eq]

lemma internalVerifySection_spec {k next align : Nat} {log : List Span} (hlog : f.Covers log)
    (h : Verified pcd f off start align0 k next align) (hlt : align0 < 2^32) (h0 : 0 < align0)
    (hhdr : off + 40 * (k+1) ≤ f.size) : wp (internalVerifySection pcd arch f off k (next, align))
      (fun st l => f.Covers l ∧ Verified pcd f off start align0 (k+1) st.1 st.2)
      (ReadsIn f) log := by
  have hsz : off + sizeofSectionHeader * k + 40 ≤ f.size := by
    show off + 40 * k + 40 ≤ f.size
    omega
  simp only [internalVerifySection, wp_bind, wp_read32, wp_pure]
  apply wp_post (verifySectionWXorX_spec hlog hsz) _
  intro _ l1 hl1
  have hl2 := File.covers_cons (off + sizeofSectionHeader * k + 12) 4 hl1 (by omega)
  apply wp_post (verifySectionAddress_spec h.pow2 hl2 (fun hs => (h.strict hs).2.1)) _
  rintro a' l3 ⟨hl3, hp, hd, hva, hle, hst⟩
  apply wp_post (verifySectionRawData_spec hl3 hsz) _
  rintro _ l4 ⟨hl4, hraw⟩
  have hl5 := File.covers_cons (off + sizeofSectionHeader * k + 8) 4 hl4 (by omega)
  have ha' : a' < 2^32 := lt_of_le_of_lt (le_of_dvd h0 (hd.trans h.dvd)) hlt
  apply wp_post (nextSectionRva_spec hp ha' hl5) _
  rintro next' l6 ⟨hl6, hn, htop, hnext⟩
  exact ⟨hl6, h.step hp hd hva hle hst hraw hn htop hnext⟩

lemma verifySections_loop {n : Nat} {log : List Span} (hlog : f.Covers log)
    (ha : isPow2 align0) (hlt : align0 < 2^32) (hstart : start < 2^32)
    (hs : pcd.contiguousSections = false → align0 ∣ start) (hhdr : off + 40 * n ≤ f.size) :
    wp (loop (internalVerifySection pcd arch f off) 0 n (start, align0))
      (fun st l => f.Covers l ∧ Verified pcd f off start align0 n st.1 st.2) (ReadsIn f) log := by
  have hstep : ∀ k st l, 0 ≤ k → k < 0 + n →
      (f.Covers l ∧ Verified pcd f off start align0 k st.1 st.2) →
      wp (internalVerifySection pcd arch f off k st)
        (fun st l => f.Covers l ∧ Verified pcd f off start align0 (k+1) st.1 st.2) (ReadsIn f) l := by
    rintro k ⟨next, align⟩ l - hk ⟨hl, hv⟩
    exact internalVerifySection_spec hl hv hlt (isPow2_pos ha) (by omega)
  have h := wp_loop (internalVerifySection pcd arch f off)
    (fun k st l => f.Covers l ∧ Verified pcd f off start align0 k st.1 st.2) 0 n (start, align0)
    ⟨hlog, verified_zero ha hstart hs⟩ hstep
  rwa [zero_add] at h

/-! ## the size of the image -/

variable {ctx : PeContext}

/-- a rounding to `g` that fits, where one to `align` does not, is to a smaller power of two -/
lemma dvd_of_alignUp_fits {next align g : Nat} (ha : isPow2 align) (hlt : align < 2^32)
    (hg : isPow2 g) (hglt : g < 2^32) (hov : ¬ (baseOverflowAlignUpU32 next align).1 = false)
    (hfit : (baseOverflowAlignUpU32 next g).1 = false) : g ∣ align := by
  rw [alignUp_fst ha hlt] at hov
  rw [alignUp_fst hg hglt] at hfit
  exact isPow2_dvd hg ha (by omega)

/-- outside the strict policy the image size is rounded, or the rounding left `0` -/
lemma finalSizeOfImage_spec (arch : Arch) {next align : Nat} (ha : isPow2 align) (hlt : align < 2^32)
    (hn : next < 2^32) (hs : ¬ pcd.contiguousSections = false) : (finalSizeOfImage pcd arch next align).2 = 0 ∨
      isPow2 (finalSizeOfImage pcd arch next align).1 ∧ (finalSizeOfImage pcd arch next align).1 ∣ align ∧
      (finalSizeOfImage pcd arch next align).2 < 2^32 ∧ (finalSizeOfImage pcd arch next align).2 =
        roundUp next (finalSizeOfImage pcd arch next align).1 := by
  have fits : ∀ g, isPow2 g → g < 2^32 → (baseOverflowAlignUpU32 next g).1 = false →
      (baseOverflowAlignUpU32 next g).2 < 2^32 ∧ (baseOverflowAlignUpU32 next g).2 = roundUp next g := by
    intro g hg hglt h
    rw [alignUp_ok hg hglt h]
    exact ⟨(alignUp_fst_iff hg hglt).mp h, rfl⟩
  have wraps : ∀ g, isPow2 g → g < 2^32 → ¬ (baseOverflowAlignUpU32 next g).1 = false →
      (baseOverflowAlignUpU32 next g).2 = 0 := by
    intro g hg hglt h
    exact alignUp_overflow hg hglt hn (by simpa using h)
  have hr := arch.runtime_pow2
  have hrlt := arch.runtime_lt
  have hd := arch.default_pow2
  have hdlt := arch.default_lt
  unfold finalSizeOfImage
  rw [if_neg hs]
  generalize arch.runtimePageAllocationGranularity = r at *
  generalize arch.defaultPageAllocationGranularity = d at *
  by_cases h : (baseOverflowAlignUpU32 next align).1 = false
  · rw [if_pos h]
    exact .inr ⟨ha, dvd_rfl, fits align ha hlt h⟩
  rw [if_neg h]
  by_cases h1 : (baseOverflowAlignUpU32 next r).1 = false
  · rw [if_pos h1]
    exact .inr ⟨hr, dvd_of_alignUp_fits ha hlt hr hrlt h h1, fits r hr hrlt h1⟩
  rw [if_neg h1]
  by_cases h2 : d < r
  · rw [if_pos h2]
    by_cases h3 : (baseOverflowAlignUpU32 next d).1 = false
    · rw [if_pos h3]
      exact .inr ⟨hd, dvd_of_alignUp_fits ha hlt hd hdlt h h3, fits d hd hdlt h3⟩
    · rw [if_neg h3]
      exact .inl (wraps d hd hdlt h3)
  · rw [if_neg h2]
    exact .inl (wraps r hr hrlt h1)

structure SectionsOk (pcd : Pcd) (f : File) (ctx : PeContext) : Prop where
  pos : 0 < ctx.numberOfSections
  pow2 : isPow2 ctx.sectionAlignment
  size_lt : ctx.sizeOfImage < 2^32
  size_eq : ctx.sizeOfImage =
    roundUp (sectionAt f ctx.sectionsOffset (ctx.numberOfSections - 1)).top ctx.sectionAlignment
  aligned : ∀ j, j < ctx.numberOfSections → ctx.sectionAlignment ∣ (sectionAt f ctx.sectionsOffset j).virtualAddress
  top_le : ∀ j, j < ctx.numberOfSections → (sectionAt f ctx.sectionsOffset j).top ≤ ctx.sizeOfImage
  sorted : ∀ i j, i < j → j < ctx.numberOfSections →
    (sectionAt f ctx.sectionsOffset i).top ≤ (sectionAt f ctx.sectionsOffset j).virtualAddress
  raw : ∀ j, j < ctx.numberOfSections → 0 < (sectionAt f ctx.sectionsOffset j).sizeOfRawData →
    (sectionAt f ctx.sectionsOffset j).pointerToRawData + (sectionAt f ctx.sectionsOffset j).sizeOfRawData ≤ f.size
  first : (sectionAt f ctx.sectionsOffset 0).virtualAddress = 0 ∨
    ctx.sizeOfHeaders ≤ (sectionAt f ctx.sectionsOffset 0).virtualAddress
  strict : pcd.contiguousSections = false →
    ((sectionAt f ctx.sectionsOffset 0).virtualAddress = 0 ∨
      (sectionAt f ctx.sectionsOffset 0).virtualAddress = roundUp ctx.sizeOfHeaders ctx.sectionAlignment) ∧
    ∀ j, j + 1 < ctx.numberOfSections →
      (sectionAt f ctx.sectionsOffset (j+1)).virtualAddress =
        roundUp (sectionAt f ctx.sectionsOffset j).top ctx.sectionAlignment

/-- the address `InternalVerifySections` reports as the start of the sections -/
def startAddress (pcd : Pcd) (f : File) (ctx : PeContext) : Nat :=
  if (sectionAt f ctx.sectionsOffset 0).virtualAddress = 0 then 0
  else if pcd.contiguousSections = false then (sectionAt f ctx.sectionsOffset 0).virtualAddress
  else ctx.sizeOfHeaders

lemma firstSectionRva_spec {va hdrs align : Nat} (ha : isPow2 align) (hlt : align < 2^32)
    (hh : hdrs < 2^32) (hlog : f.Covers log) : wp (firstSectionRva pcd va hdrs align)
      (fun r l => f.Covers l ∧ r < 2^32 ∧ (va = 0 ∨ hdrs ≤ r) ∧ (pcd.contiguousSections = false → align ∣ r) ∧
        r = if va = 0 then 0
          else if pcd.contiguousSections = false then roundUp hdrs align else hdrs)
      (ReadsIn f) log := by
  unfold firstSectionRva
  simp only [wp_ite, wp_bind, wp_stopIf, wp_pure]
  refine ⟨fun h0 => ?_, fun h0 => ⟨fun hs => ⟨fun _ => hlog, fun h => ?_⟩, fun hs => ?_⟩⟩
  · rw [if_pos h0]
    exact ⟨hlog, by norm_num, .inl h0, fun _ => dvd_zero _, rfl⟩
  · have h' : (baseOverflowAlignUpU32 hdrs align).1 = false := by simpa using h
    rw [alignUp_ok ha hlt h', if_neg h0, if_pos hs]
    exact ⟨hlog, (alignUp_fst_iff ha hlt).mp h', .inr (le_roundUp _ (isPow2_pos ha)), fun _ => dvd_roundUp _ _, rfl⟩
  · rw [if_neg h0, if_neg hs]
    exact ⟨hlog, hh, .inr le_rfl, fun h => absurd h hs, rfl⟩

lemma Verified.sectionsOk (arch : Arch) {start next align : Nat} (ha : isPow2 ctx.sectionAlignment)
    (hlt : ctx.sectionAlignment < 2^32) (hpos : 0 < ctx.numberOfSections)
    (hfirst : (sectionAt f ctx.sectionsOffset 0).virtualAddress = 0 ∨ ctx.sizeOfHeaders ≤ start)
    (hstart : start = if (sectionAt f ctx.sectionsOffset 0).virtualAddress = 0 then 0
      else if pcd.contiguousSections = false then roundUp ctx.sizeOfHeaders ctx.sectionAlignment
      else ctx.sizeOfHeaders) (h : Verified pcd f ctx.sectionsOffset start ctx.sectionAlignment ctx.numberOfSections
      next align) (hne : (finalSizeOfImage pcd arch next align).2 ≠ 0) : SectionsOk pcd f { ctx with
      sectionAlignment := (finalSizeOfImage pcd arch next align).1
      sizeOfImage := (finalSizeOfImage pcd arch next align).2 } := by
  obtain ⟨n, hn⟩ : ∃ n, ctx.numberOfSections = n + 1 := ⟨ctx.numberOfSections - 1, by omega⟩
  have hnext := h.next_eq
  rw [hn] at hnext
  have halign : align < 2^32 := lt_of_le_of_lt (le_of_dvd (isPow2_pos ha) h.dvd) hlt
  -- the final alignment divides the one the loop left, and rounds the last section's end
  have hfinal : isPow2 (finalSizeOfImage pcd arch next align).1 ∧
      (finalSizeOfImage pcd arch next align).1 ∣ align ∧
      (finalSizeOfImage pcd arch next align).2 < 2^32 ∧
      next ≤ (finalSizeOfImage pcd arch next align).2 ∧
      (finalSizeOfImage pcd arch next align).2 =
        roundUp (sectionAt f ctx.sectionsOffset n).top (finalSizeOfImage pcd arch next align).1 ∧
      (pcd.contiguousSections = false → (finalSizeOfImage pcd arch next align).1 = ctx.sectionAlignment) := by
    by_cases hs : pcd.contiguousSections = false
    · have e : finalSizeOfImage pcd arch next align = (align, next) := if_pos hs
      rw [expectedRva, if_pos hs] at hnext
      rw [e]
      exact ⟨h.pow2, dvd_rfl, h.next_lt, le_rfl, hnext, fun _ => (h.strict hs).1⟩
    obtain h0 | ⟨h1, h2, h3, h4⟩ := finalSizeOfImage_spec arch h.pow2 halign h.next_lt hs
    · exact absurd h0 hne
    rw [expectedRva, if_neg hs] at hnext
    refine ⟨h1, h2, h3, ?_, ?_, fun hc => absurd hc hs⟩
    · rw [h4]
      exact le_roundUp _ (isPow2_pos h1)
    · rw [← hnext]
      exact h4
  obtain ⟨h1, h2, h3, h4, h5, h6⟩ := hfinal
  have hva : start ≤ (sectionAt f ctx.sectionsOffset 0).virtualAddress := h.start_le 0 hpos
  exact {
    pos := hpos
    pow2 := h1
    size_lt := h3
    size_eq := by
      show _ = roundUp (sectionAt f ctx.sectionsOffset (ctx.numberOfSections - 1)).top _
      rw [hn]
      exact h5
    aligned := fun j hj => h2.trans (h.aligned j hj)
    top_le := fun j hj => (h.top_le j hj).trans h4
    sorted := h.sorted
    raw := h.raw
    first := hfirst.imp id (fun hle => hle.trans hva)
    strict := by
      intro hs
      obtain ⟨ha', -, hall⟩ := h.strict hs
      show (_ ∨ _ = roundUp ctx.sizeOfHeaders (finalSizeOfImage pcd arch next align).1) ∧ _
      rw [h6 hs]
      refine ⟨?_, fun j hj => ?_⟩
      · by_cases h0 : (sectionAt f ctx.sectionsOffset 0).virtualAddress = 0
        · exact .inl h0
        · rw [if_neg h0, if_pos hs] at hstart
          exact .inr ((hall 0 hpos).trans hstart)
      · have e := hall (j+1) hj
        rw [expectedRva, if_pos hs, ha'] at e
        exact e }

lemma startAddress_eq {start : Nat} (h : SectionsOk pcd f ctx)
    (hstart : start = if (sectionAt f ctx.sectionsOffset 0).virtualAddress = 0 then 0
      else if pcd.contiguousSections = false then roundUp ctx.sizeOfHeaders ctx.sectionAlignment
      else ctx.sizeOfHeaders) : start = startAddress pcd f ctx := by
  rw [hstart, startAddress]
  by_cases h0 : (sectionAt f ctx.sectionsOffset 0).virtualAddress = 0
  · rw [if_pos h0, if_pos h0]
  · rw [if_neg h0, if_neg h0]
    by_cases hs : pcd.contiguousSections = false
    · rw [if_pos hs, if_pos hs]
      exact ((h.strict hs).1.resolve_left h0).symm
    · rw [if_neg hs, if_neg hs]

lemma internalVerifySections_spec (ha : isPow2 ctx.sectionAlignment)
    (hlt : ctx.sectionAlignment < 2^32) (hh : ctx.sizeOfHeaders ≤ f.size)
    (htab : ctx.sectionsOffset + 40 * ctx.numberOfSections ≤ ctx.sizeOfHeaders) (hlog : f.Covers log) :
    wp (internalVerifySections pcd arch f ctx) (fun r l => f.Covers l ∧
        r.1 = { ctx with sectionAlignment := r.1.sectionAlignment, sizeOfImage := r.1.sizeOfImage } ∧
        (r.1.sizeOfImage ≠ 0 → SectionsOk pcd f r.1 ∧ r.2 = startAddress pcd f r.1))
      (ReadsIn f) log := by
  have hsz := f.size_lt
  simp only [internalVerifySections, wp_bind, wp_stopIf, wp_read32, wp_pure]
  refine ⟨fun _ => hlog, fun h0 => ?_⟩
  have hpos : 0 < ctx.numberOfSections := pos_of_ne_zero h0
  have hl1 := File.covers_cons (ctx.sectionsOffset + 12) 4 hlog (by omega)
  apply wp_post (firstSectionRva_spec ha hlt (by omega) hl1) _
  rintro start l2 ⟨hl2, hstart, hfirst, hdvd, heq⟩
  apply wp_post (verifySections_loop hl2 ha hlt hstart hdvd (by omega)) _
  rintro ⟨next, align⟩ l3 ⟨hl3, hv⟩
  refine ⟨hl3, trivial, fun hne => ?_⟩
  have hok := hv.sectionsOk arch ha hlt hpos hfirst heq hne
  refine ⟨hok, ?_⟩
  by_cases hs : pcd.contiguousSections = false
  · -- under the strict policy neither the loop nor the end changes the alignment
    have e : (finalSizeOfImage pcd arch next align).1 = ctx.sectionAlignment := by
      have e' : finalSizeOfImage pcd arch next align = (align, next) := if_pos hs
      rw [e']
      exact (hv.strict hs).1
    apply startAddress_eq hok
    show start = if _ then 0 else if _ then roundUp ctx.sizeOfHeaders _ else ctx.sizeOfHeaders
    rw [e]
    exact heq
  · rw [if_neg hs] at heq
    rw [heq, startAddress, if_neg hs]
    rfl

/-! ## the relocation directory -/

def RelocDirOk (ctx : PeContext) (start : Nat) : Prop :=
  ctx.relocDirSize ≠ 0 → sizeofBaseRelocationBlock ≤ ctx.relocDirSize ∧ start ≤ ctx.relocDirRva ∧
    ctx.relocDirRva + ctx.relocDirSize ≤ ctx.sizeOfImage ∧ 4 ∣ ctx.relocDirRva

lemma internalValidateRelocInfo_spec {start : Nat} (hlog : f.Covers log) (ha : isPow2 ctx.sectionAlignment) :
    wp (internalValidateRelocInfo ctx start)
      (fun _ l => f.Covers l ∧ RelocDirOk ctx start ∧ ctx.sectionAlignment ∣ ctx.imageBase)
      (ReadsIn f) log := by
  have h4 : isPow2 4 := by decide
  simp only [internalValidateRelocInfo, wp_bind, wp_ite, wp_stopIf, isAligned_iff ha,
    isAligned_iff h4, not_or, not_not, not_lt]
  refine ⟨fun hne => ⟨fun _ => hlog, fun h1 => ⟨fun _ => hlog, fun h2 => ⟨fun _ => hlog,
    fun h3 => ⟨fun _ => hlog, fun h5 => ⟨fun _ => hlog, fun h6 => ⟨hlog, fun _ => ?_, h6⟩⟩⟩⟩⟩⟩,
    fun hz => ⟨fun _ => hlog, fun h6 => ⟨hlog, fun h => absurd h (not_not.mpr hz), h6⟩⟩⟩
  obtain ⟨hov, hend⟩ := h3
  rw [baseOverflowAddU32_snd (by simpa using hov)] at hend
  exact ⟨h1, h2, hend, h5⟩

/-! ## the headers -/

variable {origin : ImageOrigin} {dir nrva : Nat} {exe : Nat}

lemma peOptionalHeader_spec (hexe : exe = exeHdrOffset f) (hle : exe + 26 ≤ f.size)
    (hlog : f.Covers log) : wp (peOptionalHeader pcd f exe)
      (fun t l => f.Covers l ∧ t = peType f ∧ exe + t.sizeofNtHeaders ≤ f.size) (ReadsIn f) log := by
  have hsz := f.size_lt
  have hl : f.Covers (⟨exe + sizeofNtHeadersCommon, 2⟩ :: log) := File.covers_cons _ _ hlog hle
  have hsub : sub32 f.size exe = f.size - exe := sub32_eq (by omega) hsz
  simp only [peOptionalHeader, wp_bind, wp_read16, wp_ite, wp_stopIf, wp_pure, wp_fail, hsub]
  refine ⟨fun hm => ⟨fun _ => hl, fun h => ⟨hl, ?_, ?_⟩⟩, fun hm => ⟨fun hm' => ⟨fun _ => hl,
    fun h => ⟨fun _ => hl, fun _ => ⟨hl, ?_, ?_⟩⟩⟩, fun _ => hl⟩⟩
  · rw [peType, ← hexe]
    exact (if_pos hm).symm
  · omega
  · rw [peType, ← hexe]
    exact (if_neg hm).symm
  · omega

lemma imageProtection_spec {align : Nat} (hlog : f.Covers log) :
    wp (imageProtection pcd origin align) (fun _ l => f.Covers l) (ReadsIn f) log := by
  simp only [imageProtection, wp_ite, wp_bind, wp_stopIf, wp_fail, wp_pure]
  exact ⟨fun _ => ⟨fun _ => hlog, fun _ => hlog⟩, fun _ => hlog⟩

lemma peHeaderSizes_spec {exe nrva hdrs : Nat} {t : ImageType} (hle : exe + 26 ≤ f.size) (hlog : f.Covers log) :
    wp (peHeaderSizes pcd f exe t nrva hdrs)
      (fun r l => f.Covers l ∧ r.1 = exe + sizeofNtHeadersCommon + f.u16 (exe + 20) ∧
        r.2 = f.u16 (exe + 6) ∧ exe + t.sizeofNtHeaders + sizeofDataDirectory * nrva ≤ r.1 ∧
        r.1 + 40 * r.2 ≤ hdrs ∧ hdrs ≤ f.size)
      (ReadsIn f) log := by
  have hsz := f.size_lt
  have hl1 : f.Covers (⟨exe + 20, 2⟩ :: log) := File.covers_cons _ _ hlog (by omega)
  have hl2 : f.Covers (⟨exe + 6, 2⟩ :: ⟨exe + 20, 2⟩ :: log) := File.covers_cons _ _ hl1 (by omega)
  have hexe : add32 exe sizeofNtHeadersCommon = exe + sizeofNtHeadersCommon :=
    add32_eq (by show exe + 24 < 2^32; omega)
  simp only [peHeaderSizes, wp_bind, wp_read16, wp_stopIf, wp_pure, hexe]
  refine ⟨fun _ => hl1, fun h1 => ⟨fun _ => hl1, fun h2 => ⟨fun _ => hl2, fun h3 => ⟨fun _ => hl2,
    fun h4 => ⟨fun _ => hl2, fun h5 => ⟨fun _ => hl2, fun h6 => ?_⟩⟩⟩⟩⟩⟩
  have e1 := baseOverflowAddU32_snd (by simpa using h1)
  rw [e1] at h3 h5 ⊢
  rw [baseOverflowAddU32_snd (by simpa using h3)] at h5
  refine ⟨hl2, rfl, trivial, ?_, ?_, not_lt.mp h6⟩
  · have ht : sizeofNtHeadersCommon ≤ t.sizeofNtHeaders := by cases t <;> decide
    have hc : nrva * sizeofDataDirectory = sizeofDataDirectory * nrva := mul_comm _ _
    omega
  · have hc : f.u16 (exe + 6) * sizeofSectionHeader = 40 * f.u16 (exe + 6) := mul_comm _ _
    omega

lemma peRelocDir_spec {stripped : Bool}
    (hle : dir + sizeofDataDirectory * nrva ≤ f.size) (hlog : f.Covers log) : wp (peRelocDir f dir nrva stripped)
      (fun r l => f.Covers l ∧
        r.1 = (if 5 < nrva then f.u32 (dir + sizeofDataDirectory * 5) else 0) ∧
        r.2 = (if 5 < nrva then f.u32 (dir + sizeofDataDirectory * 5 + 4) else 0))
      (ReadsIn f) log := by
  simp only [peRelocDir, wp_ite, wp_bind, wp_read32, wp_stopIf, wp_pure]
  refine ⟨fun h => ?_, fun h => ⟨hlog, (if_neg h).symm, (if_neg h).symm⟩⟩
  have h5 : 5 < nrva := h
  have hd : dir + 48 ≤ f.size := by
    have : sizeofDataDirectory * nrva = 8 * nrva := rfl
    omega
  have hl := File.covers_cons (dir + sizeofDataDirectory * directoryEntryBaseReloc + 4) 4
    (File.covers_cons (dir + sizeofDataDirectory * directoryEntryBaseReloc) 4 hlog
      (by show dir + 40 + 4 ≤ f.size; omega)) (by show dir + 40 + 4 + 4 ≤ f.size; omega)
  exact ⟨fun _ => hl, fun _ => ⟨hl, (if_pos h5).symm, (if_pos h5).symm⟩⟩

def SecDirOk (f : File) (offset size : Nat) : Prop :=
  offset + size ≤ f.size ∧ 8 ∣ offset ∧ (size ≠ 0 → 8 ∣ size ∧ sizeofWinCertificate ≤ size)

lemma peSecDir_spec (hle : dir + sizeofDataDirectory * nrva ≤ f.size) (hlog : f.Covers log) :
    wp (peSecDir f dir nrva) (fun r l => f.Covers l ∧ SecDirOk f r.1 r.2 ∧
        r.1 = (if 4 < nrva then f.u32 (dir + sizeofDataDirectory * 4) else 0) ∧
        r.2 = (if 4 < nrva then f.u32 (dir + sizeofDataDirectory * 4 + 4) else 0))
      (ReadsIn f) log := by
  have h8 : isPow2 imageCertificateAlign := by decide
  simp only [peSecDir, wp_ite, wp_bind, wp_read32, wp_stopIf, wp_pure, isAligned_iff h8]
  refine ⟨fun h => ?_, fun h => ⟨hlog, ⟨zero_le _, dvd_zero _, fun h => absurd rfl h⟩,
    (if_neg h).symm, (if_neg h).symm⟩⟩
  have h4 : 4 < nrva := h
  have hd : dir + 40 ≤ f.size := by
    have : sizeofDataDirectory * nrva = 8 * nrva := rfl
    omega
  have hl := File.covers_cons (dir + sizeofDataDirectory * directoryEntrySecurity + 4) 4
    (File.covers_cons (dir + sizeofDataDirectory * directoryEntrySecurity) 4 hlog
      (by show dir + 32 + 4 ≤ f.size; omega)) (by show dir + 32 + 4 + 4 ≤ f.size; omega)
  refine ⟨fun _ => hl, fun h1 => ⟨fun _ => hl, fun h2 => ⟨fun _ => hl, fun h3 => ⟨hl, ?_,
    (if_pos h4).symm, (if_pos h4).symm⟩⟩⟩⟩
  obtain ⟨hov, hend⟩ := not_or.mp h1
  rw [baseOverflowAddU32_snd (by simpa using hov)] at hend
  refine ⟨not_lt.mp hend, not_not.mp h2, fun hne => ?_⟩
  obtain ⟨ha, hb⟩ := not_or.mp (not_and.mp h3 hne)
  exact ⟨not_not.mp ha, not_lt.mp hb⟩

/-! ## the accepted image -/

/-- **what `PeCoffInitializeContext` establishes** -/
structure Accepted (pcd : Pcd) (f : File) (ctx : PeContext) : Prop extends SectionsOk pcd f ctx where
  fileSize : ctx.fileSize = f.size
  exe : ctx.exeHdrOffset = exeHdrOffset f
  type : ctx.imageType = peType f
  base : ctx.imageBase = imageBase f
  offset : ctx.sectionsOffset = sectionsOffset f
  number : ctx.numberOfSections = numberOfSections f
  hdrs : ctx.sizeOfHeaders = sizeOfHeaders f
  relocRva : ctx.relocDirRva = dirRva f directoryEntryBaseReloc
  relocSize : ctx.relocDirSize = dirSize f directoryEntryBaseReloc
  secOffset : ctx.secDirOffset = dirRva f directoryEntrySecurity
  secSize : ctx.secDirSize = dirSize f directoryEntrySecurity
  dir_le : dirEntry f (numberOfRvaAndSizes f) ≤ ctx.sectionsOffset
  numDirs_le : numberOfRvaAndSizes f ≤ numberOfDirectoryEntries
  headers : ctx.sectionsOffset + 40 * ctx.numberOfSections ≤ ctx.sizeOfHeaders
  headers_le : ctx.sizeOfHeaders ≤ f.size
  entry : ctx.addressOfEntryPoint < ctx.sizeOfImage
  reloc : RelocDirOk ctx (startAddress pcd f ctx)
  sec : SecDirOk f ctx.secDirOffset ctx.secDirSize
  base_dvd : ctx.sectionAlignment ∣ ctx.imageBase

lemma internalInitializePe_spec (hexe : exe = exeHdrOffset f)
    (hle : exe + 26 ≤ f.size) (hlog : f.Covers log) : wp (internalInitializePe pcd arch origin f exe)
      (fun ctx l => f.Covers l ∧ Accepted pcd f ctx) (ReadsIn f) log := by
  simp only [internalInitializePe, wp_bind, wp_read16, wp_read32, wp_read, wp_stopIf, wp_pure]
  apply wp_post (peOptionalHeader_spec hexe hle hlog) _
  rintro t l1 ⟨hl1, ht, htle⟩
  -- the fields of the optional header lie below its end
  have hb : t.imageBase.1 + t.imageBase.2 ≤ t.sizeofNtHeaders := by cases t <;> decide
  have hr : t.numberOfRvaAndSizes + 4 ≤ t.sizeofNtHeaders := by cases t <;> decide
  have hm : 120 ≤ t.sizeofNtHeaders := by cases t <;> decide
  have hl7 := File.covers_cons (exe + t.numberOfRvaAndSizes) 4
    (File.covers_cons (exe + 56) 4 (File.covers_cons (exe + 40) 4
      (File.covers_cons (exe + t.imageBase.1) t.imageBase.2 (File.covers_cons (exe + 84) 4
        (File.covers_cons (exe + 92) 2 hl1 (by omega)) (by omega)) (by omega)) (by omega))
      (by omega)) (by omega)
  refine ⟨fun _ => hl7, fun hn => ⟨fun _ => hl7, fun hp => ?_⟩⟩
  apply wp_post (imageProtection_spec hl7) _
  intro _ l8 hl8
  apply wp_post (peHeaderSizes_spec hle hl8) _
  rintro ⟨off, n⟩ l9 ⟨hl9, hoff, hnum, hdir, htab, hhdr⟩
  have hl11 := File.covers_cons (exe + 22) 2 (File.covers_cons (exe + 4) 2 hl9 (by omega)) (by omega)
  have hdirle : exe + t.sizeofNtHeaders + sizeofDataDirectory * f.u32 (exe + t.numberOfRvaAndSizes) ≤
      f.size := by omega
  apply wp_post (peRelocDir_spec hdirle hl11) _
  rintro ⟨rva, rsize⟩ l12 ⟨hl12, hrva, hrsize⟩
  apply wp_post (peSecDir_spec hdirle hl12) _
  rintro ⟨soff, ssize⟩ l13 ⟨hl13, hsec, hsoff, hssize⟩
  have hpow : isPow2 (f.u32 (exe + 56)) := not_not.mp hp
  apply wp_post (internalVerifySections_spec hpow (f.u32_lt _) hhdr htab hl13) _
  rintro ⟨ctx', start⟩ l14 ⟨hl14, hctx, hok⟩
  refine ⟨fun _ => hl14, fun hentry => ?_⟩
  have hlt : f.u32 (exe + 40) < ctx'.sizeOfImage := not_le.mp hentry
  obtain ⟨hsections, hstart⟩ := hok (by omega)
  apply wp_post (internalValidateRelocInfo_spec hl14 hsections.pow2) _
  rintro _ l15 ⟨hl15, hreloc, hbase⟩
  subst hexe ht
  rw [hstart] at hreloc
  exact ⟨hl15, { hsections with
    fileSize := congrArg PeContext.fileSize hctx
    exe := congrArg PeContext.exeHdrOffset hctx
    type := congrArg PeContext.imageType hctx
    base := congrArg PeContext.imageBase hctx
    offset := (congrArg PeContext.sectionsOffset hctx).trans hoff
    number := (congrArg PeContext.numberOfSections hctx).trans hnum
    hdrs := congrArg PeContext.sizeOfHeaders hctx
    relocRva := (congrArg PeContext.relocDirRva hctx).trans hrva
    relocSize := (congrArg PeContext.relocDirSize hctx).trans hrsize
    secOffset := (congrArg PeContext.secDirOffset hctx).trans hsoff
    secSize := (congrArg PeContext.secDirSize hctx).trans hssize
    dir_le := hdir.trans (congrArg PeContext.sectionsOffset hctx).ge
    numDirs_le := not_lt.mp hn
    headers := by
      rw [congrArg PeContext.sectionsOffset hctx, congrArg PeContext.numberOfSections hctx,
        congrArg PeContext.sizeOfHeaders hctx]
      exact htab
    headers_le := (congrArg PeContext.sizeOfHeaders hctx).le.trans hhdr
    entry := lt_of_eq_of_lt (congrArg PeContext.addressOfEntryPoint hctx) hlt
    reloc := hreloc
    sec := by
      rw [congrArg PeContext.secDirOffset hctx, congrArg PeContext.secDirSize hctx]
      exact hsec
    base_dvd := hbase }⟩

lemma peExeHdrOffset_spec (hlog : f.Covers log) :
    wp (peExeHdrOffset pcd f) (fun exe l => f.Covers l ∧ exe = exeHdrOffset f ∧ exe ≤ f.size) (ReadsIn f) log := by
  simp only [peExeHdrOffset, wp_ite, wp_bind, wp_read16, wp_read32, wp_stopIf, wp_pure]
  refine ⟨fun h64 => ?_, fun h64 => ⟨hlog, ?_, zero_le _⟩⟩
  · have h64' : 64 ≤ f.size := h64
    have hl1 := File.covers_cons 0 2 hlog (by omega)
    have hl2 := File.covers_cons 60 4 hl1 (by omega)
    refine ⟨fun hm => ⟨fun _ => hl2, fun h1 => ⟨fun _ => hl2, fun _ => ⟨hl2, ?_, ?_⟩⟩⟩,
      fun hm => ⟨hl1, ?_, zero_le _⟩⟩
    · have hd : hasDosHeader f := ⟨h64, hm⟩
      exact (if_pos hd).symm
    · exact not_lt.mp (not_or.mp h1).2
    · have hd : ¬ hasDosHeader f := fun h => hm h.2
      exact (if_neg hd).symm
  · have hd : ¬ hasDosHeader f := fun h => h64 h.1
    exact (if_neg hd).symm

lemma peCoffInitializeContext_spec (pcd : Pcd) (arch : Arch) (origin : ImageOrigin) (hlog : f.Covers log) :
    wp (peCoffInitializeContext pcd arch origin f)
      (fun ctx l => f.Covers l ∧ Accepted pcd f ctx) (ReadsIn f) log := by
  have hsz := f.size_lt
  apply wp_seq (peExeHdrOffset_spec hlog) _
  rintro exe l1 ⟨hl1, hexe, hle⟩
  rw [wp_bind, wp_stopIf, sub32_eq hle hsz]
  refine ⟨fun _ => hl1, fun h1 => ?_⟩
  have h26 : exe + 26 ≤ f.size := by
    have : ¬ f.size - exe < 24 + 2 := h1
    omega
  have hl2 := File.covers_cons exe 4 hl1 (by omega)
  rw [wp_bind, wp_read32, wp_bind, wp_stopIf]
  exact ⟨fun _ => hl2, fun _ => internalInitializePe_spec hexe h26 hl2⟩

lemma accepted_of_run {log' : List Span}
    (h : peCoffInitializeContext pcd arch origin f [] = (.ok ctx, log')) :
    f.Covers log' ∧ Accepted pcd f ctx := by
  have hspec := peCoffInitializeContext_spec pcd arch origin f.covers_nil
  obtain ⟨hc, ha⟩ := wp_ok hspec h
  exact ⟨hc, ha⟩

end

end Audk.PeCoff
