import Audk.Mem.PageInvariant

/-!
# Page allocation: `CoreInternalAllocatePages`

`AllocContract` says what a caller gets: the pages were free, now have the requested type, and keep their
attributes; the address is aligned and below the requested maximum; other pages changed only for
descriptors or by promotion.

The size of a request in bytes is computed modulo `2^64`, and only a requested address is checked for
that.  So the contract holds for fewer than `2^52` pages (`coreInternalAllocatePages_contract`), and a
larger request can succeed with a few pages (`hugeRequest_one_page`).
-/

namespace Audk.Mem

open Prog Regions List Nat

/-! ## the address that is found -/

/-- the descriptor has room for the request, up to the address `t` -/
structure Fits (max bytes align : Nat) (n : MapNode) (t : Nat) : Prop where
  end_eq : t = alignedEnd align (if max ≤ n.entry.end_ then max else n.entry.end_)
  start_le : n.entry.start ≤ t
  room : bytes ≤ (t - n.entry.start + 1) % 2^64
  free : n.entry.type = efiConventionalMemory

section
variable {map : List MapNode} {max min pages align bytes start : Nat}

lemma betterTarget_fits (n : MapNode) (target : Nat) :
    betterTarget max min bytes align target n = target ∨
      Fits max bytes align n (betterTarget max min bytes align target n) := by
  unfold betterTarget
  dsimp only
  generalize hd : alignedEnd align (if max ≤ n.entry.end_ then max else n.entry.end_) = d
  split_ifs with h1 h2 h3 h4 h5 h6
  · exact .inl rfl
  · exact .inl rfl
  · exact .inl rfl
  · exact .inl rfl
  · exact .inl rfl
  · exact .inr ⟨hd.symm, not_lt.mp h3, not_lt.mp h4, not_not.mp h1⟩
  · exact .inl rfl

lemma foldl_betterTarget (max min bytes align : Nat) (map : List MapNode) (target : Nat) :
    map.foldl (betterTarget max min bytes align) target = target ∨
      ∃ n ∈ map, Fits max bytes align n (map.foldl (betterTarget max min bytes align) target) := by
  induction map generalizing target with
  | nil => exact .inl rfl
  | cons n ns ih =>
    rw [foldl_cons]
    rcases ih (betterTarget max min bytes align target n) with heq | ⟨m, hm, hfits⟩
    · rw [heq]
      rcases betterTarget_fits n target with h | h
      · exact .inl h
      · exact .inr ⟨n, mem_cons_self, h⟩
    · exact .inr ⟨m, mem_cons_of_mem _ hm, hfits⟩

lemma pageEnd_le (h : ¬ max < efiPageSize - 1) : pageEnd max ≤ max := by
  unfold pageEnd
  unfold efiPageSize at *
  split_ifs <;> omega

def Granularity (align : Nat) : Prop := align = 0x1000 ∨ align = 0x10000

instance (align : Nat) : Decidable (Granularity align) := inferInstanceAs (Decidable (_ ∨ _))

lemma pageAlignment_granularity (arch : Arch) (type : Nat) : Granularity (pageAlignment arch type) := by
  unfold pageAlignment
  split_ifs
  · cases arch <;> decide
  · exact .inl rfl

lemma alignedEnd_spec (ha : Granularity align) {a : Nat} (h : a < 2^64) :
    align ∣ alignedEnd align a + 1 ∧ (alignedEnd align a ≤ a ∨ alignedEnd align a = 2^64 - 1) := by
  rcases ha with rfl | rfl
  · unfold alignedEnd sub64
    omega
  · unfold alignedEnd sub64
    omega

/-- **what the search returns**: the end of the request is in a free descriptor and below the maximum,
or it wrapped around -/
theorem coreFindFreePagesI_spec (ha : Granularity align) (hmap : ∀ n ∈ map, WholePages n.entry.start n.entry.end_)
    (hfound : coreFindFreePagesI map max min pages align = start) (hstart : start ≠ 0)
    (hbytes : efiPagesToSize pages ≠ 0) :
    ∃ t, start + efiPagesToSize pages = t + 1 ∧ align ∣ t + 1 ∧ (t ≤ max ∨ t = 2^64 - 1) ∧
      ∃ n ∈ map, n.entry.type = efiConventionalMemory ∧ n.entry.start ≤ start ∧
        (t ≤ n.entry.end_ ∨ t = 2^64 - 1) := by
  unfold coreFindFreePagesI at hfound
  split_ifs at hfound with hzero
  · exact absurd hfound.symm hstart
  dsimp only at hfound
  rw [not_or] at hzero
  have hdvd : efiPageSize ∣ efiPagesToSize pages := by
    unfold efiPagesToSize efiPageSize
    omega
  have hend := pageEnd_le hzero.1
  generalize ht : map.foldl (betterTarget (pageEnd max) min (efiPagesToSize pages) align) 0 = t at hfound
  split_ifs at hfound with hpage
  · exact absurd hfound.symm hstart
  rcases foldl_betterTarget (pageEnd max) min (efiPagesToSize pages) align map 0 with hnone | ⟨n, hn, hfits⟩
  · -- the target stayed `0`, which does not give an aligned address
    rw [ht] at hnone
    unfold sub64 efiPageSize at *
    omega
  rw [ht] at hfits
  have hpages := hmap n hn
  have hn2 := hpages.hi_lt
  obtain ⟨hdvd', hle⟩ := alignedEnd_spec (a := if pageEnd max ≤ n.entry.end_ then pageEnd max
    else n.entry.end_) ha (by split_ifs <;> omega)
  rw [← hfits.end_eq] at hdvd' hle
  have hroom := hfits.room
  have hle' := hfits.start_le
  have ht64 : t < 2^64 := by
    rw [hfits.end_eq]
    unfold alignedEnd sub64
    exact mod_lt _ (by norm_num)
  have hstart' : start + efiPagesToSize pages = t + 1 := by
    rw [← hfound]
    unfold sub64
    omega
  refine ⟨t, hstart', hdvd', ?_, n, hn, hfits.free, by omega, ?_⟩
  · split_ifs at hle <;> omega
  · split_ifs at hle <;> omega

/-! ## allocation -/

/-- the request was converted in the state `s₁` -/
structure Allocated (arch : Arch) (type pages start : Nat) (s s₁ t s' : PageState) (v : Label) : Prop where
  valid : Valid arch s₁
  evolves : Evolves arch Nobody s s₁
  pages_ne : pages ≠ 0
  start_lt : start < requestEnd start pages
  converted : Converted arch true (.type type) (requestEnd start pages) start (requestEnd start pages) s₁ t s' v

variable {arch : Arch} {allocate : AllocateType} {type numberOfPages memory A : Nat} {s s₁ t s' : PageState}
  {v : Label}

/-- **the conversion, with a second attempt after the promotion** -/
theorem wp_convertOrPromote {Q : Option Status → PageState → Prop} (htype : type ≠ efiConventionalMemory)
    (hs : Valid arch s) (hrests : Rests true s) (hstart : start < 2^64)
    (hfail : ∀ e s', Valid arch s' → Rests true s' → Evolves arch Nobody s s' → Q (some e) s')
    (hok : ∀ s₁ t s' v, Allocated arch type pages start s s₁ t s' v → Q none s') :
    wp (convertOrPromote arch start pages type) Q onlyAsserts s := by
  unfold convertOrPromote
  rw [wp_bind]
  refine wp_coreConvertPages_alloc htype (freeStackOk arch) hs hstart ?_ ?_
  · intro e
    refine wp_seq (wp_promoteMemoryResource (freeStackOk arch) hs hrests) ?_
    intro promoted s₁ ⟨hs1, hrests1, hev1, _, _⟩
    split_ifs
    · refine wp_coreConvertPages_alloc htype (freeStackOk arch) hs1 hstart ?_ ?_
      · exact fun e => hfail e s₁ hs1 hrests1 hev1
      · exact fun t s' v hne hlt hconv => hok s₁ t s' v ⟨hs1, hev1, hne, hlt, hconv⟩
    · exact hfail e s₁ hs1 hrests1 hev1
  · intro t s' v hne hlt hconv
    exact hok s t s' v ⟨hs, Evolves.refl s, hne, hlt, hconv⟩

lemma Allocated.trans {s0 : PageState} (h : Allocated arch type pages start s s₁ t s' v)
    (hev : Evolves arch Nobody s0 s) : Allocated arch type pages start s0 s₁ t s' v :=
  ⟨h.valid, hev.trans h.evolves, h.pages_ne, h.start_lt, h.converted⟩

def Chosen (arch : Arch) (allocate : AllocateType) (type pages memory start : Nat) : Prop :=
  if allocate = .address then start = memory ∧ memory % pageAlignment arch type = 0
  else start ≠ 0 ∧ ∃ s, Valid arch s ∧
    FoundBelow s (if allocate = .maxAddress then memory else arch.maxAllocAddress) pages
      (pageAlignment arch type) start

/-- **`CoreInternalAllocatePages`** -/
theorem wp_coreInternalAllocatePages {Q : Except Status Nat → PageState → Prop} (hs : Valid arch s)
    (hrests : Rests true s) (hmemory : memory < 2^64)
    (hfail : ∀ e s', Valid arch s' → Rests true s' → Evolves arch Nobody s s' → Q (.error e) s')
    (hok : ∀ start s₁ t s' v, type ≠ efiConventionalMemory →
      Chosen arch allocate type (roundPages numberOfPages (pageAlignment arch type)) memory start →
      Allocated arch type (roundPages numberOfPages (pageAlignment arch type)) start s s₁ t s' v → Q (.ok start) s') :
    wp (coreInternalAllocatePages arch allocate type numberOfPages memory) Q onlyAsserts s := by
  unfold coreInternalAllocatePages
  by_cases hinvalid : InvalidType type
  · rw [if_pos hinvalid]
    exact hfail _ s hs hrests (Evolves.refl s)
  have htype : type ≠ efiConventionalMemory := fun h => hinvalid (.inr (.inl h))
  rw [if_neg hinvalid, wp_bind, wp_gets]
  dsimp only [id]
  -- the conversion of the chosen address, from the state after the search
  have hconvert (start : Nat) (s0 : PageState) (hs0 : Valid arch s0) (hrests0 : Rests true s0)
      (hev0 : Evolves arch Nobody s s0) (hlt : start < 2^64)
      (hchosen : Chosen arch allocate type (roundPages numberOfPages (pageAlignment arch type)) memory start)
      {result : Option Status → PageProg (Except Status Nat)} (herror : ∀ e, result (some e) = pure (.error e))
      (hnone : result none = pure (.ok start)) :
      wp (convertOrPromote arch start (roundPages numberOfPages (pageAlignment arch type)) type >>= result)
        Q onlyAsserts s0 := by
    rw [wp_bind]
    refine wp_convertOrPromote htype hs0 hrests0 hlt ?_ ?_
    · intro e s' hs' hrests' hev'
      rw [herror]
      exact hfail e s' hs' hrests' (hev0.trans hev')
    · intro s₁ t s' v h
      rw [hnone]
      exact hok start s₁ t s' v htype hchosen (h.trans hev0)
  by_cases haddress : allocate = .address
  · split_ifs with hrefused
    · exact hfail _ s hs hrests (Evolves.refl s)
    · have haligned : memory % pageAlignment arch type = 0 := by
        by_contra hne
        exact hrefused ⟨haddress, .inl hne⟩
      rw [wp_bind, wp_pure, if_neg fun h => h.1 haddress]
      refine hconvert memory s hs hrests (Evolves.refl s) hmemory ?_ (fun _ => rfl) rfl
      unfold Chosen
      rw [if_pos haddress]
      exact ⟨rfl, haligned⟩
  · rw [if_neg fun h => haddress h.1, wp_bind, if_neg haddress]
    refine wp_findFreePages (freeStackOk arch) hs hrests fun start s0 hs0 hrests0 hev0 hfound => ?_
    split_ifs with hzero
    · exact hfail _ s0 hs0 hrests0 hev0
    have hne : start ≠ 0 := fun h => hzero ⟨haddress, h⟩
    obtain ⟨max', min, -, hstart⟩ := hfound hne
    refine hconvert start s0 hs0 hrests0 hev0 (hstart ▸ coreFindFreePagesI_lt _ _ _ _ _) ?_ (fun _ => rfl) rfl
    unfold Chosen
    rw [if_neg haddress]
    exact ⟨hne, s0, hs0, hfound hne⟩

/-! ## the contract -/

/-- what the caller of a successful allocation gets.  The pages were free, or untested memory that was
promoted during the call; `A..` is counted in the granularity of the type. -/
structure AllocContract (arch : Arch) (allocate : AllocateType) (type numberOfPages memory : Nat)
    (s : PageState) (A : Nat) (s' : PageState) : Prop where
  pages : ∀ a, A ≤ a → a < A + numberOfPages * efiPageSize →
    ∃ attr, (pageAt s a = some (efiConventionalMemory, attr) ∨ pageAt s a = none ∧ Promotable arch s a attr) ∧
      pageAt s' a = some (type, attr)
  aligned : pageAlignment arch type ∣ A
  below : allocate = .maxAddress → A + numberOfPages * efiPageSize - 1 ≤ memory
  exact_ : allocate = .address → A = memory
  others : ∀ a, ¬ (A ≤ a ∧ a < A + roundPages numberOfPages (pageAlignment arch type) * efiPageSize) →
    Background arch s a (pageAt s a) (pageAt s' a)

lemma roundPages_spec {align : Nat} (ha : Granularity align) (h : numberOfPages < 2^52) :
    numberOfPages ≤ roundPages numberOfPages align ∧ roundPages numberOfPages align ≤ 2^52 ∧
      align ∣ roundPages numberOfPages align * efiPageSize := by
  rcases ha with rfl | rfl
  · unfold roundPages
    rw [show efiSizeToPages 0x1000 = 1 from rfl]
    unfold efiPageSize
    omega
  · unfold roundPages
    rw [show efiSizeToPages 0x10000 = 16 from rfl]
    unfold efiPageSize
    omega

section
variable (h : Allocated arch type pages A s s₁ t s' v)
include h

lemma Allocated.pages_lt (hle : pages ≤ 2^52)
    (hA : A < 2^64) : pages < 2^52 := by
  have h1 := h.start_lt
  have h2 := h.converted.pages.hi_lt
  rcases lt_or_eq_of_le hle with hlt | rfl
  · exact hlt
  · unfold requestEnd efiPagesToSize sub64 efiPageSize at *
    omega

lemma Allocated.before (htype : type ≠ efiConventionalMemory)
    {a : Nat} (ha : Within A (requestEnd A pages) a) :
    (pageAt s a = some (efiConventionalMemory, v.2) ∨ pageAt s a = none ∧ Promotable arch s a v.2) ∧
      pageAt s' a = some (type, v.2) := by
  have hconv : v.1 = efiConventionalMemory := (h.converted.allowed.1 htype).2
  have hbefore : pageAt s₁ a = some (efiConventionalMemory, v.2) := by
    rw [h.converted.before a ha, ← hconv]
  have hmid : pageAt t a = some (type, v.2) := by
    rw [h.converted.mid]
    exact paint_inside ha
  refine ⟨?_, ?_⟩
  · have hne : efiBootServicesData ≠ efiConventionalMemory := by decide
    rcases h.evolves.other a id with heq | ⟨attr, -, hdata⟩ | ⟨hnone, attr, hprom, hnew⟩
    · exact .inl (heq ▸ hbefore)
    · rw [hbefore] at hdata
      exact absurd (congrArg Prod.fst (Option.some.inj hdata)).symm hne
    · rw [hbefore] at hnew
      rcases hnew with hnew | hnew
      · cases hnew
        exact .inr ⟨hnone, hprom⟩
      · exact absurd (congrArg Prod.fst (Option.some.inj hnew)).symm hne
  · rw [(h.converted.evolves.other a id).eq hmid htype, hmid]

lemma Allocated.others {a : Nat}
    (ha : ¬ Within A (requestEnd A pages) a) : Background arch s a (pageAt s a) (pageAt s' a) := by
  have hmid : pageAt t a = pageAt s₁ a := by
    rw [h.converted.mid]
    exact paint_outside ha
  have hlast := h.converted.evolves.other a id
  rw [hmid] at hlast
  refine (h.evolves.other a id).trans hlast fun attr hp => h.evolves.promotable ?_
  unfold Promotable at hp ⊢
  rwa [h.converted.gcd] at hp

lemma Allocated.toEvolves :
    Evolves arch (Within A (requestEnd A pages)) s s' :=
  (h.evolves.background _).trans h.converted.toEvolves

end

lemma Valid.lt_of_page (h : Valid arch s) {a : Nat} (ha : pageAt s a ≠ none) : a < 2^64 - 1 := by
  obtain ⟨r, hr, hra⟩ := h.map.spans.complete a ha
  obtain ⟨n, hn, rfl⟩ := mem_map.mp hr
  have h1 : a ≤ n.entry.end_ := hra.2
  have h2 := (h.map.paged n hn).hi_lt
  omega

lemma Chosen.lt (h : Chosen arch allocate type pages memory A) (hmemory : memory < 2^64) : A < 2^64 := by
  unfold Chosen at h
  by_cases haddress : allocate = .address
  · rw [if_pos haddress] at h
    rw [h.1]
    exact hmemory
  · rw [if_neg haddress] at h
    obtain ⟨-, s, -, max', min, -, hA⟩ := h
    exact hA ▸ coreFindFreePagesI_lt _ _ _ _ _

lemma Chosen.found (h : Chosen arch allocate type pages memory A) (haddress : allocate ≠ .address)
    (hpages : pages < 2^52) (hne : pages ≠ 0) (hend : A + pages * efiPageSize < 2^64)
    (hdvd : pageAlignment arch type ∣ pages * efiPageSize) :
    pageAlignment arch type ∣ A ∧ (allocate = .maxAddress → A + pages * efiPageSize - 1 ≤ memory) := by
  unfold Chosen at h
  rw [if_neg haddress] at h
  obtain ⟨hA, s, hs, max', min, hmax, hfound⟩ := h
  have hbytes : efiPagesToSize pages = pages * efiPageSize := by
    refine mod_eq_of_lt ?_
    omega
  have hpos : 0 < pages * efiPageSize := mul_pos (pos_of_ne_zero hne) (by decide)
  obtain ⟨e, he, hed, hemax, -⟩ := coreFindFreePagesI_spec (pageAlignment_granularity arch type) hs.map.paged
    hfound hA (by omega)
  rw [hbytes] at he
  refine ⟨(Nat.dvd_add_left hdvd).mp (he ▸ hed), fun hallocate => ?_⟩
  rw [if_pos hallocate] at hmax
  omega

/-- **a successful call keeps the contract if and only if fewer than `2^52` pages were requested** -/
theorem coreInternalAllocatePages_contract (hs : Valid arch s) (hrests : s.mMapDepth = 0) (hmemory : memory < 2^64)
    (hrun : coreInternalAllocatePages arch allocate type numberOfPages memory s = (.ok (.ok A), s')) :
    AllocContract arch allocate type numberOfPages memory s A s' ↔ numberOfPages < 2^52 := by
  have hwp : wp (coreInternalAllocatePages arch allocate type numberOfPages memory)
      (fun r s' => ∀ A, r = .ok A → type ≠ efiConventionalMemory ∧
        Chosen arch allocate type (roundPages numberOfPages (pageAlignment arch type)) memory A ∧
        ∃ s₁ t v, Allocated arch type (roundPages numberOfPages (pageAlignment arch type)) A s s₁ t s' v)
      onlyAsserts s := wp_coreInternalAllocatePages
    hs (fun _ => hrests) hmemory (fun e s' _ _ _ A hA => by cases hA) (fun start s₁ t s' v htype hc h A hA => by
      cases hA
      exact ⟨htype, hc, s₁, t, v, h⟩)
  obtain ⟨htype, hchosen, s₁, t, v, halloc⟩ := wp_ok hwp hrun A rfl
  have hA := hchosen.lt hmemory
  constructor
  · -- the last address of all would be in one of the pages
    intro hc
    by_contra hbig
    obtain ⟨attr, -, hpage⟩ := hc.pages (2^64 - 1) (by omega) (by unfold efiPageSize; omega)
    refine lt_irrefl (2^64 - 1) (halloc.converted.valid.lt_of_page ?_)
    rw [hpage]
    exact Option.some_ne_none _
  · intro hN
    obtain ⟨hle, hle', hdvd⟩ := roundPages_spec (pageAlignment_granularity arch type) hN
    generalize hp : roundPages numberOfPages (pageAlignment arch type) = pages at *
    have hlt := halloc.pages_lt hle' hA
    have hend := (requestEnd_spec hA halloc.converted.pages.lo_aligned halloc.start_lt halloc.pages_ne).2.2 hlt
    have h64 := halloc.converted.pages.hi_lt
    have hmul : numberOfPages * efiPageSize ≤ pages * efiPageSize := mul_le_mul_right _ hle
    refine ⟨fun a h1 h2 => ⟨v.2, halloc.before htype ⟨h1, by omega⟩⟩, ?_, ?_, ?_, fun a ha => ?_⟩
    · by_cases haddress : allocate = .address
      · unfold Chosen at hchosen
        rw [if_pos haddress] at hchosen
        rw [hchosen.1]
        exact dvd_of_mod_eq_zero hchosen.2
      · exact (hchosen.found haddress hlt halloc.pages_ne (by omega) hdvd).1
    · intro hmax
      have haddress : allocate ≠ .address := by
        rw [hmax]
        decide
      have := (hchosen.found haddress hlt halloc.pages_ne (by omega) hdvd).2 hmax
      omega
    · intro haddress
      unfold Chosen at hchosen
      rw [if_pos haddress] at hchosen
      exact hchosen.1
    · refine halloc.others fun hin => ha ⟨hin.1, ?_⟩
      have := hin.2
      rw [hp]
      omega

end

def twoPages : PageState where
  gMemoryMap := [⟨⟨efiConventionalMemory, 0x1000, 0x2fff, 0, 0xf⟩, .heap⟩]
  mMapDepth := 0
  freeEntries := 8
  mMemoryMapKey := 0
  mGcdMemorySpaceMap := []
  stats := fun _ => ⟨0, 2^64 - 1, 0, 0, efiMaxMemoryType, false, false⟩
  info := fun _ => ⟨efiMaxMemoryType, 0⟩
  mDefaultMaximumAddress := 2^64 - 1
  mDefaultBaseAddress := 2^64 - 1
  mMemoryTypeInformationInitialized := false

lemma twoPages_valid : Valid .x64 twoPages := by
  have hpages : WholePages 0x1000 0x2fff := ⟨by decide, by decide, by decide, by decide⟩
  have hmap : MapOk twoPages.gMemoryMap 0 (paint (fun _ => none) 0x1000 0x2fff (efiConventionalMemory, 0xf)) :=
    { spans := spans_nil.add hpages.nonempty fun _ _ _ => rfl
      paged := by
        intro n hn
        rw [mem_singleton.mp hn]
        exact hpages
      stack :=
        { lt := by
            intro n hn i hi
            rw [mem_singleton.mp hn] at hi
            cases hi
          unique := pairwise_singleton _ _ } }
  refine ⟨?_, by decide, ⟨nofun, List.Pairwise.nil, nofun⟩⟩
  rw [pageAt_of_mapOk hmap rfl]
  exact hmap

/-- a request for `2^52 + 1` pages succeeds, and gets one page -/
theorem hugeRequest_one_page :
    (coreInternalAllocatePages .x64 .anyPages efiBootServicesData (2^52 + 1) 0 twoPages).1 =
      .ok (.ok 0x2000) ∧ ¬ AllocContract .x64 .anyPages efiBootServicesData (2^52 + 1) 0 twoPages 0x2000
      (coreInternalAllocatePages .x64 .anyPages efiBootServicesData (2^52 + 1) 0 twoPages).2 := by
  refine ⟨by decide +kernel, fun hc => ?_⟩
  obtain ⟨attr, -, hpage⟩ := hc.pages 0x3000 (by decide) (by decide)
  have hnone : pageAt
      (coreInternalAllocatePages .x64 .anyPages efiBootServicesData (2^52 + 1) 0 twoPages).2 0x3000 =
      none := by decide +kernel
  rw [hnone] at hpage
  cases hpage

theorem smallRequest_contract : AllocContract .x64 .maxAddress efiBootServicesData 1 0x2fff twoPages 0x2000
    (coreInternalAllocatePages .x64 .maxAddress efiBootServicesData 1 0x2fff twoPages).2 :=
  (coreInternalAllocatePages_contract twoPages_valid rfl (by decide)
    (Prod.ext (by decide +kernel) rfl)).mpr (by decide)

end Audk.Mem
