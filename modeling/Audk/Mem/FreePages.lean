import Audk.Mem.PageHistory

/-!
# `CoreInternalFreePages`: what is freed, and what is left after an error

The range is converted descriptor by descriptor.  Whether the next descriptor may be freed is only seen when the loop
gets there, so the loop frees up to the first page that is not in use.

* `wp_convertFrom_exact`: the loop does that, as long as two descriptors are on the free list;
* `FreeContract`: an error changes nothing, and after a success the pages are free that were in use.
-/

namespace Audk.Mem

open Prog Regions List Option Nat

def InUse (s : PageState) (a : Nat) : Prop := ∃ v, pageAt s a = some v ∧ v.1 ≠ efiConventionalMemory

/-- the pages from `start` up to `mid` were in use and are free now, and no other page changed -/
structure FreedTo (s : PageState) (start mid : Nat) (s' : PageState) : Prop where
  used : ∀ a, start ≤ a → a < mid → InUse s a
  freed : ∀ a v, start ≤ a → a < mid → pageAt s a = some v → pageAt s' a = some (efiConventionalMemory, v.2)
  others : ∀ a, ¬ (start ≤ a ∧ a < mid) → pageAt s' a = pageAt s a

lemma FreedTo.refl (s : PageState) (start : Nat) : FreedTo s start start s where
  used := fun _ h1 h2 => absurd h2 (not_lt.mpr h1)
  freed := fun _ _ h1 h2 => absurd h2 (not_lt.mpr h1)
  others := fun _ _ => rfl

lemma InUse.congr {s s' : PageState} {a : Nat} (h : pageAt s' a = pageAt s a) : InUse s' a ↔ InUse s a := by
  unfold InUse
  rw [h]

lemma FreedTo.trans {s s1 s2 : PageState} {start mid end_ : Nat} (h1 : FreedTo s start mid s1)
    (h2 : FreedTo s1 mid end_ s2) (hle : start ≤ mid) (hle' : mid ≤ end_) : FreedTo s start end_ s2 where
  used := by
    intro a ha hlt
    rcases lt_or_ge a mid with hmid | hmid
    · exact h1.used a ha hmid
    · exact (InUse.congr (h1.others a (by omega))).mp (h2.used a hmid hlt)
  freed := by
    intro a v ha hlt hv
    rcases lt_or_ge a mid with hmid | hmid
    · rw [h2.others a (by omega)]
      exact h1.freed a v ha hmid hv
    · exact h2.freed a v hmid hlt (by rw [h1.others a (by omega), hv])
  others := by
    intro a ha
    rw [h2.others a (by omega), h1.others a (by omega)]

/-! ## the stack, as long as there are descriptors -/

section
variable {arch : Arch} {s t : PageState}

lemma wp_allocateMemoryMapEntry_free {Q : Bool → PageState → Prop} {E : PageFault → PageState → Prop}
    (h : s.freeEntries ≠ 0) (hQ : Q true { s with freeEntries := s.freeEntries - 1 }) :
    wp (allocateMemoryMapEntry arch) Q E s := by
  unfold allocateMemoryMapEntry
  rw [wp_bind, wp_gets, if_neg h, wp_bind, wp_pure, wp_bind, wp_modify]
  exact hQ

lemma wp_freeStackLoop_exact (fuel : Nat) (hs : Valid arch s) (hfree : s.mMapDepth ≤ s.freeEntries)
    (hfuel : s.mMapDepth ≤ fuel) : wp (freeStackLoop arch fuel)
      (fun _ s' => Valid arch s' ∧ s'.mMapDepth = 0 ∧ pageAt s' = pageAt s ∧
        s.freeEntries ≤ s'.freeEntries + s.mMapDepth) onlyAsserts s := by
  induction fuel generalizing s with
  | zero =>
    have hd : s.mMapDepth = 0 := le_zero.mp hfuel
    unfold freeStackLoop
    rw [wp_bind, wp_gets, wp_stopIf]
    exact ⟨fun h => absurd hd h, fun _ => ⟨hs, hd, rfl, le_add_right _ _⟩⟩
  | succ fuel ih =>
    unfold freeStackLoop
    rw [wp_bind, wp_gets]
    split_ifs with hd
    · exact ⟨hs, hd, rfl, le_add_right _ _⟩
    rw [wp_bind]
    refine wp_allocateMemoryMapEntry_free (by omega) ?_
    refine wp_stopIf_bind (fun h => Bool.noConfusion h) fun _ => ?_
    have hs1 : Valid arch { s with freeEntries := s.freeEntries - 1 } := hs.of_eq rfl rfl rfl
    obtain ⟨hs2, -, hdepth, hfree2, hpage⟩ := popEntry_spec hs1
    have hdepth' : (popEntry { s with freeEntries := s.freeEntries - 1 }).mMapDepth = s.mMapDepth - 1 := hdepth
    have hfree' : s.freeEntries - 1 ≤ (popEntry { s with freeEntries := s.freeEntries - 1 }).freeEntries := hfree2
    refine wp_post (ih hs2 (by omega) (by omega)) ?_
    rintro _ s3 ⟨hs3, hd3, hpage3, hfree3⟩
    exact ⟨hs3, hd3, hpage3.trans hpage, by omega⟩

/-! ## the loop -/

def FreeBefore (s : PageState) (start : Nat) : Prop :=
  start ≠ 0 → ∃ attr, pageAt s (start - 1) = some (efiConventionalMemory, attr)

variable {pages start end_ rangeEnd : Nat} {v : Label}

section
variable (h : Midway arch (.type efiConventionalMemory) end_ start rangeEnd s t v)
include h

lemma Midway.freedTo {s' : PageState}
    (hpage : pageAt s' = pageAt t) : FreedTo s start (rangeEnd + 1) s' where
  used := fun a h1 h2 => ⟨v, h.before a ⟨h1, by omega⟩, h.allowed.2 rfl⟩
  freed := by
    intro a w h1 h2 hw
    have hv := h.before a ⟨h1, by omega⟩
    rw [hw] at hv
    rw [hpage, h.mid, paint_inside ⟨h1, by omega⟩]
    cases hv
    rfl
  others := by
    intro a ha
    rw [hpage, h.mid, paint_outside]
    omega

/-- what the turn needs is on the free list, and what the next one needs is left -/
lemma Midway.room (hdepth : s.mMapDepth = 0)
    (hroom : 2 ≤ s.freeEntries ∨ 1 ≤ s.freeEntries ∧ FreeBefore s start) :
    t.mMapDepth ≤ t.freeEntries ∧ (rangeEnd < end_ → t.mMapDepth + 1 ≤ t.freeEntries) := by
  have hfree := h.free
  have hused : v.1 ≠ efiConventionalMemory := h.allowed.2 rfl
  -- a descriptor that starts before the range is not free, so the page in front of the range is not
  have hfront : start ≠ 0 ∧ pageAt s (start - 1) = some v → 2 ≤ s.freeEntries := by
    rintro ⟨hne, hv⟩
    rcases hroom with htwo | ⟨-, hbefore⟩
    · exact htwo
    · obtain ⟨attr, hattr⟩ := hbefore hne
      rw [hv] at hattr
      cases hattr
      exact absurd rfl hused
  constructor
  · rcases h.depth with hd | ⟨hd, -, hpage⟩
    · omega
    · have := hfront hpage
      omega
  · intro hcut
    rcases h.depth with hd | ⟨-, hwhole, -⟩
    · rcases h.refund hcut hdepth with hrefund | hpage
      · omega
      · have := hfront hpage
        omega
    · omega

end

/-- **the loop frees up to the first page that is not in use** -/
theorem wp_convertFrom_exact (pages : Nat) (hs : Valid arch s) (hdepth : s.mMapDepth = 0) (fuel : Nat)
    (hstart : efiPageSize ∣ start) (hend : efiPageSize ∣ end_ + 1) (hle : start ≤ end_ + 1)
    (hfuel : end_ + 1 ≤ start + fuel * efiPageSize)
    (hroom : 2 ≤ s.freeEntries ∨ 1 ≤ s.freeEntries ∧ FreeBefore s start) :
    wp (convertFrom (coreFreeMemoryMapStack arch) pages (.type efiConventionalMemory) end_ fuel start)
      (fun r s' => ∃ mid, start ≤ mid ∧ FreedTo s start mid s' ∧ (r = none → mid = end_ + 1) ∧
        (r ≠ none → mid ≤ end_ ∧ ¬ InUse s mid)) onlyAsserts s := by
  refine wp_convertFrom_rule (fun next s' => start ≤ next ∧ next ≤ end_ + 1 ∧ Valid arch s' ∧ s'.mMapDepth = 0 ∧
    FreedTo s start next s' ∧ (next ≤ end_ → 2 ≤ s'.freeEntries ∨ 1 ≤ s'.freeEntries ∧ FreeBefore s' next)) ?_ ?_
    fuel hfuel hstart ⟨le_rfl, hle, hs, hdepth, FreedTo.refl s start, fun _ => hroom⟩
  · intro s1 start1 ⟨hle1, _, hs1, hdepth1, hfreed1, hroom1⟩ hstart1 hlt
    refine wp_convertTurn_midway (.inl fun _ => rfl) hs1 hstart1 hend hlt ?_ fun rangeEnd t v hmid => ?_
    · intro hfail
      refine ⟨fun e _ => ⟨start1, hle1, hfreed1, nofun, fun _ => ⟨hlt.le, fun huse => ?_⟩⟩, nofun⟩
      exact hs1.not_refused hstart1 ((InUse.congr (hfreed1.others start1 (by omega))).mpr huse) hfail
    · obtain ⟨hnow, hnext⟩ := hmid.room hdepth1 (hroom1 hlt.le)
      have hlt6 := hmid.valid.depth
      have hge : start1 ≤ rangeEnd := hmid.pages.nonempty
      have hrangeEnd := hmid.le
      refine wp_post (wp_freeStackLoop_exact _ hmid.valid hnow (by unfold maxMapDepth at *; omega)) ?_
      intro _ s2 ⟨hs2, hdepth2, hpage2, hfree2⟩
      have hfreed2 := hmid.freedTo hpage2
      refine ⟨nofun, fun next heq => ?_⟩
      cases heq
      refine ⟨⟨by omega, by omega, hs2, hdepth2, hfreed1.trans hfreed2 hle1 (by omega), fun hcut =>
        .inr ⟨?_, fun _ => ⟨v.2, ?_⟩⟩⟩, hmid.pages.hi_aligned, by omega⟩
      · have := hnext hcut
        omega
      · rw [Nat.add_sub_cancel]
        exact hfreed2.freed rangeEnd v hge (lt_succ_self _) (hmid.before rangeEnd ⟨hge, le_rfl⟩)
  · intro s1 start1 ⟨hle1, hend1, _, _, hfreed1, _⟩ hstart1 hge
    refine ⟨start1, hle1, hfreed1, fun _ => ?_, fun hne => absurd rfl hne⟩
    unfold efiPageSize at hstart1 hend
    omega

/-! ## the contract -/

def freedPages (arch : Arch) (s : PageState) (memory numberOfPages : Nat) : Nat :=
  roundPages numberOfPages (pageAlignment arch ((pageAt s memory).elim 0 Prod.fst))

/-- an error changes no type, and after a success the pages of the range are free that were in use -/
structure FreeContract (s : PageState) (memory pages : Nat) (r : Option Status) (s' : PageState) : Prop where
  failed : r ≠ none → ∀ a, (pageAt s' a).map Prod.fst = (pageAt s a).map Prod.fst
  freed : r = none → ∀ a, InPages memory pages a → InUse s a ∧ (pageAt s' a).map Prod.fst = some efiConventionalMemory

structure Begins (arch : Arch) (s : PageState) (memory numberOfPages : Nat) : Prop where
  used : InUse s memory
  aligned : memory % pageAlignment arch ((pageAt s memory).elim 0 Prod.fst) = 0
  nonempty : freedPages arch s memory numberOfPages ≠ 0
  lt : memory < requestEnd memory (freedPages arch s memory numberOfPages)

variable {s' : PageState} {memory numberOfPages : Nat} {r : Option Status}

lemma eq_of_wp {α : Type} {x : PageProg α} {a : α} {t : PageState}
    (h : wp x (fun b t' => b = a ∧ t' = t) (fun _ _ => False) s) : x s = (.ok a, t) := by
  obtain ⟨b, t', hx, rfl, rfl⟩ := wp_returns h
  exact hx

lemma convertFrom_refused {freeStack : PageProg Unit} {pages start end_ fuel : Nat} (hs : Valid arch s)
    (hlt : start < end_) (hfree : ¬ InUse s start) :
    convertFrom freeStack pages (.type efiConventionalMemory) end_ (fuel + 1) start s = (.ok (some .notFound), s) := by
  refine eq_of_wp ?_
  unfold convertFrom convertTurn
  rw [if_pos hlt, wp_bind, wp_bind, wp_gets]
  cases hfind : findEntry start s.gMemoryMap with
  | none => exact ⟨rfl, rfl⟩
  | some x =>
    obtain ⟨pre, n, post⟩ := x
    obtain ⟨hmap, hlo, hhi⟩ := findEntry_some hfind
    have hok := hs.map
    rw [hmap] at hok
    have hlabel : pageAt s start = some (n.entry.type, n.entry.attr) := hok.label ⟨hlo, hhi.le⟩
    have htype : n.entry.type = efiConventionalMemory := by
      by_contra hne
      exact hfree ⟨_, hlabel, hne⟩
    have hrefused : Change.Refused (.type efiConventionalMemory) n end_ := .inr ⟨fun _ => htype, fun _ => rfl⟩
    dsimp only
    rw [if_pos hrefused]
    exact ⟨rfl, rfl⟩

lemma coreInternalFreePages_cases (hs : Valid arch s) (memory numberOfPages : Nat) :
    ((∃ e, coreInternalFreePages arch memory numberOfPages s = (.ok (some e), s)) ∧
        ¬ Begins arch s memory numberOfPages) ∨
      (Begins arch s memory numberOfPages ∧ efiPageSize ∣ memory ∧ coreInternalFreePages arch memory numberOfPages s =
          convertFrom (coreFreeMemoryMapStack arch) (freedPages arch s memory numberOfPages)
            (.type efiConventionalMemory) (requestEnd memory (freedPages arch s memory numberOfPages))
            (freedPages arch s memory numberOfPages + 1) memory s) := by
  have hdvd : ∀ type, memory % pageAlignment arch type = 0 → efiPageSize ∣ memory := fun type h =>
    granularity_dvd (pageAlignment_granularity arch type) (dvd_of_mod_eq_zero h)
  cases hfind : findEntry memory s.gMemoryMap with
  | none =>
    refine .inl ⟨⟨.notFound, ?_⟩, fun h => ?_⟩
    · refine eq_of_wp ?_
      unfold coreInternalFreePages
      rw [wp_bind, wp_gets, hfind]
      exact ⟨rfl, rfl⟩
    · obtain ⟨v, hv, -⟩ := h.used
      obtain ⟨pre, n, post, hsome, -⟩ := hs.findEntry (hdvd _ h.aligned) hv
      rw [hfind] at hsome
      cases hsome
  | some x =>
    obtain ⟨pre, n, post⟩ := x
    obtain ⟨hmap, hlo, hhi⟩ := findEntry_some hfind
    have hok := hs.map
    rw [hmap] at hok
    have hlabel : pageAt s memory = some (n.entry.type, n.entry.attr) := hok.label ⟨hlo, hhi.le⟩
    have htype : (pageAt s memory).elim 0 Prod.fst = n.entry.type := by
      rw [hlabel]
      rfl
    have hpages : freedPages arch s memory numberOfPages = roundPages numberOfPages (pageAlignment arch n.entry.type) := by
      unfold freedPages
      rw [htype]
    have hrun : coreInternalFreePages arch memory numberOfPages s =
        (if memory % pageAlignment arch n.entry.type ≠ 0 then (pure (some .invalidParameter) : PageProg (Option Status))
        else coreConvertPages (coreFreeMemoryMapStack arch) memory
          (roundPages numberOfPages (pageAlignment arch n.entry.type)) efiConventionalMemory) s := by
      unfold coreInternalFreePages
      simp only [Bind.bind, gets, hfind]
    by_cases haligned : memory % pageAlignment arch n.entry.type = 0
    · rw [if_neg (not_not_intro haligned), ← hpages] at hrun
      unfold coreConvertPages coreConvertPagesEx at hrun
      by_cases hbad : freedPages arch s memory numberOfPages = 0 ∨ memory % efiPageSize ≠ 0 ∨
          requestEnd memory (freedPages arch s memory numberOfPages) ≤ memory
      · rw [← requestEnd, if_pos hbad] at hrun
        refine .inl ⟨⟨_, hrun⟩, fun h => ?_⟩
        have hmod := mod_eq_zero_of_dvd (hdvd _ haligned)
        have hlt := h.lt
        rcases hbad with hzero | hpage | hle
        · exact h.nonempty hzero
        · exact hpage hmod
        · omega
      · rw [← requestEnd, if_neg hbad] at hrun
        rw [not_or, not_or, not_le] at hbad
        by_cases huse : InUse s memory
        · exact .inr ⟨⟨huse, htype ▸ haligned, hbad.1, hbad.2.2⟩, hdvd _ haligned, hrun⟩
        · refine .inl ⟨⟨.notFound, hrun.trans (convertFrom_refused hs hbad.2.2 huse)⟩, fun h => huse h.used⟩
    · rw [if_pos haligned] at hrun
      exact .inl ⟨⟨_, hrun⟩, fun h => haligned (htype ▸ h.aligned)⟩

lemma Valid.pages_lt (hs : Valid arch s) (hmemory : memory < 2^64) {pages : Nat}
    (hused : ∀ a, InPages memory pages a → InUse s a) : pages < 2^52 := by
  by_contra hge
  have hin : InPages memory pages (2^64 - 1) := by
    unfold InPages efiPageSize
    omega
  obtain ⟨v, hv, -⟩ := hused _ hin
  have := hs.lt_of_page (hv ▸ some_ne_none v)
  omega

end

/-- a page of boot services data, a hole of a page, and a free page -/
def pageAndHole (freeEntries : Nat) : PageState :=
  { twoPages with
    gMemoryMap :=
      [⟨⟨efiBootServicesData, 0x1000, 0x1fff, 0, 0xf⟩, .heap⟩, ⟨⟨efiConventionalMemory, 0x3000, 0x3fff, 0, 0xf⟩, .heap⟩]
    freeEntries := freeEntries }

lemma pageAndHole_valid (freeEntries : Nat) : Valid .x64 (pageAndHole freeEntries) := by
  have hlow : WholePages 0x1000 0x1fff := ⟨by decide, by decide, by decide, by decide⟩
  have hhigh : WholePages 0x3000 0x3fff := ⟨by decide, by decide, by decide, by decide⟩
  have hmap : MapOk (pageAndHole freeEntries).gMemoryMap 0
      (paint (paint (fun _ => none) 0x3000 0x3fff (efiConventionalMemory, 0xf)) 0x1000 0x1fff
        (efiBootServicesData, 0xf)) :=
    { spans := by
        refine (spans_nil.add hhigh.nonempty fun _ _ _ => rfl).add hlow.nonempty fun a h1 h2 => ?_
        have h2' : a ≤ 0x1fff := h2
        exact paint_outside (by omega)
      paged := by
        intro n hn
        rcases mem_pair.mp hn with rfl | rfl
        · exact hlow
        · exact hhigh
      stack :=
        { lt := by
            intro n hn i hi
            rcases mem_pair.mp hn with rfl | rfl <;> cases hi
          unique := pairwise_pair.mpr nofun } }
  refine ⟨?_, show 0 < maxMapDepth by decide, ⟨nofun, List.Pairwise.nil, nofun⟩⟩
  rw [pageAt_of_mapOk hmap rfl]
  exact hmap

/-- two pages of boot services data, and no descriptor on the free list -/
def noDescriptors : PageState :=
  { twoPages with
    gMemoryMap := [⟨⟨efiBootServicesData, 0x1000, 0x2fff, 0, 0xf⟩, .heap⟩]
    freeEntries := 0 }

end Audk.Mem
