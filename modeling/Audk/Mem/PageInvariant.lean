import Audk.Mem.PageMap

/-!
# What the functions of the page allocator keep

`Valid arch s` is the invariant of the globals.  `Evolves arch R s s'` says how the map may have changed
between two states: outside of the addresses `R` that were asked for, only free pages were taken for
descriptors and untested memory was promoted; no page was lost; the key changed if the map did.

Every function gets one `wp` rule.  A run stops only with an `assertion`, never `stuck`.

* `wp_promoteMemoryResource`, `wp_findFreePages`, `wp_allocatePages`: the search;
* `wp_coreFreeMemoryMapStack`: afterwards the stack is empty.
-/

namespace Audk.Mem

open Prog Regions List Function Option Nat

/-! ## the invariant -/

def pageAt (s : PageState) : Nat → Option Label := labelAt (s.gMemoryMap.map MapNode.region)

/-- untested memory that can be promoted, with the attributes it would get -/
def Promotable (arch : Arch) (s : PageState) (a attr : Nat) : Prop :=
  ∃ g ∈ s.mGcdMemorySpaceMap, g.IsPromotable arch ∧ g.Covers a ∧ attr = g.mapAttributes

/-- untested memory consists of whole pages that are not in the map yet -/
structure GcdOk (arch : Arch) (gcd : List GcdMapEntry) (M : Nat → Option Label) : Prop where
  paged : ∀ g ∈ gcd, g.IsPromotable arch → WholePages g.baseAddress g.endAddress
  apart : gcd.Pairwise fun g h => g.IsPromotable arch → h.IsPromotable arch →
    g.endAddress < h.baseAddress ∨ h.endAddress < g.baseAddress
  fresh : ∀ g ∈ gcd, g.IsPromotable arch → ∀ a, g.Covers a → M a = none

structure Valid (arch : Arch) (s : PageState) : Prop where
  map : MapOk s.gMemoryMap s.mMapDepth (pageAt s)
  depth : s.mMapDepth < maxMapDepth
  gcd : GcdOk arch s.mGcdMemorySpaceMap (pageAt s)

/-- what can happen to a page that nobody asked for -/
def Background (arch : Arch) (s : PageState) (a : Nat) (v v' : Option Label) : Prop :=
  v' = v ∨
    (∃ attr, v = some (efiConventionalMemory, attr) ∧ v' = some (efiBootServicesData, attr)) ∨
    (v = none ∧ ∃ attr, Promotable arch s a attr ∧
      (v' = some (efiConventionalMemory, attr) ∨ v' = some (efiBootServicesData, attr)))

/-- every GCD entry is unchanged or was promoted -/
def GcdEvolves (arch : Arch) (gcd gcd' : List GcdMapEntry) : Prop :=
  ∀ i : Nat, gcd'[i]? = gcd[i]? ∨
    ∃ g : GcdMapEntry, gcd[i]? = some g ∧ g.IsPromotable arch ∧ gcd'[i]? = some g.promoted

/-- the bins of the types are where they were; only counters changed -/
structure SameBins (s s' : PageState) : Prop where
  index : ∀ t, (s'.stats t).informationIndex = (s.stats t).informationIndex
  base : ∀ t, (s'.stats t).baseAddress = (s.stats t).baseAddress
  info : ∀ i, (∀ t, (s.stats t).informationIndex ≠ i) → s'.info i = s.info i
  type : ∀ i, (s'.info i).type = (s.info i).type
  small : (∀ i, (s.info i).numberOfPages < 2^32) → ∀ i, (s'.info i).numberOfPages < 2^32
  initialized : s'.mMemoryTypeInformationInitialized = s.mMemoryTypeInformationInitialized

/-- how the map changed; the addresses `R` were asked for -/
structure MapEvolves (arch : Arch) (R : Nat → Prop) (s s' : PageState) : Prop where
  other : ∀ a, ¬ R a → Background arch s a (pageAt s a) (pageAt s' a)
  kept : ∀ a, R a → pageAt s a ≠ none → pageAt s' a ≠ none
  fresh : ∀ a, R a → pageAt s a = none → pageAt s' a ≠ none → ∃ attr, Promotable arch s a attr
  gcd : GcdEvolves arch s.mGcdMemorySpaceMap s'.mGcdMemorySpaceMap
  key_le : s.mMemoryMapKey ≤ s'.mMemoryMapKey
  key : pageAt s' ≠ pageAt s → s.mMemoryMapKey < s'.mMemoryMapKey
  promoted : ∀ a attr, Promotable arch s a attr → Promotable arch s' a attr ∨ pageAt s' a ≠ none

/-- the map changed, the bins did not -/
structure Evolves (arch : Arch) (R : Nat → Prop) (s s' : PageState) : Prop extends
    MapEvolves arch R s s' where
  bins : SameBins s s'

abbrev Nobody : Nat → Prop := fun _ => False

def Within (start end_ : Nat) : Nat → Prop := fun a => start ≤ a ∧ a ≤ end_

def onlyAsserts : PageFault → PageState → Prop := fun e _ => e = .assertion

section
variable {arch : Arch} {R R' : Nat → Prop} {s s' s'' t : PageState} {a attr : Nat}

lemma not_promotable_promoted (g : GcdMapEntry) : ¬ g.promoted.IsPromotable arch := by
  intro h
  have htype : g.promoted.gcdMemoryType = .reserved := h.1
  unfold GcdMapEntry.promoted at htype
  split_ifs at htype

lemma GcdEvolves.refl (gcd : List GcdMapEntry) : GcdEvolves arch gcd gcd := fun _ => .inl rfl

lemma GcdEvolves.trans {gcd gcd' gcd'' : List GcdMapEntry} (h : GcdEvolves arch gcd gcd')
    (h' : GcdEvolves arch gcd' gcd'') : GcdEvolves arch gcd gcd'' := by
  intro i
  rcases h' i with h2 | ⟨g, hg, hprom, h2⟩
  · rw [h2]
    exact h i
  · rcases h i with h1 | ⟨g0, hg0, -, h1⟩
    · exact .inr ⟨g, h1 ▸ hg, hprom, h2⟩
    · rw [h1] at hg
      cases hg
      exact absurd hprom (not_promotable_promoted g0)

lemma GcdEvolves.promotable {gcd gcd' : List GcdMapEntry} (h : GcdEvolves arch gcd gcd') {g : GcdMapEntry}
    (hg : g ∈ gcd') (hprom : g.IsPromotable arch) : g ∈ gcd := by
  obtain ⟨i, hi⟩ := mem_iff_getElem?.mp hg
  rcases h i with h1 | ⟨g0, -, -, h1⟩
  · exact mem_iff_getElem?.mpr ⟨i, h1 ▸ hi⟩
  · rw [h1] at hi
    cases hi
    exact absurd hprom (not_promotable_promoted g0)

lemma MapEvolves.promotable (h : MapEvolves arch R s s') (hp : Promotable arch s' a attr) :
    Promotable arch s a attr := by
  obtain ⟨g, hg, hprom, hrest⟩ := hp
  exact ⟨g, h.gcd.promotable hg hprom, hprom, hrest⟩

lemma Background.kept {v v' : Option Label} (h : Background arch s a v v') (hv : v ≠ none) : v' ≠ none := by
  rcases h with rfl | ⟨_, -, rfl⟩ | ⟨hnone, -⟩
  · exact hv
  · exact some_ne_none _
  · exact absurd hnone hv

lemma Background.fresh {v v' : Option Label} (h : Background arch s a v v') (hv : v = none)
    (hv' : v' ≠ none) : ∃ attr, Promotable arch s a attr := by
  rcases h with rfl | ⟨_, hsome, -⟩ | ⟨-, attr, hp, -⟩
  · exact absurd hv hv'
  · rw [hv] at hsome
    cases hsome
  · exact ⟨attr, hp⟩

lemma Background.trans {v v' v'' : Option Label} (h : Background arch s a v v') (h' : Background arch s' a v' v'')
    (hp : ∀ attr, Promotable arch s' a attr → Promotable arch s a attr) : Background arch s a v v'' := by
  have hne : efiBootServicesData ≠ efiConventionalMemory := by decide
  rcases h with rfl | ⟨attr, hv, rfl⟩ | ⟨hv, attr, hprom, hv'⟩
  · rcases h' with rfl | hdesc | ⟨hnone, attr, hprom, hv''⟩
    · exact .inl rfl
    · exact .inr (.inl hdesc)
    · exact .inr (.inr ⟨hnone, attr, hp attr hprom, hv''⟩)
  · rcases h' with rfl | ⟨_, hconv, -⟩ | ⟨hnone, -⟩
    · exact .inr (.inl ⟨attr, hv, rfl⟩)
    · exact absurd (congrArg Prod.fst (Option.some.inj hconv)) hne
    · cases hnone
  · refine .inr (.inr ⟨hv, attr, hprom, ?_⟩)
    rcases h' with rfl | ⟨attr', hconv, rfl⟩ | ⟨hnone, -⟩
    · exact hv'
    · rcases hv' with rfl | rfl
      · cases hconv
        exact .inr rfl
      · exact absurd (congrArg Prod.fst (Option.some.inj hconv)) hne
    · rcases hv' with rfl | rfl <;> cases hnone

lemma Background.eq {v v' : Option Label} (h : Background arch s a v v') {type : Nat}
    (hv : v = some (type, attr)) (hne : type ≠ efiConventionalMemory) : v' = v := by
  rcases h with rfl | ⟨_, hconv, -⟩ | ⟨hnone, -⟩
  · rfl
  · rw [hv] at hconv
    exact absurd (congrArg Prod.fst (Option.some.inj hconv)) hne
  · rw [hv] at hnone
    cases hnone

lemma SameBins.of_eq (hstats : s'.stats = s.stats) (hinfo : s'.info = s.info)
    (hinit : s'.mMemoryTypeInformationInitialized = s.mMemoryTypeInformationInitialized) : SameBins s s' where
  index := fun t => by rw [hstats]
  base := fun t => by rw [hstats]
  info := fun i _ => by rw [hinfo]
  type := fun i => by rw [hinfo]
  small := fun h => by rw [hinfo]; exact h
  initialized := hinit

lemma SameBins.trans (h : SameBins s s') (h' : SameBins s' s'') : SameBins s s'' where
  index := fun t => (h'.index t).trans (h.index t)
  base := fun t => (h'.base t).trans (h.base t)
  info := fun i hi => (h'.info i fun t => by rw [h.index t]; exact hi t).trans (h.info i hi)
  type := fun i => (h'.type i).trans (h.type i)
  small := fun hs => h'.small (h.small hs)
  initialized := h'.initialized.trans h.initialized

lemma Evolves.refl (s : PageState) : Evolves arch R s s where
  other := fun _ _ => .inl rfl
  kept := fun _ _ h => h
  fresh := fun _ _ h h' => absurd h h'
  gcd := GcdEvolves.refl _
  key_le := le_rfl
  key := fun h => absurd rfl h
  promoted := fun _ _ h => .inl h
  bins := SameBins.of_eq rfl rfl rfl

lemma MapEvolves.of_eq (hmap : s'.gMemoryMap = s.gMemoryMap) (hgcd : s'.mGcdMemorySpaceMap = s.mGcdMemorySpaceMap)
    (hkey : s'.mMemoryMapKey = s.mMemoryMapKey) : MapEvolves arch R s s' := by
  have hpage : pageAt s' = pageAt s := by
    unfold pageAt
    rw [hmap]
  exact
    { other := fun a _ => .inl (by rw [hpage])
      kept := fun a _ h => by rwa [hpage]
      fresh := fun a _ h h' => absurd h (hpage ▸ h')
      gcd := hgcd ▸ GcdEvolves.refl _
      key_le := hkey.ge
      key := fun h => absurd hpage h
      promoted := by
        intro a attr hp
        unfold Promotable at hp ⊢
        rw [hgcd]
        exact .inl hp }

lemma Evolves.of_eq (hmap : s'.gMemoryMap = s.gMemoryMap) (hgcd : s'.mGcdMemorySpaceMap = s.mGcdMemorySpaceMap)
    (hkey : s'.mMemoryMapKey = s.mMemoryMapKey) (hbins : SameBins s s') : Evolves arch R s s' :=
  ⟨MapEvolves.of_eq hmap hgcd hkey, hbins⟩

lemma MapEvolves.mono (h : MapEvolves arch R s s') (hR : ∀ a, R a → R' a) : MapEvolves arch R' s s' where
  other := fun a ha => h.other a fun hRa => ha (hR a hRa)
  kept := by
    intro a _ hne
    by_cases hRa : R a
    · exact h.kept a hRa hne
    · exact (h.other a hRa).kept hne
  fresh := by
    intro a _ hnone hne
    by_cases hRa : R a
    · exact h.fresh a hRa hnone hne
    · exact (h.other a hRa).fresh hnone hne
  gcd := h.gcd
  key_le := h.key_le
  key := h.key
  promoted := h.promoted

lemma MapEvolves.trans (h : MapEvolves arch R s s') (h' : MapEvolves arch R s' s'') : MapEvolves arch R s s'' where
  other := fun a ha => (h.other a ha).trans (h'.other a ha) fun attr => h.promotable
  kept := fun a ha hne => h'.kept a ha (h.kept a ha hne)
  fresh := by
    intro a ha hnone hne
    by_cases hmid : pageAt s' a = none
    · obtain ⟨attr, hp⟩ := h'.fresh a ha hmid hne
      exact ⟨attr, h.promotable hp⟩
    · exact h.fresh a ha hnone hmid
  gcd := h.gcd.trans h'.gcd
  key_le := h.key_le.trans h'.key_le
  key := by
    intro hne
    by_cases hmid : pageAt s' = pageAt s
    · exact h.key_le.trans_lt (h'.key (hmid ▸ hne))
    · exact (h.key hmid).trans_le h'.key_le
  promoted := by
    intro a attr hp
    rcases h.promoted a attr hp with hp' | hmid
    · exact h'.promoted a attr hp'
    · refine .inr ?_
      by_cases hRa : R a
      · exact h'.kept a hRa hmid
      · exact (h'.other a hRa).kept hmid

lemma Evolves.mono (h : Evolves arch R s s') (hR : ∀ a, R a → R' a) : Evolves arch R' s s' :=
  ⟨h.toMapEvolves.mono hR, h.bins⟩

lemma Evolves.trans (h : Evolves arch R s s') (h' : Evolves arch R s' s'') : Evolves arch R s s'' :=
  ⟨h.toMapEvolves.trans h'.toMapEvolves, h.bins.trans h'.bins⟩

lemma Evolves.background (h : Evolves arch Nobody s s') (R : Nat → Prop) : Evolves arch R s s' :=
  h.mono fun _ ha => False.elim ha

lemma Valid.of_eq (h : Valid arch s) (hmap : s'.gMemoryMap = s.gMemoryMap)
    (hdepth : s'.mMapDepth = s.mMapDepth) (hgcd : s'.mGcdMemorySpaceMap = s.mGcdMemorySpaceMap) :
    Valid arch s' := by
  have hpage : pageAt s' = pageAt s := by
    unfold pageAt
    rw [hmap]
  refine ⟨?_, by rw [hdepth]; exact h.depth, ?_⟩
  · rw [hmap, hdepth, hpage]
    exact h.map
  · rw [hgcd, hpage]
    exact h.gcd

/-! ## changes to the map -/

def PageState.withMap (s : PageState) (l : List MapNode) (d f : Nat) : PageState :=
  { s with gMemoryMap := l, mMapDepth := d, freeEntries := f }

def PageState.newMap (s : PageState) (l : List MapNode) (d f : Nat) : PageState :=
  { s with gMemoryMap := l, mMapDepth := d, freeEntries := f, mMemoryMapKey := s.mMemoryMapKey + 1 }

lemma pageAt_of_mapOk {s : PageState} {l : List MapNode} {d : Nat} {M : Nat → Option Label}
    (h : MapOk l d M) (hmap : s.gMemoryMap = l) : pageAt s = M := by
  unfold pageAt
  rw [hmap]
  exact h.spans.labelAt

variable {l pre post : List MapNode} {n : MapNode} {M : Nat → Option Label} {type start end_ rangeEnd : Nat}
  {Q : Unit → PageState → Prop} {E : PageFault → PageState → Prop}

lemma wp_pushEntry (e : MemoryMapEntry) (hE : (∀ s', E .assertion s') ∨ s.mMapDepth + 1 < maxMapDepth)
    (h : s.mMapDepth + 1 < maxMapDepth →
      Q () (s.withMap (s.gMemoryMap ++ [⟨e, .stack s.mMapDepth⟩]) (s.mMapDepth + 1) s.freeEntries)) :
    wp (pushEntry e) Q E s := by
  unfold pushEntry
  rw [wp_bind, wp_modify, wp_bind, wp_gets, wp_stopIf]
  exact ⟨fun hd => hE.elim (fun hE => hE _) fun hlt => absurd hlt hd, fun hd => h (not_not.mp hd)⟩

/-- **a range is added** -/
theorem wp_coreAddRange (hs : MapOk s.gMemoryMap s.mMapDepth M) (hp : WholePages start end_)
    (hM : ∀ a, start ≤ a → a ≤ end_ → M a = none) (hE : (∀ s', E .assertion s') ∨ s.mMapDepth + 1 < maxMapDepth)
    (h : ∀ l f, MapOk l (s.mMapDepth + 1) (paint M start end_ (type, attr)) →
      s.mMapDepth + 1 < maxMapDepth → s.freeEntries ≤ f → Q () (s.newMap l (s.mMapDepth + 1) f)) :
    wp (coreAddRange type start end_ attr) Q E s := by
  have h1 := hp.lo_aligned
  have h2 := hp.hi_aligned
  have h3 := hp.nonempty
  refine wp_stopIf_bind (fun hbad => ?_) fun _ => ?_
  · exfalso
    unfold efiPageSize at *
    omega
  refine wp_pushEntry _ hE fun hd => ?_
  exact h _ _ (hs.absorb hp hM rfl) hd (le_add_right _ _)

/-- what it costs to pull a range out of a descriptor: nothing if it is at an end of the descriptor, which is even
given back if nothing is left of it, and a new descriptor if it is in the middle -/
structure PullCost (s : PageState) (n : MapNode) (start rangeEnd d f : Nat) : Prop where
  free : s.freeEntries ≤ f
  depth : d = s.mMapDepth ∨ d = s.mMapDepth + 1 ∧ n.entry.start ≠ start ∧ n.entry.end_ ≠ rangeEnd
  refund : n.entry.start = start → n.entry.end_ = rangeEnd → n.place = .heap → s.freeEntries + 1 ≤ f

/-- **a range is pulled out of its descriptor** -/
theorem wp_pullRange (hs : MapOk (pre ++ n :: post) s.mMapDepth M) (hd : s.mMapDepth < maxMapDepth)
    (hp : WholePages start rangeEnd) (h1 : n.entry.start ≤ start) (h2 : rangeEnd ≤ n.entry.end_)
    (hE : (∀ s', E .assertion s') ∨ s.mMapDepth + 1 < maxMapDepth)
    (h : ∀ l d f, MapOk l d (wipe M start rangeEnd) → d < maxMapDepth → PullCost s n start rangeEnd d f →
      Q () (s.withMap l d f)) :
    wp (pullRange pre n post start rangeEnd) Q E s := by
  have hn : WholePages n.entry.start n.entry.end_ := hs.paged n (mem_append_right _ mem_cons_self)
  have hfront : MapOk (n :: (pre ++ post)) s.mMapDepth M := hs.perm perm_middle
  have hlabel : ∀ a, n.entry.start ≤ a ∧ a ≤ n.entry.end_ → M a = some (n.entry.type, n.entry.attr) :=
    fun a ha => hs.label ha
  have hne := hp.nonempty
  have hmod : (rangeEnd + 1) % 2^64 = rangeEnd + 1 := mod_eq_of_lt hp.hi_lt
  have hclipEnd (hlt : n.entry.start < start) :
      MapOk ({ n with entry := { n.entry with end_ := start - 1 } } :: (pre ++ post)) s.mMapDepth
        (wipe M start n.entry.end_) := by
    have hleft : WholePages n.entry.start (start - 1) :=
      ⟨hn.lo_aligned, by rw [Nat.sub_add_cancel (by omega)]; exact hp.lo_aligned, by omega, by
        omega⟩
    rw [← paint_rest_left start hlabel (by omega) (by omega)]
    exact hfront.replace rfl hleft ⟨le_rfl, by show start - 1 ≤ n.entry.end_; omega⟩
  unfold pullRange
  split_ifs with hstart hend
  · -- clip the start
    rw [wp_modify]
    unfold putBack
    rw [hmod, mod_eq_of_lt hn.hi_lt]
    by_cases hempty : rangeEnd + 1 = n.entry.end_ + 1
    · rw [if_pos hempty]
      have hwhole : wipe M n.entry.start n.entry.end_ = wipe M start rangeEnd := by
        rw [hstart, succ_injective hempty]
      refine h (pre ++ post) s.mMapDepth _ (hwhole ▸ hfront.remove) hd
        ⟨le_add_right _ _, .inl rfl, fun _ _ hheap => ?_⟩
      rw [if_pos hheap]
    · rw [if_neg hempty]
      have hright : WholePages (rangeEnd + 1) n.entry.end_ := ⟨hp.hi_aligned, hn.hi_aligned, by omega, hn.hi_lt⟩
      have hclip := hfront.replace
        (m := { n with entry := { n.entry with start := rangeEnd + 1 } }) rfl hright
        ⟨by show n.entry.start ≤ rangeEnd + 1; omega, le_rfl⟩
      have hrest := paint_rest_right rangeEnd hlabel (by omega) (by omega)
      rw [hstart] at hrest
      exact h _ s.mMapDepth s.freeEntries ((hrest ▸ hstart ▸ hclip).perm perm_middle.symm) hd
        ⟨le_rfl, .inl rfl, fun _ hend _ => absurd (congrArg Nat.succ hend.symm) hempty⟩
  · -- clip the end
    rw [wp_modify]
    unfold putBack
    rw [if_neg (by
      rw [Nat.sub_add_cancel (by omega), Nat.mod_eq_of_lt (by have := hp.hi_lt; omega)]
      exact hstart)]
    have hclip := hclipEnd (by omega)
    exact h _ s.mMapDepth s.freeEntries ((hend ▸ hclip).perm perm_middle.symm) hd
      ⟨le_rfl, .inl rfl, fun heq => absurd heq hstart⟩
  · -- the middle
    have hright : WholePages (rangeEnd + 1) n.entry.end_ := ⟨hp.hi_aligned, hn.hi_aligned, by omega, hn.hi_lt⟩
    have hclipped := (hclipEnd (by omega)).perm perm_middle.symm
    refine wp_pushEntry _ hE fun hd' => ?_
    rw [hmod]
    have hpush := hclipped.push
      (n := ⟨⟨n.entry.type, rangeEnd + 1, n.entry.end_, 0, n.entry.attr⟩, .stack s.mMapDepth⟩) rfl hright
      (fun a h3 h4 => wipe_inside ⟨by
        have h5 : rangeEnd + 1 ≤ a := h3
        omega, h4⟩)
    have hmiddle := paint_rest_middle start rangeEnd hlabel h1 hne (by omega)
    exact h _ _ s.freeEntries (hmiddle ▸ hpush) hd' ⟨le_rfl, .inr ⟨rfl, hstart, hend⟩, fun heq => absurd heq hstart⟩

/-! ## conversions -/

/-- outside of the nested calls the stack of new descriptors is empty -/
def Rests (outer : Bool) (s : PageState) : Prop := outer = true → s.mMapDepth = 0

/-- what the callers need of `CoreFreeMemoryMapStack` -/
def FreeStackOk (arch : Arch) (outer : Bool) (freeStack : PageProg Unit) : Prop :=
  ∀ s, Valid arch s →
    wp freeStack (fun _ s' => Valid arch s' ∧ Rests outer s' ∧ Evolves arch Nobody s s') onlyAsserts s

lemma freeStackOk_pure (arch : Arch) : FreeStackOk arch false (pure ()) := fun s hs => ⟨hs, nofun, Evolves.refl s⟩

def Change.apply : Change → Label → Label
  | .type t, v => (t, v.2)
  | .attributes a, v => (v.1, a)

/-- the pages may be converted; `whole` says that the request is in one descriptor -/
def Change.Allowed : Change → Label → Prop → Prop
  | .type t, v, whole =>
    (t ≠ efiConventionalMemory → whole ∧ v.1 = efiConventionalMemory) ∧
      (t = efiConventionalMemory → v.1 ≠ efiConventionalMemory)
  | .attributes _, _, _ => True

/-- a turn converted `start..rangeEnd`: first the map changed to that of `t`, then the stack was freed -/
structure Converted (arch : Arch) (outer : Bool) (change : Change) (end_ start rangeEnd : Nat)
    (s t s' : PageState) (v : Label) : Prop where
  pages : WholePages start rangeEnd
  le : rangeEnd ≤ end_
  allowed : change.Allowed v (rangeEnd = end_)
  before : ∀ a, Within start rangeEnd a → pageAt s a = some v
  mid : pageAt t = paint (pageAt s) start rangeEnd (change.apply v)
  gcd : t.mGcdMemorySpaceMap = s.mGcdMemorySpaceMap
  key : t.mMemoryMapKey = s.mMemoryMapKey + 1
  bins : SameBins s t
  evolves : Evolves arch Nobody t s'
  valid : Valid arch s'
  rests : Rests outer s'

/-- a turn up to the point where the stack is freed.  It costs one descriptor, or two if the range is in the middle of
its old one -/
structure Midway (arch : Arch) (change : Change) (end_ start rangeEnd : Nat) (s t : PageState) (v : Label) : Prop where
  pages : WholePages start rangeEnd
  le : rangeEnd ≤ end_
  allowed : change.Allowed v (rangeEnd = end_)
  before : ∀ a, Within start rangeEnd a → pageAt s a = some v
  mid : pageAt t = paint (pageAt s) start rangeEnd (change.apply v)
  gcd : t.mGcdMemorySpaceMap = s.mGcdMemorySpaceMap
  key : t.mMemoryMapKey = s.mMemoryMapKey + 1
  bins : SameBins s t
  valid : Valid arch t
  free : s.freeEntries ≤ t.freeEntries
  depth : t.mMapDepth = s.mMapDepth + 1 ∨ t.mMapDepth = s.mMapDepth + 2 ∧ rangeEnd = end_ ∧
    start ≠ 0 ∧ pageAt s (start - 1) = some v
  refund : rangeEnd < end_ → s.mMapDepth = 0 →
    s.freeEntries + 1 ≤ t.freeEntries ∨ start ≠ 0 ∧ pageAt s (start - 1) = some v

lemma Midway.converted {arch : Arch} {outer : Bool} {change : Change} {end_ start rangeEnd : Nat}
    {s t s' : PageState} {v : Label} (h : Midway arch change end_ start rangeEnd s t v)
    (hev : Evolves arch Nobody t s') (hvalid : Valid arch s') (hrests : Rests outer s') :
    Converted arch outer change end_ start rangeEnd s t s' v :=
  ⟨h.pages, h.le, h.allowed, h.before, h.mid, h.gcd, h.key, h.bins, hev, hvalid, hrests⟩

variable {outer : Bool} {freeStack : PageProg Unit} {change : Change} {pages : Nat} {v : Label}

structure Counted (s c : PageState) : Prop where
  map : c.gMemoryMap = s.gMemoryMap
  depth : c.mMapDepth = s.mMapDepth
  gcd : c.mGcdMemorySpaceMap = s.mGcdMemorySpaceMap
  key : c.mMemoryMapKey = s.mMemoryMapKey
  bins : SameBins s c

lemma Counted.refl (s : PageState) : Counted s s := ⟨rfl, rfl, rfl, rfl, SameBins.of_eq rfl rfl rfl⟩

lemma Counted.trans {c d : PageState} (h : Counted s c) (h' : Counted c d) : Counted s d :=
  ⟨h'.map.trans h.map, h'.depth.trans h.depth, h'.gcd.trans h.gcd, h'.key.trans h.key, h.bins.trans h'.bins⟩

lemma counted_setCurrentPages (s : PageState) (type pages : Nat) : Counted s (setCurrentPages s type pages) := by
  have hstats (t : Nat) :
      ((setCurrentPages s type pages).stats t).informationIndex = (s.stats t).informationIndex ∧
      ((setCurrentPages s type pages).stats t).baseAddress = (s.stats t).baseAddress := by
    unfold setCurrentPages
    dsimp only
    by_cases ht : t = type
    · subst ht
      rw [update_self]
      exact ⟨rfl, rfl⟩
    · rw [update_of_ne ht]
      exact ⟨rfl, rfl⟩
  exact ⟨rfl, rfl, rfl, rfl, fun t => (hstats t).1, fun t => (hstats t).2, fun i _ => rfl, fun i => rfl,
    fun h => h, rfl⟩

lemma counted_uncountPages (type start pages : Nat) (s : PageState) :
    Counted s (uncountPages type start pages s) := by
  unfold uncountPages
  split_ifs
  · exact counted_setCurrentPages s type _
  · exact Counted.refl s

lemma counted_countPages (type start pages : Nat) (s : PageState) : Counted s (countPages type start pages s) := by
  unfold countPages
  dsimp only
  split_ifs with hbin hmax
  · have hset := counted_setCurrentPages s type (((s.stats type).currentNumberOfPages + pages) % 2^64)
    refine hset.trans ⟨rfl, rfl, rfl, rfl, fun t => rfl, fun t => rfl, fun i hi => ?_, fun i => ?_,
      fun h i => ?_, rfl⟩
    · have hne : i ≠ (s.stats type).informationIndex := by
        rw [← hset.bins.index]
        exact (hi type).symm
      exact update_of_ne hne _ _
    · dsimp only
      by_cases hi : i = (s.stats type).informationIndex
      · subst hi
        rw [update_self]
      · rw [update_of_ne hi]
    · dsimp only
      by_cases hi : i = (s.stats type).informationIndex
      · subst hi
        rw [update_self]
        exact mod_lt _ (by norm_num)
      · rw [update_of_ne hi]
        exact h i
  · exact counted_setCurrentPages s type _
  · exact Counted.refl s

lemma counted_count (change : Change) (n : MapNode) (start pages : Nat) (s : PageState) :
    Counted s (change.count n start pages s) := by
  cases change with
  | attributes a => exact Counted.refl s
  | type t => exact (counted_uncountPages _ _ _ s).trans (counted_countPages _ _ _ _)

lemma allowed_of_not_refused (h : ¬ change.Refused n end_)
    (hend : rangeEnd = if n.entry.end_ < end_ then n.entry.end_ else end_) :
    change.Allowed (n.entry.type, n.entry.attr) (rangeEnd = end_) := by
  cases change with
  | attributes a => trivial
  | type t =>
    unfold Change.Refused at h
    rw [not_or, not_and, not_lt] at h
    obtain ⟨h1, h2⟩ := h
    refine ⟨fun ht => ⟨?_, ?_⟩, fun ht hn => h2 (iff_of_true ht hn)⟩
    · rw [hend, if_neg (not_lt.mpr (h1 ht))]
    · by_contra hn
      exact h2 (iff_of_false ht hn)

lemma apply_label (change : Change) (n : MapNode) :
    change.apply (n.entry.type, n.entry.attr) = (change.newType n, change.newAttr n) := by
  cases change <;> rfl

lemma count_freeEntries (change : Change) (n : MapNode) (start pages : Nat) (s : PageState) :
    (change.count n start pages s).freeEntries = s.freeEntries := by
  cases change with
  | type t =>
    show (countPages t start pages (uncountPages n.entry.type start pages s)).freeEntries = s.freeEntries
    unfold countPages uncountPages
    dsimp only
    split_ifs <;> rfl
  | attributes a => rfl

/-- **one turn of the conversion**, up to the point where the stack is freed -/
theorem wp_convertTurn_midway {Q : Except Status Nat → PageState → Prop} {E : PageFault → PageState → Prop}
    (hE : (∀ s', E .assertion s') ∨ s.mMapDepth + 2 < maxMapDepth) (hs : Valid arch s)
    (hstart : efiPageSize ∣ start) (hend : efiPageSize ∣ end_ + 1) (hlt : start < end_)
    (hfail : (findEntry start s.gMemoryMap = none ∨
      ∃ pre n post, findEntry start s.gMemoryMap = some (pre, n, post) ∧ change.Refused n end_) →
        Q (.error .notFound) s) (hmid : ∀ rangeEnd t v, Midway arch change end_ start rangeEnd s t v →
      wp freeStack (fun _ s' => Q (.ok (rangeEnd + 1)) s') E t) :
    wp (convertTurn freeStack pages change end_ start) Q E s := by
  unfold convertTurn
  rw [wp_bind, wp_gets]
  cases hfind : findEntry start s.gMemoryMap with
  | none => exact hfail (.inl hfind)
  | some r =>
    obtain ⟨pre, n, post⟩ := r
    obtain ⟨hmap, hn1, hn2⟩ := findEntry_some hfind
    by_cases hrefused : change.Refused n end_
    · dsimp only
      rw [if_pos hrefused]
      exact hfail (.inr ⟨pre, n, post, hfind, hrefused⟩)
    dsimp only
    rw [if_neg hrefused, wp_bind, wp_modify]
    generalize hrangeEnd : (if n.entry.end_ < end_ then n.entry.end_ else end_) = rangeEnd
    have hmapOk := hs.map
    rw [hmap] at hmapOk
    have hn : WholePages n.entry.start n.entry.end_ := hmapOk.paged n (mem_append_right _ mem_cons_self)
    have hp : WholePages start rangeEnd := by
      have h1 := hn.hi_aligned
      have h2 := hn.hi_lt
      rw [← hrangeEnd]
      split_ifs with hcut
      · exact ⟨hstart, h1, hn2.le, h2⟩
      · exact ⟨hstart, hend, hlt.le, by omega⟩
    have hle1 : rangeEnd ≤ n.entry.end_ := by
      rw [← hrangeEnd]
      split_ifs <;> omega
    have hle2 : rangeEnd ≤ end_ := by
      rw [← hrangeEnd]
      split_ifs <;> omega
    have hbefore : ∀ a, Within start rangeEnd a → pageAt s a = some (n.entry.type, n.entry.attr) :=
      fun a ha => hmapOk.label ⟨hn1.trans ha.1, ha.2.trans hle1⟩
    have hcount := counted_count change n start pages s
    have hcfree := count_freeEntries change n start pages s
    rw [← hcount.depth] at hmapOk
    rw [wp_bind]
    have hdepth := hcount.depth
    refine wp_pullRange hmapOk (hcount.depth ▸ hs.depth) hp hn1 hle1 (hE.imp_right (by omega)) fun l d f hl hd hcost => ?_
    have hd1 : d ≤ s.mMapDepth + 1 := by
      rcases hcost.depth with h | h <;> omega
    rw [wp_bind]
    refine wp_coreAddRange hl hp (fun a h1 h2 => wipe_inside ⟨h1, h2⟩)
      (hE.imp_right fun h => show d + 1 < maxMapDepth by omega) fun l' f' hl' hd' hf' => ?_
    rw [paint_wipe, ← apply_label] at hl'
    rw [wp_bind]
    generalize ht : PageState.newMap _ l' _ f' = t
    have htmap : t.gMemoryMap = l' := by rw [← ht]; rfl
    have htdepth : t.mMapDepth = d + 1 := by rw [← ht]; rfl
    have htfree : t.freeEntries = f' := by rw [← ht]; rfl
    have htgcd : t.mGcdMemorySpaceMap = s.mGcdMemorySpaceMap := by rw [← hcount.gcd, ← ht]; rfl
    have htkey : t.mMemoryMapKey = s.mMemoryMapKey + 1 := by rw [← hcount.key, ← ht]; rfl
    have htbins : SameBins s t := by
      rw [← ht]
      exact hcount.bins.trans (SameBins.of_eq rfl rfl rfl)
    have hpage : pageAt t = paint (pageAt s) start rangeEnd (change.apply (n.entry.type, n.entry.attr)) :=
      pageAt_of_mapOk hl' htmap
    have hvalid : Valid arch t := by
      refine ⟨by rw [htmap, htdepth, hpage]; exact hl', by rw [htdepth]; exact hd', ?_⟩
      rw [htgcd]
      refine ⟨hs.gcd.paged, hs.gcd.apart, fun g hg hprom a ha => ?_⟩
      have hnone := hs.gcd.fresh g hg hprom a ha
      rw [hpage, paint_outside, hnone]
      intro hin
      rw [hbefore a hin] at hnone
      cases hnone
    -- a descriptor that starts before the range has the page in front of it
    have hfront : n.entry.start ≠ start → start ≠ 0 ∧ pageAt s (start - 1) = some (n.entry.type, n.entry.attr) := by
      intro hne
      have hok := hs.map
      rw [hmap] at hok
      exact ⟨by omega, hok.label ⟨by omega, by omega⟩⟩
    have hf' : f ≤ f' := hf'
    have hfree := hcost.free
    rw [mod_eq_of_lt hp.hi_lt]
    refine hmid rangeEnd t _ ⟨hp, hle2, allowed_of_not_refused hrefused hrangeEnd.symm, hbefore, hpage, htgcd, htkey,
      htbins, hvalid, by omega, ?_, fun hcut hrest => ?_⟩
    · rcases hcost.depth with hd0 | ⟨hd1, hn_start, hn_end⟩
      · exact .inl (by omega)
      · refine .inr ⟨by omega, ?_, hfront hn_start⟩
        rw [← hrangeEnd] at hn_end ⊢
        split_ifs at hn_end ⊢ with hcut
        · exact absurd rfl hn_end
        · rfl
    · by_cases hn_start : n.entry.start = start
      · have hheap : n.place = .heap := by
          have hmem : n ∈ s.gMemoryMap := by
            rw [hmap]
            exact mem_append_right _ mem_cons_self
          cases hplace : n.place with
          | heap => rfl
          | stack i =>
            have := hs.map.stack.lt n hmem i hplace
            omega
        have hn_end : n.entry.end_ = rangeEnd := by
          rw [← hrangeEnd] at hcut ⊢
          split_ifs at hcut ⊢ with hc
          · rfl
          · exact absurd hcut (lt_irrefl _)
        have := hcost.refund hn_start hn_end hheap
        exact .inl (by omega)
      · exact .inr (hfront hn_start)

/-- **one turn of the conversion** -/
theorem wp_convertTurn {Q : Except Status Nat → PageState → Prop} (hfree : FreeStackOk arch outer freeStack)
    (hs : Valid arch s) (hstart : efiPageSize ∣ start) (hend : efiPageSize ∣ end_ + 1) (hlt : start < end_)
    (hfail : (findEntry start s.gMemoryMap = none ∨
      ∃ pre n post, findEntry start s.gMemoryMap = some (pre, n, post) ∧ change.Refused n end_) →
        Q (.error .notFound) s) (hok : ∀ rangeEnd t s' v, Converted arch outer change end_ start rangeEnd s t s' v →
      Q (.ok (rangeEnd + 1)) s') :
    wp (convertTurn freeStack pages change end_ start) Q onlyAsserts s := by
  refine wp_convertTurn_midway (.inl fun _ => rfl) hs hstart hend hlt hfail fun rangeEnd t v hmid => ?_
  refine wp_post (hfree t hmid.valid) ?_
  intro _ s' ⟨hvalid, hrests, hev⟩
  exact hok rangeEnd t s' v (hmid.converted hev hvalid hrests)

section
variable (h : Converted arch outer change end_ start rangeEnd s t s' v)
include h

/-- until the stack is freed only the converted range changes -/
lemma Converted.evolves_mid {R : Nat → Prop} (hother : ∀ a, ¬ R a → Background arch s a (pageAt s a) (pageAt t a)) : Evolves arch R s t :=
  { other := hother
    kept := by
      intro a ha hne
      rw [h.mid]
      by_cases hin : start ≤ a ∧ a ≤ rangeEnd
      · rw [paint_inside hin]
        exact some_ne_none _
      · rwa [paint_outside hin]
    fresh := by
      intro a ha hnone hne
      by_cases hin : start ≤ a ∧ a ≤ rangeEnd
      · rw [h.before a hin] at hnone
        cases hnone
      · rw [h.mid, paint_outside hin] at hne
        exact absurd hnone hne
    gcd := by
      rw [h.gcd]
      exact GcdEvolves.refl _
    key_le := by
      rw [h.key]
      exact le_succ _
    key := by
      intro _
      rw [h.key]
      exact lt_succ_self _
    promoted := by
      intro a attr hp
      unfold Promotable at hp ⊢
      rw [h.gcd]
      exact .inl hp
    bins := h.bins }

lemma Converted.toEvolves :
    Evolves arch (Within start end_) s s' := by
  have hmid : Evolves arch (Within start end_) s t := h.evolves_mid fun a ha => .inl (by
    rw [h.mid, paint_outside]
    exact fun hin => ha ⟨hin.1, hin.2.trans h.le⟩)
  exact hmid.trans (h.evolves.background _)

end

lemma Within.mono {a start start' end_ : Nat} (h : start ≤ start') (ha : Within start' end_ a) :
    Within start end_ a := ⟨h.trans ha.1, ha.2⟩

/-- the rule of the loop: `Inv start s` is true at the start of each turn -/
lemma wp_convertFrom_rule {Q : Option Status → PageState → Prop} {E : PageFault → PageState → Prop}
    (Inv : Nat → PageState → Prop) (hturn : ∀ s start, Inv start s → efiPageSize ∣ start → start < end_ →
      wp (convertTurn freeStack pages change end_ start) (fun r s' => (∀ e, r = .error e → Q (some e) s') ∧
        ∀ next, r = .ok next → Inv next s' ∧ efiPageSize ∣ next ∧ start < next) E s)
    (hdone : ∀ s start, Inv start s → efiPageSize ∣ start → ¬ start < end_ → Q none s) (fuel : Nat)
    (hfuel : end_ + 1 ≤ start + fuel * efiPageSize) (hstart : efiPageSize ∣ start) (h : Inv start s) :
    wp (convertFrom freeStack pages change end_ fuel start) Q E s := by
  induction fuel generalizing s start with
  | zero =>
    unfold convertFrom
    rw [if_neg (by omega)]
    exact hdone s start h hstart (by omega)
  | succ fuel ih =>
    unfold convertFrom
    by_cases hlt : start < end_
    · rw [if_pos hlt]
      refine wp_seq (hturn s start h hstart hlt) fun r s' ⟨herror, hok⟩ => ?_
      cases r with
      | error e => exact herror e rfl
      | ok next =>
        obtain ⟨hinv, hnext, hgt⟩ := hok next rfl
        have hpage := Nat.le_of_dvd (Nat.sub_pos_of_lt hgt) (Nat.dvd_sub hnext hstart)
        rw [succ_mul] at hfuel
        exact ih (by omega) hnext hinv
    · rw [if_neg hlt]
      exact hdone s start h hstart hlt

/-- **a conversion changes only its range** -/
theorem wp_convertFrom (hfree : FreeStackOk arch outer freeStack) (hs : Valid arch s) (hrests : Rests outer s)
    (fuel : Nat) (hstart : efiPageSize ∣ start) (hend : efiPageSize ∣ end_ + 1)
    (hfuel : end_ + 1 ≤ start + fuel * efiPageSize) : wp (convertFrom freeStack pages change end_ fuel start)
      (fun _ s' => Valid arch s' ∧ Rests outer s' ∧ Evolves arch (Within start end_) s s') onlyAsserts s := by
  refine wp_convertFrom_rule (fun next s' => start ≤ next ∧ Valid arch s' ∧ Rests outer s' ∧
    Evolves arch (Within start end_) s s') ?_ (fun _ _ h _ _ => h.2) fuel hfuel hstart ⟨le_rfl, hs, hrests, .refl s⟩
  intro s1 start1 ⟨hle, hs1, hrests1, hev⟩ hstart1 hlt
  refine wp_convertTurn hfree hs1 hstart1 hend hlt (fun _ => ⟨fun _ _ => ⟨hs1, hrests1, hev⟩, nofun⟩) ?_
  rintro rangeEnd t s2 v h
  refine ⟨nofun, fun next hnext => ?_⟩
  cases hnext
  have hne := h.pages.nonempty
  exact ⟨⟨by omega, h.valid, h.rests, hev.trans (h.toEvolves.mono fun a ha => ha.mono hle)⟩, h.pages.hi_aligned, by omega⟩

lemma Valid.findEntry (h : Valid arch s) (hstart : efiPageSize ∣ start) (hv : pageAt s start = some v) :
    ∃ pre n post, findEntry start s.gMemoryMap = some (pre, n, post) ∧ n.entry.type = v.1 ∧ n.entry.attr = v.2 := by
  obtain ⟨r, hr, hra⟩ := h.map.spans.complete start (by rw [hv]; exact some_ne_none _)
  obtain ⟨n, hn, rfl⟩ := mem_map.mp hr
  have hp := h.map.paged n hn
  have hlt : start < n.entry.end_ := by
    have h1 := hp.hi_aligned
    have h2 : start ≤ n.entry.end_ := hra.2
    unfold efiPageSize at *
    omega
  cases hfind : Mem.findEntry start s.gMemoryMap with
  | none => exact absurd ⟨hra.1, hlt⟩ (findEntry_none hfind n hn)
  | some x =>
    obtain ⟨pre, m, post⟩ := x
    obtain ⟨hmap, hm1, hm2⟩ := findEntry_some hfind
    have hlabel := h.map
    rw [hmap] at hlabel
    have heq := hlabel.label ⟨hm1, hm2.le⟩
    rw [hv] at heq
    cases heq
    exact ⟨pre, m, post, rfl, rfl, rfl⟩

lemma Valid.not_refused (h : Valid arch s) (hstart : efiPageSize ∣ start)
    (hused : ∃ v, pageAt s start = some v ∧ v.1 ≠ efiConventionalMemory) :
    ¬ (Mem.findEntry start s.gMemoryMap = none ∨ ∃ pre n post, Mem.findEntry start s.gMemoryMap = some (pre, n, post) ∧
      Change.Refused (.type efiConventionalMemory) n end_) := by
  obtain ⟨v, hv, hne⟩ := hused
  obtain ⟨pre, n, post, hfind, htype, -⟩ := h.findEntry hstart hv
  rw [hfind]
  rintro (hnone | ⟨pre', n', post', hfind', ⟨hconv, -⟩ | hiff⟩)
  · cases hnone
  · exact hconv rfl
  · cases hfind'
    exact hne (htype ▸ hiff.mp rfl)

/-- pages that are in use are freed as a whole; some of them may be taken for descriptors at once -/
lemma wp_convertFrom_free (hfree : FreeStackOk arch outer freeStack) (hs : Valid arch s)
    (hrests : Rests outer s) (fuel : Nat) (hstart : efiPageSize ∣ start) (hend : efiPageSize ∣ end_ + 1)
    (hfuel : end_ + 1 ≤ start + fuel * efiPageSize)
    (hused : ∀ a, Within start end_ a → ∃ v, pageAt s a = some v ∧ v.1 ≠ efiConventionalMemory) :
    wp (convertFrom freeStack pages (.type efiConventionalMemory) end_ fuel start)
      (fun _ s' => Valid arch s' ∧ Rests outer s' ∧ Evolves arch (Within start end_) s s' ∧
        ∀ a, Within start end_ a → ∀ v, pageAt s a = some v →
          Background arch s a (some (efiConventionalMemory, v.2)) (pageAt s' a)) onlyAsserts s := by
  -- up to `next` the pages are freed, behind it nothing has changed
  refine wp_convertFrom_rule (fun next s' => start ≤ next ∧ Valid arch s' ∧ Rests outer s' ∧
    Evolves arch (Within start end_) s s' ∧ (∀ a, Within next end_ a → pageAt s' a = pageAt s a) ∧
    ∀ a, Within start end_ a → a < next → ∀ v, pageAt s a = some v →
      Background arch s a (some (efiConventionalMemory, v.2)) (pageAt s' a)) ?_ ?_ fuel hfuel hstart
    ⟨le_rfl, hs, hrests, .refl s, fun _ _ => rfl, fun a ha hlt => absurd ha.1 (by omega)⟩
  · intro s1 start1 ⟨hle, hs1, hrests1, hev, hrest, hfreed⟩ hstart1 hlt
    refine wp_convertTurn hfree hs1 hstart1 hend hlt (fun hfail => absurd hfail (hs1.not_refused hstart1 ?_)) ?_
    · rw [hrest _ ⟨le_rfl, hlt.le⟩]
      exact hused _ ⟨hle, hlt.le⟩
    intro rangeEnd t s2 v h
    refine ⟨nofun, fun next hnext => ?_⟩
    cases hnext
    have hne := h.pages.nonempty
    have hprom : ∀ a attr, Promotable arch s1 a attr → Promotable arch s a attr := fun a attr hp => hev.promotable hp
    refine ⟨⟨by omega, h.valid, h.rests, hev.trans (h.toEvolves.mono fun a ha => ha.mono hle), fun a ha => ?_,
      fun a ha hlt' w hw => ?_⟩, h.pages.hi_aligned, by omega⟩
    · have ha1 : Within start1 end_ a := ha.mono (by omega)
      obtain ⟨w, hw, hwne⟩ := hused a (ha1.mono hle)
      have hmid : pageAt t a = some (w.1, w.2) := by
        rw [h.mid, paint_outside, hrest a ha1, hw]
        have := ha.1
        omega
      rw [(h.evolves.other a id).eq hmid hwne, hmid, hw]
    · by_cases hin : start1 ≤ a
      · have hmid : pageAt t a = some (efiConventionalMemory, w.2) := by
          have hv := h.before a ⟨hin, by omega⟩
          rw [hrest a ⟨hin, ha.2⟩, hw] at hv
          cases hv
          rw [h.mid, paint_inside ⟨hin, by omega⟩]
          rfl
        have hback := h.evolves.other a id
        rw [hmid] at hback
        refine Background.trans (.inl rfl) hback fun attr hp => hprom a attr ?_
        unfold Promotable at hp ⊢
        rwa [h.gcd] at hp
      · exact (hfreed a ha (by omega) w hw).trans (h.toEvolves.other a fun hin' => hin hin'.1) (hprom a)
  · intro s1 start1 ⟨_, hs1, hrests1, hev, _, hfreed⟩ hstart1 hge
    refine ⟨hs1, hrests1, hev, fun a ha => hfreed a ha ?_⟩
    -- a range of whole pages is not a single address
    have h2 := ha.2
    unfold efiPageSize at hstart1 hend
    omega

def requestEnd (start pages : Nat) : Nat := sub64 ((start + efiPagesToSize pages) % 2^64) 1

lemma requestEnd_spec (hs : start < 2^64) (hd : efiPageSize ∣ start) (hlt : start < requestEnd start pages)
    (hne : pages ≠ 0) :
    efiPageSize ∣ requestEnd start pages + 1 ∧ requestEnd start pages + 1 ≤ start + pages * efiPageSize ∧
      (pages < 2^52 → requestEnd start pages + 1 = start + pages * efiPageSize) := by
  unfold requestEnd efiPagesToSize sub64 efiPageSize at *
  omega

/-- the addresses of `pages` pages, over exact integers -/
def InPages (start pages : Nat) : Nat → Prop := fun a => start ≤ a ∧ a < start + pages * efiPageSize

lemma inPages_of_within (hs : start < 2^64) (hd : efiPageSize ∣ start)
    (hlt : start < requestEnd start pages) (hne : pages ≠ 0) {a : Nat}
    (ha : Within start (requestEnd start pages) a) : InPages start pages a := by
  have h1 := (requestEnd_spec hs hd hlt hne).2.1
  have h2 := ha.2
  exact ⟨ha.1, by omega⟩

/-- **`CoreConvertPagesEx` changes only its range** -/
theorem wp_coreConvertPagesEx (hfree : FreeStackOk arch outer freeStack) (hs : Valid arch s)
    (hrests : Rests outer s) (hstart : start < 2^64) (change : Change) :
    wp (coreConvertPagesEx freeStack start pages change)
      (fun _ s' => Valid arch s' ∧ Rests outer s' ∧ Evolves arch (InPages start pages) s s') onlyAsserts s := by
  unfold coreConvertPagesEx
  by_cases hbad : pages = 0 ∨ start % efiPageSize ≠ 0 ∨ requestEnd start pages ≤ start
  · rw [← requestEnd, if_pos hbad]
    exact ⟨hs, hrests, Evolves.refl s⟩
  rw [← requestEnd, if_neg hbad]
  rw [not_or, not_or, not_not, not_le] at hbad
  obtain ⟨hne, haligned, hlt⟩ := hbad
  have hd : efiPageSize ∣ start := dvd_of_mod_eq_zero haligned
  obtain ⟨h1, h2, -⟩ := requestEnd_spec hstart hd hlt hne
  have hfuel : requestEnd start pages + 1 ≤ start + (pages + 1) * efiPageSize := by
    rw [succ_mul]
    omega
  refine wp_post (wp_convertFrom hfree hs hrests (pages + 1) hd h1 hfuel) ?_
  intro _ s' ⟨hs', hrests', hev⟩
  exact ⟨hs', hrests', hev.mono fun a => inPages_of_within hstart hd hlt hne⟩

lemma wp_coreConvertPages_free (hfree : FreeStackOk arch outer freeStack) (hs : Valid arch s)
    (hrests : Rests outer s) (hstart : start < 2^64) (hne : pages ≠ 0) (hd : efiPageSize ∣ start)
    (hlt : start < requestEnd start pages) (hused : ∀ a, Within start (requestEnd start pages) a →
      ∃ v, pageAt s a = some v ∧ v.1 ≠ efiConventionalMemory) :
    wp (coreConvertPages freeStack start pages efiConventionalMemory) (fun _ s' => Valid arch s' ∧ Rests outer s' ∧
        Evolves arch (Within start (requestEnd start pages)) s s' ∧
        ∀ a, Within start (requestEnd start pages) a → ∀ v, pageAt s a = some v →
          Background arch s a (some (efiConventionalMemory, v.2)) (pageAt s' a)) onlyAsserts s := by
  unfold coreConvertPages coreConvertPagesEx
  have hgood : ¬ (pages = 0 ∨ start % efiPageSize ≠ 0 ∨ requestEnd start pages ≤ start) := by
    rintro (h | h | h)
    · exact hne h
    · exact h (mod_eq_zero_of_dvd hd)
    · omega
  rw [← requestEnd, if_neg hgood]
  obtain ⟨h1, h2, -⟩ := requestEnd_spec hstart hd hlt hne
  refine wp_convertFrom_free hfree hs hrests (pages + 1) hd h1 (h2.trans ?_) hused
  rw [succ_mul]
  omega

lemma wp_coreConvertPages_midway {Q : Option Status → PageState → Prop} {E : PageFault → PageState → Prop} {type : Nat}
    (hE : (∀ s', E .assertion s') ∨ s.mMapDepth + 2 < maxMapDepth) (htype : type ≠ efiConventionalMemory)
    (hs : Valid arch s) (hstart : start < 2^64) (hfail : ∀ e, Q (some e) s)
    (hmid : ∀ t v, pages ≠ 0 → start < requestEnd start pages →
      Midway arch (.type type) (requestEnd start pages) start (requestEnd start pages) s t v →
        wp freeStack (fun _ s' => Q none s') E t) :
    wp (coreConvertPages freeStack start pages type) Q E s := by
  unfold coreConvertPages coreConvertPagesEx
  by_cases hbad : pages = 0 ∨ start % efiPageSize ≠ 0 ∨ requestEnd start pages ≤ start
  · rw [← requestEnd, if_pos hbad]
    exact hfail _
  rw [← requestEnd, if_neg hbad]
  rw [not_or, not_or, not_not, not_le] at hbad
  obtain ⟨hne, haligned, hlt⟩ := hbad
  have hd : efiPageSize ∣ start := dvd_of_mod_eq_zero haligned
  obtain ⟨h1, -, -⟩ := requestEnd_spec hstart hd hlt hne
  unfold convertFrom
  rw [if_pos hlt, wp_bind]
  refine wp_convertTurn_midway hE hs hd h1 hlt (fun _ => hfail _) ?_
  intro rangeEnd t v h
  -- the whole request is in one descriptor, so the loop ends
  have hwhole : rangeEnd = requestEnd start pages := (h.allowed.1 htype).1
  subst hwhole
  obtain ⟨k, hk⟩ : ∃ k, pages = k + 1 := ⟨pages - 1, by omega⟩
  have hend : convertFrom freeStack pages (.type type) (requestEnd start pages) pages
      (requestEnd start pages + 1) = pure none := by
    nth_rewrite 3 [hk]
    exact if_neg (by omega)
  dsimp only
  rw [hend]
  exact hmid t v hne hlt h

lemma wp_coreConvertPages_alloc {Q : Option Status → PageState → Prop} {type : Nat}
    (htype : type ≠ efiConventionalMemory) (hfree : FreeStackOk arch outer freeStack) (hs : Valid arch s)
    (hstart : start < 2^64) (hfail : ∀ e, Q (some e) s) (hok : ∀ t s' v, pages ≠ 0 → start < requestEnd start pages →
      Converted arch outer (.type type) (requestEnd start pages) start (requestEnd start pages) s t s' v →
        Q none s') :
    wp (coreConvertPages freeStack start pages type) Q onlyAsserts s := by
  refine wp_coreConvertPages_midway (.inl fun _ => rfl) htype hs hstart hfail fun t v hne hlt hmid => ?_
  refine wp_post (hfree t hmid.valid) ?_
  intro _ s' ⟨hvalid, hrests, hev⟩
  exact hok t s' v hne hlt (hmid.converted hev hvalid hrests)

/-! ## untested memory is promoted -/

def NoPromotable (arch : Arch) (s : PageState) : Prop := ∀ g ∈ s.mGcdMemorySpaceMap, ¬ g.IsPromotable arch

variable {gcd : List GcdMapEntry} {g : GcdMapEntry} {i : Nat}

lemma promotable_set (hi : gcd[i]? = some g) {j : Nat} {x : GcdMapEntry}
    (hj : (gcd.set i g.promoted)[j]? = some x) (hx : x.IsPromotable arch) : j ≠ i ∧ gcd[j]? = some x := by
  by_cases hji : i = j
  · subst hji
    have hlt : i < gcd.length := (List.getElem?_eq_some_iff.mp hi).1
    rw [List.getElem?_set_self hlt] at hj
    cases hj
    exact absurd hx (not_promotable_promoted g)
  · rw [List.getElem?_set_ne hji] at hj
    exact ⟨fun h => hji h.symm, hj⟩

lemma pairwise_getElem? {α : Type} {R : α → α → Prop} {l : List α} (h : l.Pairwise R) {i j : Nat}
    {x y : α} (hi : l[i]? = some x) (hj : l[j]? = some y) (hij : i < j) : R x y := by
  obtain ⟨hi', rfl⟩ := List.getElem?_eq_some_iff.mp hi
  obtain ⟨hj', rfl⟩ := List.getElem?_eq_some_iff.mp hj
  exact pairwise_iff_getElem.mp h i j hi' hj' hij

lemma GcdOk.set (h : GcdOk arch gcd M) (hi : gcd[i]? = some g) (hg : g.IsPromotable arch) :
    GcdOk arch (gcd.set i g.promoted) (paint M g.baseAddress g.endAddress v) where
  paged := by
    intro x hx hprom
    obtain ⟨j, hj⟩ := mem_iff_getElem?.mp hx
    exact h.paged x (mem_of_getElem? (promotable_set hi hj hprom).2) hprom
  apart := by
    refine pairwise_iff_getElem.mpr fun j k hj hk hjk h1 h2 => ?_
    obtain ⟨-, hj'⟩ := promotable_set hi (List.getElem?_eq_getElem hj) h1
    obtain ⟨-, hk'⟩ := promotable_set hi (List.getElem?_eq_getElem hk) h2
    exact pairwise_getElem? h.apart hj' hk' hjk h1 h2
  fresh := by
    intro x hx hprom a ha
    obtain ⟨j, hj⟩ := mem_iff_getElem?.mp hx
    obtain ⟨hne, hj'⟩ := promotable_set hi hj hprom
    rw [paint_outside, h.fresh x (mem_of_getElem? hj') hprom a ha]
    intro hin
    have hapart : x.endAddress < g.baseAddress ∨ g.endAddress < x.baseAddress := by
      rcases lt_or_gt_of_ne hne with hlt | hlt
      · exact pairwise_getElem? h.apart hj' hi hlt hprom hg
      · exact (pairwise_getElem? h.apart hi hj' hlt hg hprom).symm
    unfold GcdMapEntry.Covers at ha
    omega

/-- **one turn of the promotion**, up to the point where the stack is freed -/
theorem wp_promoteTurn_midway {Q : Bool → PageState → Prop} {E : PageFault → PageState → Prop}
    (hE : (∀ s', E .assertion s') ∨ s.mMapDepth + 1 < maxMapDepth) (hs : Valid arch s) (promoted : Bool)
    (hskip : (∀ g, s.mGcdMemorySpaceMap[i]? = some g → ¬ g.IsPromotable arch) → Q promoted s)
    (hmid : ∀ g t, s.mGcdMemorySpaceMap[i]? = some g → g.IsPromotable arch → Valid arch t →
      Evolves arch Nobody s t → t.mGcdMemorySpaceMap = s.mGcdMemorySpaceMap.set i g.promoted →
      t.mMapDepth = s.mMapDepth + 1 → wp freeStack (fun _ s' => Q true s') E t) :
    wp (promoteTurn arch freeStack i promoted) Q E s := by
  unfold promoteTurn
  rw [wp_bind, wp_gets]
  cases hi : s.mGcdMemorySpaceMap[i]? with
  | none => exact hskip fun g hg => by rw [hi] at hg; cases hg
  | some g =>
    dsimp only
    by_cases hg : g.IsPromotable arch
    · have hmem := mem_of_getElem? hi
      have hp := hs.gcd.paged g hmem hg
      have hnone := hs.gcd.fresh g hmem hg
      rw [if_pos hg, wp_bind, wp_modify, wp_bind]
      refine wp_coreAddRange hs.map hp (fun a h1 h2 => hnone a ⟨h1, h2⟩) hE fun l f hl hd hf => ?_
      rw [wp_bind]
      generalize ht : PageState.newMap _ l _ f = t
      have htmap : t.gMemoryMap = l := by rw [← ht]; rfl
      have htdepth : t.mMapDepth = s.mMapDepth + 1 := by rw [← ht]; rfl
      have htgcd : t.mGcdMemorySpaceMap = s.mGcdMemorySpaceMap.set i g.promoted := by rw [← ht]; rfl
      have htkey : t.mMemoryMapKey = s.mMemoryMapKey + 1 := by rw [← ht]; rfl
      have hpage := pageAt_of_mapOk hl htmap
      have hvalid : Valid arch t :=
        ⟨by rw [htmap, htdepth, hpage]; exact hl, by rw [htdepth]; exact hd,
          by rw [htgcd, hpage]; exact hs.gcd.set hi hg⟩
      have hlt : i < s.mGcdMemorySpaceMap.length := (List.getElem?_eq_some_iff.mp hi).1
      have hset : t.mGcdMemorySpaceMap[i]? = some g.promoted := by
        rw [htgcd, List.getElem?_set_self hlt]
      have hev : Evolves arch Nobody s t :=
        { other := by
            intro a _
            rw [hpage]
            by_cases hin : g.baseAddress ≤ a ∧ a ≤ g.endAddress
            · rw [paint_inside hin, hnone a hin]
              exact .inr (.inr ⟨rfl, _, ⟨g, hmem, hg, hin, rfl⟩, .inl rfl⟩)
            · rw [paint_outside hin]
              exact .inl rfl
          kept := fun a ha => False.elim ha
          fresh := fun a ha => False.elim ha
          gcd := by
            intro j
            by_cases hij : i = j
            · subst hij
              exact .inr ⟨g, hi, hg, hset⟩
            · rw [htgcd, List.getElem?_set_ne hij]
              exact .inl rfl
          key_le := by
            rw [htkey]
            exact le_succ _
          key := by
            intro _
            rw [htkey]
            exact lt_succ_self _
          promoted := by
            intro a attr ⟨x, hx, hxprom, hxa, hattr⟩
            by_cases hin : g.baseAddress ≤ a ∧ a ≤ g.endAddress
            · refine .inr ?_
              rw [hpage, paint_inside hin]
              exact some_ne_none _
            obtain ⟨j, hj⟩ := mem_iff_getElem?.mp hx
            have hij : i ≠ j := by
              intro hij
              subst hij
              rw [hi] at hj
              cases hj
              exact hin hxa
            refine .inl ⟨x, mem_iff_getElem?.mpr ⟨j, ?_⟩, hxprom, hxa, hattr⟩
            rw [htgcd, List.getElem?_set_ne hij]
            exact hj
          bins := by
            rw [← ht]
            exact SameBins.of_eq rfl rfl rfl }
      exact hmid g t hi hg hvalid hev htgcd htdepth
    · rw [if_neg hg]
      exact hskip fun x hx => by
        rw [hi] at hx
        cases hx
        exact hg

/-- **one turn of the promotion** -/
theorem wp_promoteTurn {Q : Bool → PageState → Prop} (hfree : FreeStackOk arch outer freeStack)
    (hs : Valid arch s) (promoted : Bool)
    (hskip : (∀ g, s.mGcdMemorySpaceMap[i]? = some g → ¬ g.IsPromotable arch) → Q promoted s)
    (hdo : ∀ g s', s.mGcdMemorySpaceMap[i]? = some g → g.IsPromotable arch → Valid arch s' →
      Rests outer s' → Evolves arch Nobody s s' → s'.mGcdMemorySpaceMap[i]? = some g.promoted → Q true s') :
    wp (promoteTurn arch freeStack i promoted) Q onlyAsserts s := by
  refine wp_promoteTurn_midway (.inl fun _ => rfl) hs promoted hskip fun g t hi hg hvalid hev hgcd _ => ?_
  have hlt : i < s.mGcdMemorySpaceMap.length := (List.getElem?_eq_some_iff.mp hi).1
  have hset : t.mGcdMemorySpaceMap[i]? = some g.promoted := by
    rw [hgcd, List.getElem?_set_self hlt]
  refine wp_post (hfree t hvalid) ?_
  intro _ s' ⟨hvalid', hrests', hev'⟩
  refine hdo g s' hi hg hvalid' hrests' (hev.trans hev') ?_
  rcases hev'.gcd i with heq | ⟨g', hg', hprom, -⟩
  · rw [heq, hset]
  · rw [hset] at hg'
    cases hg'
    exact absurd hprom (not_promotable_promoted g)

/-- what holds after `i` turns of the promotion that began in `s` -/
structure PromotedTo (arch : Arch) (outer : Bool) (s : PageState) (i : Nat) (promoted : Bool)
    (s' : PageState) : Prop where
  valid : Valid arch s'
  rests : Rests outer s'
  evolves : Evolves arch Nobody s s'
  done : ∀ j < i, ∀ g, s'.mGcdMemorySpaceMap[j]? = some g → ¬ g.IsPromotable arch
  unpromoted : NoPromotable arch s → promoted = false

lemma GcdEvolves.length {gcd gcd' : List GcdMapEntry} (h : GcdEvolves arch gcd gcd') : gcd'.length = gcd.length := by
  have hle (i : Nat) : gcd'.length ≤ i ↔ gcd.length ≤ i := by
    rw [← List.getElem?_eq_none_iff, ← List.getElem?_eq_none_iff]
    rcases h i with h1 | ⟨g, h1, -, h2⟩
    · rw [h1]
    · rw [h1, h2]
      exact iff_of_false (some_ne_none _) (some_ne_none _)
  exact le_antisymm ((hle gcd.length).mpr le_rfl) ((hle gcd'.length).mp le_rfl)

/-- **`PromoteMemoryResource`** -/
theorem wp_promoteMemoryResource (hfree : FreeStackOk arch outer freeStack) (hs : Valid arch s)
    (hrests : Rests outer s) : wp (promoteMemoryResource arch freeStack)
      (fun promoted s' => Valid arch s' ∧ Rests outer s' ∧ Evolves arch Nobody s s' ∧
        NoPromotable arch s' ∧ (NoPromotable arch s → promoted = false)) onlyAsserts s := by
  unfold promoteMemoryResource
  rw [wp_bind, wp_gets]
  refine wp_post (wp_loop _ (fun i promoted t => PromotedTo arch outer s i promoted t) 0 _ _
    ⟨hs, hrests, Evolves.refl s, nofun, fun _ => rfl⟩ ?_) ?_
  · intro i promoted t hi hlt h
    refine wp_promoteTurn hfree h.valid promoted ?_ ?_
    · intro hskip
      refine ⟨h.valid, h.rests, h.evolves, fun j hj g hg => ?_, h.unpromoted⟩
      rcases Nat.lt_succ_iff_lt_or_eq.mp hj with hj | rfl
      · exact h.done j hj g hg
      · exact hskip g hg
    · intro g t' hg hprom hvalid hrests' hev hset
      refine ⟨hvalid, hrests', h.evolves.trans hev, fun j hj x hx hxprom => ?_, fun hno => ?_⟩
      · rcases Nat.lt_succ_iff_lt_or_eq.mp hj with hj | rfl
        · rcases hev.gcd j with heq | ⟨g', -, -, hg'⟩
          · exact h.done j hj x (heq ▸ hx) hxprom
          · rw [hg'] at hx
            cases hx
            exact not_promotable_promoted g' hxprom
        · rw [hset] at hx
          cases hx
          exact not_promotable_promoted g hxprom
      · exact absurd hprom (hno g (h.evolves.gcd.promotable (mem_of_getElem? hg) hprom))
  · intro promoted s' h
    refine ⟨h.valid, h.rests, h.evolves, fun g hg hprom => ?_, h.unpromoted⟩
    obtain ⟨j, hj⟩ := mem_iff_getElem?.mp hg
    have hlt := (List.getElem?_eq_some_iff.mp hj).1
    rw [h.evolves.gcd.length] at hlt
    exact h.done j (by omega) g hj hprom

end

/-! ## the search -/

def FoundBelow (s : PageState) (max pages align start : Nat) : Prop :=
  ∃ max' min, max' ≤ max ∧ coreFindFreePagesI s.gMemoryMap max' min pages align = start

section
variable {arch : Arch} {outer : Bool} {freeStack : PageProg Unit} {s s' : PageState}
  {max pages type align : Nat} {Q : Nat → PageState → Prop}

lemma wp_searchBins {E : PageFault → PageState → Prop}
    (h : ∀ start base, (start ≠ 0 → FoundBelow s max pages align start) →
      Q start { s with mDefaultBaseAddress := base }) :
    wp (searchBins max pages type align) Q E s := by
  have hbin : searchBin s max pages type align ≠ 0 →
      FoundBelow s max pages align (searchBin s max pages type align) := by
    unfold searchBin
    split_ifs with hmax
    · exact fun _ => ⟨_, _, hmax.2, rfl⟩
    · exact fun hne => absurd rfl hne
  have hdefault : searchDefault s max pages align ≠ 0 →
      FoundBelow s max pages align (searchDefault s max pages align) := by
    unfold searchDefault
    split_ifs with hmax
    · exact fun _ => ⟨_, _, hmax, rfl⟩
    · exact fun hne => absurd rfl hne
  unfold searchBins
  rw [wp_bind, wp_gets]
  dsimp only [id]
  split_ifs
  · exact h _ s.mDefaultBaseAddress hbin
  · rw [wp_bind, wp_modify]
    exact h _ _ hdefault
  · exact h _ s.mDefaultBaseAddress fun _ => ⟨_, _, le_rfl, rfl⟩

/-- one turn of the search; it is repeated only after memory was promoted -/
lemma wp_findFreePages_turn (hfree : FreeStackOk arch outer freeStack) (hs : Valid arch s)
    (hrests : Rests outer s) (fuel : Nat)
    (h : ∀ start s', Valid arch s' → Rests outer s' → Evolves arch Nobody s s' →
      (start ≠ 0 → FoundBelow s' max pages align start) → Q start s')
    (hagain : ∀ s', Valid arch s' → Rests outer s' → Evolves arch Nobody s s' → NoPromotable arch s' →
      ¬ NoPromotable arch s → wp (findFreePages arch freeStack max pages type align fuel) Q onlyAsserts s') :
    wp (findFreePages arch freeStack max pages type align (fuel + 1)) Q onlyAsserts s := by
  unfold findFreePages
  rw [wp_bind]
  refine wp_searchBins fun start base hfound => ?_
  have hs1 : Valid arch { s with mDefaultBaseAddress := base } := hs.of_eq rfl rfl rfl
  have hev1 : Evolves arch Nobody s { s with mDefaultBaseAddress := base } :=
    Evolves.of_eq rfl rfl rfl (SameBins.of_eq rfl rfl rfl)
  split_ifs with hstart
  · exact h start _ hs1 hrests hev1 hfound
  refine wp_seq (wp_promoteMemoryResource hfree hs1 hrests) ?_
  intro promoted s2 ⟨hs2, hrests2, hev2, hno, hfalse⟩
  split_ifs with hpromoted
  · exact hagain s2 hs2 hrests2 (hev1.trans hev2) hno fun hno =>
      Bool.false_ne_true ((hfalse hno).symm.trans hpromoted)
  · exact h 0 s2 hs2 hrests2 (hev1.trans hev2) (fun hne => absurd rfl hne)

/-- **`FindFreePages`**: two turns suffice, because all the untested memory is promoted at once -/
theorem wp_findFreePages (hfree : FreeStackOk arch outer freeStack) (hs : Valid arch s) (hrests : Rests outer s)
    (h : ∀ start s', Valid arch s' → Rests outer s' → Evolves arch Nobody s s' →
      (start ≠ 0 → FoundBelow s' max pages align start) → Q start s') :
    wp (findFreePages arch freeStack max pages type align 2) Q onlyAsserts s := by
  refine wp_findFreePages_turn hfree hs hrests 1 h fun s2 hs2 hrests2 hev2 hno _ => ?_
  exact wp_findFreePages_turn hfree hs2 hrests2 0
    (fun start s3 hs3 hrests3 hev3 => h start s3 hs3 hrests3 (hev2.trans hev3))
    fun _ _ _ _ _ hyes => absurd hno hyes

lemma coreFindFreePagesI_lt (map : List MapNode) (max min pages align : Nat) :
    coreFindFreePagesI map max min pages align < 2^64 := by
  unfold coreFindFreePagesI sub64
  dsimp only
  split_ifs <;> omega

/-- what happens to the map when pool pages are requested in `s` -/
inductive PoolPages (arch : Arch) (outer : Bool) (type pages align : Nat) (s : PageState) :
    Nat → PageState → Prop where
  /-- no address was found -/
  | notFound {s' : PageState} (hs' : Valid arch s') (hrests : Rests outer s') (hev : Evolves arch Nobody s s') :
      PoolPages arch outer type pages align s 0 s'
  /-- the address could not be converted, and is returned nevertheless -/
  | ignored {start : Nat} {s' : PageState} (hne : start ≠ 0) (hs' : Valid arch s') (hrests : Rests outer s')
      (hev : Evolves arch Nobody s s') (hfound : FoundBelow s' arch.maxAllocAddress pages align start) :
      PoolPages arch outer type pages align s start s'
  | converted {start : Nat} {s₁ t s' : PageState} {v : Label} (hne : start ≠ 0) (hs₁ : Valid arch s₁)
      (hev : Evolves arch Nobody s s₁)
      (hfound : FoundBelow s₁ arch.maxAllocAddress pages align start) (hpages : pages ≠ 0)
      (hlt : start < requestEnd start pages)
      (hconv : Converted arch outer (.type type) (requestEnd start pages) start (requestEnd start pages) s₁ t s' v) :
      PoolPages arch outer type pages align s start s'

/-- **`CoreAllocatePoolPages`** -/
theorem wp_coreAllocatePoolPages (htype : type ≠ efiConventionalMemory)
    (hfree : FreeStackOk arch outer freeStack) (hs : Valid arch s) (hrests : Rests outer s)
    (h : ∀ start s', PoolPages arch outer type pages align s start s' → Q start s') :
    wp (coreAllocatePoolPages arch freeStack type pages align) Q onlyAsserts s := by
  unfold coreAllocatePoolPages
  rw [wp_bind]
  refine wp_findFreePages hfree hs hrests fun start s1 hs1 hrests1 hev1 hfound => ?_
  split_ifs with hzero
  · exact h 0 s1 (.notFound hs1 hrests1 hev1)
  obtain ⟨max', min, hmax, hstart⟩ := hfound hzero
  have hlt : start < 2^64 := hstart ▸ coreFindFreePagesI_lt _ _ _ _ _
  rw [wp_bind]
  refine wp_coreConvertPages_alloc htype hfree hs1 hlt ?_ ?_
  · exact fun e => h start s1 (.ignored hzero hs1 hrests1 hev1 (hfound hzero))
  · exact fun t s' v hne hlt' hconv =>
      h start s' (.converted hzero hs1 hev1 (hfound hzero) hne hlt' hconv)

/-! ## the stack of new descriptors -/

variable {t : PageState} {start end_ rangeEnd : Nat} {v : Label}

lemma Converted.background (h : Converted arch outer (.type efiBootServicesData) end_ start rangeEnd s t s' v) :
    Evolves arch Nobody s s' := by
  have hconv : v.1 = efiConventionalMemory := (h.allowed.1 (by decide)).2
  refine (h.evolves_mid fun a _ => ?_).trans h.evolves
  rw [h.mid]
  by_cases hin : start ≤ a ∧ a ≤ rangeEnd
  · rw [paint_inside hin, h.before a hin]
    exact .inr (.inl ⟨v.2, by rw [← hconv], rfl⟩)
  · rw [paint_outside hin]
    exact .inl rfl

lemma PoolPages.background (h : PoolPages arch outer efiBootServicesData pages align s start s') :
    Valid arch s' ∧ Rests outer s' ∧ Evolves arch Nobody s s' := by
  cases h with
  | notFound hs' hrests hev => exact ⟨hs', hrests, hev⟩
  | ignored _ hs' hrests hev _ => exact ⟨hs', hrests, hev⟩
  | converted _ hs1 hev _ _ _ hconv => exact ⟨hconv.valid, hconv.rests, hev.trans hconv.background⟩

lemma entriesPerPage (arch : Arch) :
    2 * maxMapDepth ≤ arch.defaultPageAllocationGranularity / arch.sizeofMemoryMap := by
  cases arch <;> decide

lemma wp_refillFreeEntries {Q : Bool → PageState → Prop} (hs : Valid arch s) (hnone : ∀ s', Q false s')
    (hfound : ∀ s', Valid arch s' → Evolves arch Nobody s s' → 2 * maxMapDepth ≤ s'.freeEntries → Q true s') :
    wp (refillFreeEntries arch) Q onlyAsserts s := by
  unfold refillFreeEntries
  rw [wp_bind]
  refine wp_coreAllocatePoolPages (by decide) (freeStackOk_pure arch) hs nofun fun page s1 hpool => ?_
  obtain ⟨hs1, -, hev1⟩ := hpool.background
  split_ifs with hpage
  · exact hnone _
  · rw [wp_bind, wp_modify]
    exact hfound _ (hs1.of_eq rfl rfl rfl) (hev1.trans (Evolves.of_eq rfl rfl rfl (SameBins.of_eq rfl rfl rfl)))
      ((entriesPerPage arch).trans (le_add_left _ _))

lemma wp_allocateMemoryMapEntry {Q : Bool → PageState → Prop} (hs : Valid arch s) (hnone : ∀ s', Q false s')
    (hfound : ∀ s', Valid arch s' → Evolves arch Nobody s s' →
      (s'.mMapDepth = s.mMapDepth ∧ s.freeEntries = s'.freeEntries + 1 ∨
        s.freeEntries = 0 ∧ 2 * maxMapDepth ≤ s'.freeEntries + 1) → Q true s') :
    wp (allocateMemoryMapEntry arch) Q onlyAsserts s := by
  unfold allocateMemoryMapEntry
  rw [wp_bind, wp_gets, wp_bind]
  split_ifs with hzero
  · refine wp_refillFreeEntries hs (fun s' => ?_) fun s1 hs1 hev1 hroom => ?_
    · rw [wp_bind, wp_modify]
      exact hnone _
    · rw [wp_bind, wp_modify, if_pos rfl]
      refine hfound _ (hs1.of_eq rfl rfl rfl) (hev1.trans (Evolves.of_eq rfl rfl rfl (SameBins.of_eq rfl rfl rfl))) (.inr ⟨hzero, ?_⟩)
      show 2 * maxMapDepth ≤ s1.freeEntries - 1 + 1
      omega
  · rw [wp_pure, wp_bind, wp_modify, if_pos rfl]
    refine hfound _ (hs.of_eq rfl rfl rfl) (Evolves.of_eq rfl rfl rfl (SameBins.of_eq rfl rfl rfl)) (.inl ⟨rfl, ?_⟩)
    show s.freeEntries = s.freeEntries - 1 + 1
    omega

/-- **a descriptor leaves the stack** -/
theorem popEntry_spec (hs : Valid arch s) :
    Valid arch (popEntry s) ∧ Evolves arch Nobody s (popEntry s) ∧
      (popEntry s).mMapDepth = s.mMapDepth - 1 ∧ s.freeEntries ≤ (popEntry s).freeEntries ∧
      pageAt (popEntry s) = pageAt s := by
  have hmap : MapOk s.gMemoryMap (s.mMapDepth - 1 + 1) (pageAt s) :=
    ⟨hs.map.spans, hs.map.paged, fun n hn i hi => by
      have := hs.map.stack.lt n hn i hi
      omega, hs.map.stack.unique⟩
  have hlt := hs.depth
  unfold popEntry
  cases ht : takeStack (s.mMapDepth - 1) s.gMemoryMap with
  | none =>
    refine ⟨⟨?_, by show s.mMapDepth - 1 < maxMapDepth; omega, hs.gcd⟩,
      Evolves.of_eq rfl rfl rfl (SameBins.of_eq rfl rfl rfl), rfl, le_succ _, rfl⟩
    exact ⟨hmap.spans, hmap.paged, hmap.stack.lower (takeStack_none ht)⟩
  | some r =>
    obtain ⟨n, rest⟩ := r
    have hheap := hmap.toHeap ht
    have hpage : pageAt { s with gMemoryMap := insertHeap n.entry rest, mMapDepth := s.mMapDepth - 1 } =
        pageAt s := pageAt_of_mapOk hheap rfl
    refine ⟨⟨?_, by show s.mMapDepth - 1 < maxMapDepth; omega, ?_⟩, ⟨⟨fun a _ => .inl (by rw [hpage]),
      fun a ha => False.elim ha, fun a ha => False.elim ha, GcdEvolves.refl _, le_rfl,
      fun hne => absurd hpage hne, fun a attr hp => .inl hp⟩, SameBins.of_eq rfl rfl rfl⟩, rfl, le_rfl, hpage⟩
    · rw [hpage]
      exact hheap
    · rw [hpage]
      exact hs.gcd

/-- the loop ends: there are enough free descriptors, or one more page of them is enough -/
lemma wp_freeStackLoop (fuel : Nat) (hs : Valid arch s)
    (hfuel : (s.mMapDepth ≤ s.freeEntries ∧ s.mMapDepth ≤ fuel) ∨ s.mMapDepth + maxMapDepth ≤ fuel) :
    wp (freeStackLoop arch fuel)
      (fun _ s' => Valid arch s' ∧ s'.mMapDepth = 0 ∧ Evolves arch Nobody s s') onlyAsserts s := by
  induction fuel generalizing s with
  | zero =>
    have hd : s.mMapDepth = 0 := by omega
    unfold freeStackLoop
    rw [wp_bind, wp_gets, wp_stopIf]
    exact ⟨fun h => absurd hd h, fun _ => ⟨hs, hd, Evolves.refl s⟩⟩
  | succ fuel ih =>
    unfold freeStackLoop
    rw [wp_bind, wp_gets]
    split_ifs with hd
    · exact ⟨hs, hd, Evolves.refl s⟩
    rw [wp_bind]
    refine wp_allocateMemoryMapEntry hs ?_ ?_
    · intro s'
      rw [wp_bind, wp_stopIf]
      exact ⟨fun _ => rfl, fun h => absurd rfl h⟩
    · intro s1 hs1 hev1 hfree
      refine wp_stopIf_bind nofun fun _ => ?_
      obtain ⟨hs2, hev2, hdepth2, hfree2, -⟩ := popEntry_spec hs1
      have hlt := hs1.depth
      refine wp_post (ih hs2 ?_) ?_
      · unfold maxMapDepth at *
        omega
      · intro _ s3 ⟨hs3, hd3, hev3⟩
        exact ⟨hs3, hd3, (hev1.trans hev2).trans hev3⟩

/-- **`CoreFreeMemoryMapStack` empties the stack** -/
theorem freeStackOk (arch : Arch) : FreeStackOk arch true (coreFreeMemoryMapStack arch) := by
  intro s hs
  have hlt := hs.depth
  refine wp_post (wp_freeStackLoop _ hs (.inr (by omega))) ?_
  intro _ s' ⟨hs', hd, hev⟩
  exact ⟨hs', fun _ => hd, hev⟩

end

end Audk.Mem
