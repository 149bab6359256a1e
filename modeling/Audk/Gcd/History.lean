import Audk.Gcd.Calls

/-!
# Histories of the GCD maps

Calls of `CoreConvertSpace`, `CoreAllocateSpace` and `CoreAddMemorySpace`, one after the other, from the maps
with one entry each.

* `addEachPage_spec`, `coreAddMemorySpace_spec`: what is added is given to the page allocator;
* `gcdMaps_history`: the maps stay partitions, and a call that fails leaves them alone, if and only if no
  range that is converted wraps around and no system memory without a whole page is added.
-/

namespace Audk.Gcd

open Prog Mem Regions List Option Nat

/-! ## the environment -/

/-- untested memory may be promoted; entries are not moved -/
def Promotes : List MapEntry → List MapEntry → Prop :=
  List.Forall₂ fun e e' => e' = e ∨
    (e.gcdMemoryType = .reserved ∧ e'.baseAddress = e.baseAddress ∧ e'.endAddress = e.endAddress)

structure Env.Ok (env : Env) : Prop where
  image : env.gImageHandle ≠ 0
  promotes : ∀ base pages capabilities map, Promotes map (env.coreAddMemoryDescriptor base pages capabilities map)

section
variable {map map' : List MapEntry} {a b p : Nat} {k : Kind}

lemma Promotes.ranges (h : Promotes map map') (hm : Ranges map a b) : Ranges map' a b := by
  induction h generalizing a with
  | nil => exact hm
  | @cons e e' es es' he _ ih =>
    have hbounds : e'.baseAddress = e.baseAddress ∧ e'.endAddress = e.endAddress := by
      rcases he with rfl | ⟨-, hb⟩
      · exact ⟨rfl, rfl⟩
      · exact hb
    obtain ⟨h1, h2, h3⟩ := ranges_cons.mp hm
    refine ranges_cons.mpr ⟨hbounds.1.trans h1, ?_, ?_⟩
    · rw [hbounds.1, hbounds.2]
      exact h2
    · rw [hbounds.2]
      exact ih h3

lemma Promotes.kindAt (h : Promotes map map') (hk : Gcd.kindAt map p = some k) (hne : k.2.2.1 ≠ .reserved) :
    Gcd.kindAt map' p = some k := by
  induction h with
  | nil => exact hk
  | @cons e e' es es' he _ ih =>
    by_cases hp : e.Covers p
    · rw [kindAt_cons_of_covers hp] at hk
      cases hk
      rcases he with rfl | ⟨hres, -⟩
      · exact kindAt_cons_of_covers hp
      · exact absurd hres hne
    · rw [kindAt_cons_of_not hp] at hk
      have hp' : ¬ e'.Covers p := by
        rcases he with rfl | ⟨-, h1, h2⟩
        · exact hp
        · unfold GcdMapEntry.Covers at hp ⊢
          rwa [h1, h2]
      rw [kindAt_cons_of_not hp']
      exact ih hk

end

/-! ## memory of the DXE core -/

def Free (map : List MapEntry) (type : GcdMemoryType) (lo hi : Nat) : Prop :=
  ∀ p, lo ≤ p → p < hi → ∃ k, kindAt map p = some k ∧ k.2.2.1 = type ∧ k.2.2.2.2.1 = 0

section
variable {env : Env} {map before range after : List MapEntry} {type : GcdMemoryType} {base length last stop i k : Nat}
  {e : MapEntry}

lemma Found.overlaps (h : Found map base last i k before range after) (hm : Ranges map 0 stop) (he : e ∈ range) :
    e.baseAddress ≤ last ∧ base ≤ e.endAddress := by
  obtain ⟨m, n, -, hr, -⟩ := h.ranges hm
  obtain ⟨e0, es, hcons, hb⟩ := h.covers_base
  obtain ⟨es', f, hsnoc, hl⟩ := h.covers_last
  have hsorted := Chain.sorted hr
  rw [pairwise_map] at hsorted
  constructor
  · have hs := hsnoc ▸ hsorted
    rw [hsnoc] at he
    rcases mem_append.mp he with he' | he'
    · have h1 : e.endAddress < f.baseAddress := (pairwise_append.mp hs).2.2 e he' f (mem_singleton.mpr rfl)
      have h2 := (hr.bounds (hsnoc ▸ he)).2.1
      have h3 := hl.1
      omega
    · rw [mem_singleton.mp he']
      exact hl.1
  · have hs := hcons ▸ hsorted
    rw [hcons] at he
    rcases mem_cons.mp he with rfl | he'
    · exact hb.2
    · have h1 : e0.endAddress < e.baseAddress := (pairwise_cons.mp hs).1 e he'
      have h2 := (hr.bounds (hcons ▸ he)).2.1
      have h3 := hb.2
      omega

lemma lastAddress_add_one (hfit : base + length ≤ stop) (hstop : stop ≤ 2^63) (hne : length ≠ 0) :
    lastAddress base length + 1 = base + length := by
  have hb : base < 2^64 := by omega
  have hl : length < 2^64 := by omega
  rcases lastAddress_eq hb hl hne with ⟨-, h⟩ | ⟨h, -, -⟩
  · exact h
  · omega

lemma Free.entries (hfree : Free map type base (base + length)) (hm : Ranges map 0 stop)
    (hlast : lastAddress base length + 1 = base + length) (hne : length ≠ 0)
    (hf : Found map base (lastAddress base length) i k before range after) (he : e ∈ range) :
    e.gcdMemoryType = type ∧ e.imageHandle = 0 := by
  obtain ⟨h1, h2⟩ := hf.overlaps hm he
  have hmem : e ∈ map := by
    rw [hf.eq]
    exact mem_append_left _ (mem_append_right _ he)
  have h3 := (hm.bounds hmem).2.1
  obtain ⟨k, hk, ht, hi⟩ := hfree (max e.baseAddress base) (le_max_right _ _) (by omega)
  rw [hm.kindAt_of_mem hmem ⟨le_max_left _ _, by omega⟩] at hk
  cases hk
  exact ⟨ht, hi⟩

lemma ownPages_space (henv : env.Ok) (hm : Ranges map 0 stop) (hstop : stop ≤ 2^63) (hd : efiPageSize ∣ base)
    (hfit : base + length ≤ stop) (hne : length ≠ 0) (hfree : Free map type base (base + length)) :
    ∃ i k, (ownPages env type base length).space map = .ok (.ok (i, k, base), some base) ∧
      ∃ before range after, Found map base (lastAddress base length) i k before range after ∧
        ∀ e ∈ range, e.gcdMemoryType = type ∧ e.imageHandle = 0 := by
  have hlast := lastAddress_add_one hfit hstop hne
  have hbase : base ≤ lastAddress base length := by omega
  have hlast' : lastAddress base length < stop := by omega
  obtain ⟨i, k, hs⟩ := coreSearchGcdMapEntry_isSome hm hbase hlast'
  obtain ⟨before, range, after, hf⟩ := coreSearchGcdMapEntry_found hm hs
  have hkind (e : MapEntry) (he : e ∈ range) : e.gcdMemoryType = type ∧ e.imageHandle = 0 :=
    hfree.entries hm hlast hne hf he
  have hcheck : range.findSome? (coreAllocateSpaceCheckEntry .allocateMemory type .nonExistent) = none := by
    refine List.findSome?_eq_none_iff.mpr fun e he => ?_
    obtain ⟨ht, hi⟩ := hkind e he
    unfold coreAllocateSpaceCheckEntry
    rw [if_neg (not_not_intro hi)]
    exact if_neg (not_not_intro ht)
  have hfind : findSpace .address (coreAllocateSpaceCheckEntry .allocateMemory type .nonExistent) 12 length base map =
      .ok (.ok (i, k), base) := by
    have hmod : base % 2^12 = 0 := mod_eq_zero_of_dvd hd
    unfold findSpace allocateAt
    rw [if_pos rfl, if_neg (not_not_intro hmod), hs]
    dsimp only
    rw [hf.between, hcheck]
  refine ⟨i, k, ?_, before, range, after, hf, hkind⟩
  unfold AllocateArgs.space ownPages
  dsimp only
  rw [if_neg henv.image, if_neg (by decide), if_neg hne, hfind]
  rfl

lemma Free.mono {lo hi lo' hi' : Nat} (h : Free map type lo hi) (hlo : lo ≤ lo') (hhi : hi' ≤ hi) :
    Free map type lo' hi' := fun p h1 h2 => h p (hlo.trans h1) (h2.trans_le hhi)

lemma Free.promotes {map' : List MapEntry} {lo hi : Nat} (h : Free map type lo hi) (hne : type ≠ .reserved)
    (hp : Promotes map map') : Free map' type lo hi := by
  intro p h1 h2
  obtain ⟨k, hk, ht, hi⟩ := h p h1 h2
  exact ⟨k, hp.kindAt hk (ht ▸ hne), ht, hi⟩

end

/-- the state between two calls of the services -/
structure Ready (stop : Space → Nat) (s : GcdState) : Prop where
  whole : Whole stop s
  pos : ∀ space, 0 < stop space
  le : ∀ space, stop space ≤ 2^63

section
variable {env : Env} {stop : Space → Nat} {s : GcdState} {type : GcdMemoryType} {base length capabilities : Nat}

def HasType (map : List MapEntry) (p : Nat) (type : GcdMemoryType) : Prop :=
  ∃ k, kindAt map p = some k ∧ k.2.2.1 = type

lemma HasType.promotes {map map' : List MapEntry} {p : Nat} (h : HasType map p type) (hne : type ≠ .reserved)
    (hp : Promotes map map') : HasType map' p type := by
  obtain ⟨k, hk, ht⟩ := h
  exact ⟨k, hp.kindAt hk (ht ▸ hne), ht⟩

lemma ownPages_run (henv : env.Ok) (hs : Ready stop s) (hd : efiPageSize ∣ base)
    (hfit : base + length ≤ stop .memory) (hne : length ≠ 0)
    (hfree : Free (s.maps .memory) type base (base + length)) :
    (env.spare s.attempts = false ∧ coreAllocateSpace env (ownPages env type base length) s =
      (.ok (some .outOfResources, some base), { s with attempts := s.attempts + 1 })) ∨
    (env.spare s.attempts = true ∧ ∃ map', coreAllocateSpace env (ownPages env type base length) s =
        (.ok (none, some base), ({ s with attempts := s.attempts + 1 } : GcdState).setMap .memory map') ∧
      Ranges map' 0 (stop .memory) ∧
      (∀ p, ¬ (base ≤ p ∧ p < base + length) → kindAt map' p = kindAt (s.maps .memory) p) ∧
      ∀ p, HasType (s.maps .memory) p type → HasType map' p type) := by
  have hle := hs.le .memory
  obtain ⟨i, k, hspace, before, range, after, hf, hkind⟩ := ownPages_space henv (hs.whole .memory) hle hd hfit hne hfree
  cases hspare : env.spare s.attempts with
  | false => exact .inl ⟨rfl, coreAllocateSpace_noSpare hspace hspare⟩
  | true =>
    have hlen : length < 2^64 := by omega
    obtain ⟨map', hmap, hranges, houtside, hinside⟩ := convertRange_ranges
      (keepsBounds_allocate (ownPages env type base length)) (hs.whole .memory) (by omega) hlen hne hf (by omega) 0
    refine .inr ⟨rfl, map', coreAllocateSpace_found hspace hspare hmap, hranges, houtside, fun p hp => ?_⟩
    by_cases hin : base ≤ p ∧ p < base + length
    · obtain ⟨es1, e, es2, rfl, -, hx⟩ := hinside p hin.1 hin.2
      exact ⟨_, hx, (hkind e (by simp)).1⟩
    · obtain ⟨k, hk, ht⟩ := hp
      exact ⟨k, (houtside p hin).trans hk, ht⟩

lemma Ready.of_whole {s' : GcdState} (hs : Ready stop s) (h : Whole stop s') : Ready stop s' := ⟨h, hs.pos, hs.le⟩

variable {E : GcdFault → GcdState → Prop}

lemma wp_addPages {Q : Unit → GcdState → Prop} (henv : env.Ok)
    (hs : Ready stop s) (pages : Nat)
    (h : ∀ s', Ready stop s' → s'.attempts = s.attempts → Promotes (s.maps .memory) (s'.maps .memory) → Q () s') :
    wp (addPages env base pages capabilities) Q E s := by
  unfold addPages
  have hp := henv.promotes base pages capabilities (s.maps .memory)
  refine h _ (hs.of_whole (hs.whole.setMap (hp.ranges (hs.whole .memory)))) rfl ?_
  exact hp

lemma wp_addPage {Q : Option Status → GcdState → Prop} (henv : env.Ok)
    (hne : type ≠ .reserved) (n : Nat) (status : Option Status) (hs : Ready stop s) (hd : efiPageSize ∣ base)
    (hfit : base + efiPageSize ≤ stop .memory) (hfree : Free (s.maps .memory) type base (base + efiPageSize))
    (h : ∀ s', Ready stop s' → s'.attempts = s.attempts + 1 →
      (∀ hi, Free (s.maps .memory) type (base + efiPageSize) hi →
        Free (s'.maps .memory) type (base + efiPageSize) hi) →
      (∀ p, HasType (s.maps .memory) p type → HasType (s'.maps .memory) p type) →
      wp (addEachPage env type capabilities n (base + efiPageSize)
        (if env.spare s.attempts = true then none else some .outOfResources)) Q E s') :
    wp (addEachPage env type capabilities (n + 1) base status) Q E s := by
  have hle := hs.le .memory
  have hmod : (base + efiPageSize) % 2^64 = base + efiPageSize := mod_eq_of_lt (by omega)
  unfold addEachPage
  rw [wp_bind]
  rcases ownPages_run henv hs hd hfit (by decide) hfree with ⟨hspare, hrun⟩ | ⟨hspare, map', hrun, hranges, hkinds, htypes⟩
  · refine wp_of_ok hrun ?_
    dsimp only
    rw [if_neg (some_ne_none _), hmod]
    have hnext := h { s with attempts := s.attempts + 1 } (hs.of_whole hs.whole) rfl (fun hi hf => hf) fun p hp => hp
    rw [hspare] at hnext
    exact hnext
  · refine wp_of_ok hrun ?_
    dsimp only
    rw [if_pos rfl, wp_bind, hmod]
    have hs' : Ready stop (({ s with attempts := s.attempts + 1 } : GcdState).setMap .memory map') :=
      hs.of_whole (Whole.setMap (s := { s with attempts := s.attempts + 1 }) hs.whole hranges)
    refine wp_addPages henv hs' 1 fun s'' hs'' hatt hp => ?_
    rw [setMap_maps_same] at hp
    have hnext := h s'' hs'' hatt (fun hi hf => ?_) fun p htype => (htypes p htype).promotes hne hp
    · rw [hspare] at hnext
      exact hnext
    · refine Free.promotes ?_ hne hp
      intro p h1 h2
      rw [hkinds p (by omega)]
      exact hf p h1 h2

/-- **page after page**: the status is that of the last page -/
theorem wp_addEachPage (henv : env.Ok) (hne : type ≠ .reserved) (n : Nat)
    (status : Option Status) (hs : Ready stop s) (hd : efiPageSize ∣ base)
    (hfit : base + (n + 1) * efiPageSize ≤ stop .memory)
    (hfree : Free (s.maps .memory) type base (base + (n + 1) * efiPageSize)) :
    wp (addEachPage env type capabilities (n + 1) base status)
      (fun r s' => r = (if env.spare (s.attempts + n) = true then none else some .outOfResources) ∧
        Whole stop s' ∧ ∀ p, HasType (s.maps .memory) p type → HasType (s'.maps .memory) p type) E s := by
  induction n generalizing base s status with
  | zero =>
    refine wp_addPage henv hne 0 status hs hd hfit hfree fun s' hs' _ _ htypes => ?_
    exact ⟨rfl, hs'.whole, htypes⟩
  | succ n ih =>
    have hmul : (n + 1 + 1) * efiPageSize = efiPageSize + (n + 1) * efiPageSize := by
      rw [succ_mul (n + 1), add_comm]
    rw [hmul, ← add_assoc] at hfit hfree
    refine wp_addPage henv hne (n + 1) status hs hd (by omega) (hfree.mono le_rfl (by omega)) ?_
    intro s' hs' hatt hf htypes
    have hrest := ih (if env.spare s.attempts = true then none else some .outOfResources) hs'
      (dvd_add hd (dvd_refl _)) hfit (hf _ (hfree.mono (by omega) le_rfl))
    rw [hatt, show s.attempts + 1 + n = s.attempts + (n + 1) by omega] at hrest
    refine wp_post hrest ?_
    intro r s'' ⟨hr, hw, htypes'⟩
    exact ⟨hr, hw, fun p hp => htypes' p (htypes p hp)⟩

/-! ## `CoreAddMemorySpace` -/

def IsSystem (type : GcdMemoryType) : Prop := type = .systemMemory ∨ type = .moreReliable

instance (type : GcdMemoryType) : Decidable (IsSystem type) := inferInstanceAs (Decidable (_ ∨ _))

def wholePages (base length : Nat) : Nat := (alignDown 12 (base + length) - pageAlignAddress base) / efiPageSize

variable {e : Status}

lemma pageAlignAddress_spec (h : base ≤ 2^63) :
    base ≤ pageAlignAddress base ∧ efiPageSize ∣ pageAlignAddress base ∧ pageAlignAddress base < base + efiPageSize := by
  unfold pageAlignAddress alignDown efiPageSize
  omega

lemma pageAlignLength_spec (h : base + length ≤ 2^63) (hle : pageAlignAddress base ≤ alignDown 12 (base + length)) :
    pageAlignLength (sub64 ((base + length) % 2^64) (pageAlignAddress base)) = wholePages base length * efiPageSize ∧
    pageAlignAddress base + wholePages base length * efiPageSize = alignDown 12 (base + length) ∧
    alignDown 12 (base + length) ≤ base + length := by
  unfold wholePages pageAlignLength pageAlignAddress alignDown sub64 efiPageSize at *
  omega

lemma free_added (hs : Whole stop s) (hstop : ∀ space, stop space ≤ 2^63) (hlen : length < 2^64)
    (h : (addArgs type base length capabilities).refused env s = none) (hfit : base + length ≤ 2^64) :
    ∃ map', coreConvertSpace env (addArgs type base length capabilities) s =
        (.ok none, ({ s with attempts := s.attempts + 1 } : GcdState).setMap .memory map') ∧
      Ranges map' 0 (stop .memory) ∧ base + length ≤ stop .memory ∧ length ≠ 0 ∧
      Free map' type base (base + length) := by
  obtain ⟨map', range, hrun, hranges, hle, hne, hconverted⟩ := coreConvertSpace_fits hs
    (fun space => (hstop space).trans (by norm_num)) hlen h hfit
  refine ⟨map', hrun, hranges, hle, hne, fun p h1 h2 => ?_⟩
  obtain ⟨es1, e, es2, rfl, -, hkind⟩ := hconverted.inside p h1 h2
  have hcheck := (hconverted.sub e (by simp)).2.1
  refine ⟨_, hkind, rfl, ?_⟩
  by_contra himage
  have hdenied : (addArgs type base length capabilities).check e = some .accessDenied := if_pos (.inr himage)
  rw [hdenied] at hcheck
  cases hcheck

lemma added_ne {map' : List MapEntry} (hs : Whole stop s) (hne : type ≠ .nonExistent)
    (htype : HasType map' base type)
    (h : (addArgs type base length capabilities).refused env s = none) : map' ≠ s.maps .memory := by
  obtain ⟨i, k, -, hsearch, hcheck, -⟩ := coreConvertSpace_accepted h
  obtain ⟨before, range, after, hf⟩ := coreSearchGcdMapEntry_found (hs .memory) hsearch
  obtain ⟨e, es, hrange, he⟩ := hf.covers_base
  have hmem : e ∈ s.maps .memory := by
    rw [hf.eq, hrange]
    simp
  have hnone := hcheck e (by
    show e ∈ between (s.maps .memory) i k
    rw [hf.between, hrange]
    exact mem_cons_self)
  rintro rfl
  obtain ⟨kind, hkind, htype⟩ := htype
  have hold := (hs .memory).kindAt_of_mem hmem he
  cases hold.symm.trans hkind
  have hdenied : (addArgs type base length capabilities).check e = some .accessDenied :=
    if_pos (.inl fun h => hne (htype.symm.trans h))
  rw [hdenied] at hnone
  cases hnone

/-! ## calls -/

inductive Call where
  | convertSpace (a : ConvertArgs)
  | allocateSpace (a : AllocateArgs)
  | addMemorySpace (type : Option GcdMemoryType) (base length capabilities : Nat)

def Call.run (env : Env) : Call → GcdProg (Option Status)
  | .convertSpace a => coreConvertSpace env a
  | .allocateSpace a => do
    let r ← coreAllocateSpace env a
    pure r.1
  | .addMemorySpace type base length capabilities => coreAddMemorySpace env type base length capabilities

def Call.Words : Call → Prop
  | .convertSpace a => a.baseAddress < 2^64 ∧ a.length < 2^64
  | .allocateSpace a => a.length < 2^64 ∧ ∀ b, a.baseAddress = some b → b < 2^64
  | .addMemorySpace _ base length _ => base < 2^64 ∧ length < 2^64

/-- the maps are partitions afterwards, and an error leaves them alone -/
def Sound (env : Env) (stop : Space → Nat) (c : Call) (s : GcdState) : Prop :=
  ∃ r s', c.run env s = (.ok r, s') ∧ (∀ space, IsPartition (s'.maps space) (stop space)) ∧
    (r ≠ none → s'.maps = s.maps)

/-- the end of a range that is converted does not wrap around, unless nothing changes; system memory that
is added has a whole page, and there was pool for all of it or for its last page -/
def Fine (env : Env) (s : GcdState) : Call → Prop
  | .convertSpace a => a.refused env s = none → a.baseAddress + a.length ≤ 2^64 ∨
      ∀ e ∈ s.maps a.operation.space, e.Covers a.baseAddress → a.KeepsKind e
  | .allocateSpace a => ∀ i k base b, a.space (s.maps a.operation.space) = .ok (.ok (i, k, base), b) →
      env.spare s.attempts = true → base + a.length ≤ 2^64
  | .addMemorySpace type base length capabilities => ∀ t, type = some t → t ≠ .nonExistent →
      (addArgs t base length capabilities).refused env s = none →
        base + length ≤ 2^64 ∧ (IsSystem t → pageAlignAddress base < alignDown 12 (base + length) ∧
          (env.spare (s.attempts + 1) = true ∨ env.spare (s.attempts + 1 + wholePages base length) = true))

/-- system memory is not added with a range that wraps around or is inside of a page -/
def Call.Tame : Call → Prop
  | .addMemorySpace (some t) base length _ => IsSystem t →
      base + length ≤ 2^64 ∧ pageAlignAddress base ≤ alignDown 12 (base + length)
  | _ => True

variable {c : Call}

lemma Whole.partitions (h : Whole stop s) (space : Space) : IsPartition (s.maps space) (stop space) :=
  (h space).isPartition

lemma not_partition {map : List MapEntry} {n : Nat} (h : ∃ x ∈ map, x.endAddress < x.baseAddress) :
    ¬ IsPartition map n := by
  intro hp
  obtain ⟨x, hx, hlt⟩ := h
  exact absurd (hp.nonempty x hx) (not_le.mpr hlt)

def Outcome (env : Env) (stop : Space → Nat) (c : Call) (s : GcdState) : Prop :=
  ∃ r s', c.run env s = (.ok r, s') ∧ Whole stop s' ∧ (r ≠ none → s'.maps = s.maps)

lemma Outcome.sound (h : Outcome env stop c s) : Sound env stop c s := by
  obtain ⟨r, s', hrun, hw, herr⟩ := h
  exact ⟨r, s', hrun, hw.partitions, herr⟩

lemma Ranges.eq_of_covers {map : List MapEntry} {m n p : Nat} {e f : MapEntry} (h : Ranges map m n) (he : e ∈ map)
    (hf : f ∈ map) (hp : e.Covers p) (hp' : f.Covers p) : e = f := by
  obtain ⟨l1, l2, rfl⟩ := append_of_mem he
  have hsorted := Chain.sorted h
  rw [pairwise_map, pairwise_append] at hsorted
  rcases mem_append.mp hf with hf | hf
  · have hlt : f.endAddress < e.baseAddress := hsorted.2.2 f hf e mem_cons_self
    exact absurd (hp.1.trans hp'.2) (not_le.mpr hlt)
  · rcases mem_cons.mp hf with rfl | hf
    · rfl
    · have hlt : e.endAddress < f.baseAddress := (pairwise_cons.mp hsorted.2.1).1 f hf
      exact absurd (hp'.1.trans hp.2) (not_le.mpr hlt)

lemma convertSpace_outcome {a : ConvertArgs} (hs : Ready stop s) (hw : (Call.convertSpace a).Words) :
    (Fine env s (.convertSpace a) → Outcome env stop (.convertSpace a) s) ∧
      (Sound env stop (.convertSpace a) s → Fine env s (.convertSpace a)) := by
  cases href : a.refused env s with
  | some e =>
    obtain ⟨n, hrun⟩ := coreConvertSpace_refused href
    exact ⟨fun _ => ⟨_, _, hrun, hs.whole, fun _ => rfl⟩, fun _ hnone => nomatch href.symm.trans hnone⟩
  | none =>
    by_cases hfit : a.baseAddress + a.length ≤ 2^64
    · obtain ⟨map', -, hrun, hranges, -⟩ := coreConvertSpace_fits hs.whole
        (fun space => (hs.le space).trans (by norm_num)) hw.2 href hfit
      refine ⟨fun _ => ⟨_, _, hrun, ?_, fun h => absurd rfl h⟩, fun _ _ => .inl hfit⟩
      exact Whole.setMap (s := { s with attempts := s.attempts + 1 }) hs.whole hranges
    obtain ⟨map', hrun, e, he, hcover, -, hsame, hother⟩ := coreConvertSpace_wraps hs.whole hs.le hw.2 href
      (not_le.mp hfit)
    constructor
    · intro hfine
      have hkeep := ((hfine href).resolve_left hfit) e he hcover
      refine ⟨_, _, hrun, ?_, fun h => absurd rfl h⟩
      rw [hsame hkeep]
      exact Whole.setMap (s := { s with attempts := s.attempts + 1 }) hs.whole (hs.whole _)
    · intro ⟨r, s', hrun', hpart, _⟩ _
      refine .inr fun f hf hcover' => ?_
      obtain rfl := (hs.whole _).eq_of_covers he hf hcover hcover'
      by_contra hkeep
      have hrun'' : coreConvertSpace env a s = (.ok r, s') := hrun'
      rw [hrun] at hrun''
      cases hrun''
      have hp := hpart a.operation.space
      rw [setMap_maps_same] at hp
      exact not_partition (hother hkeep) hp

lemma allocateSpace_outcome {a : AllocateArgs} (hs : Ready stop s) (hw : (Call.allocateSpace a).Words) :
    (Fine env s (.allocateSpace a) → Outcome env stop (.allocateSpace a) s) ∧
      (Sound env stop (.allocateSpace a) s → Fine env s (.allocateSpace a)) := by
  have hm := hs.whole a.operation.space
  have hle := hs.le a.operation.space
  obtain ⟨r, b, hspace, hfound⟩ := AllocateArgs.space_spec hm (hs.pos _) hle hw.1 hw.2
  -- the status of the call is the first half of what the function returns
  have hcall {x : Option Status × Option Nat} {s' : GcdState} (h : coreAllocateSpace env a s = (.ok x, s')) :
      (Call.allocateSpace a).run env s = (.ok x.1, s') := by
    show (coreAllocateSpace env a >>= fun r => pure r.1 : GcdProg (Option Status)) s = _
    rw [bind_of_ok h]
    rfl
  cases r with
  | error e =>
    refine ⟨fun _ => ⟨_, _, hcall (coreAllocateSpace_refused hspace), hs.whole, fun _ => rfl⟩, ?_⟩
    intro _ i k base b' h
    rw [hspace] at h
    cases h
  | ok x =>
    obtain ⟨i, k, base⟩ := x
    have hx := hfound i k base rfl
    cases hspare : env.spare s.attempts with
    | false =>
      refine ⟨fun _ => ⟨_, _, hcall (coreAllocateSpace_noSpare hspace hspare), hs.whole, fun _ => rfl⟩, ?_⟩
      intro _ i' k' base' b' _ h
      rw [hspare] at h
      cases h
    | true =>
      by_cases hfit : base + a.length ≤ 2^64
      · obtain ⟨map', hmap, hranges, -⟩ := hx.fits hm hle hw.1 hfit
        refine ⟨fun _ => ⟨_, _, hcall (coreAllocateSpace_found hspace hspare hmap), ?_, fun h => absurd rfl h⟩, ?_⟩
        · exact Whole.setMap (s := { s with attempts := s.attempts + 1 }) hs.whole hranges
        · intro _ i' k' base' b' h _
          rw [hspace] at h
          cases h
          exact hfit
      · obtain ⟨map', hmap, hbad⟩ := hx.wraps hm hle hw.1 (not_le.mp hfit)
        have hrun := hcall (coreAllocateSpace_found hspace hspare hmap)
        refine ⟨fun hfine => absurd (hfine i k base b hspace hspare) hfit, ?_⟩
        intro ⟨r, s', hrun', hpart, _⟩
        rw [hrun] at hrun'
        cases hrun'
        have hp := hpart a.operation.space
        rw [setMap_maps_same] at hp
        exact absurd hp (not_partition hbad)

section
variable {type : GcdMemoryType} {base length capabilities : Nat} {s1 s2 : GcdState}

lemma coreAddMemorySpace_plain {r : Option Status} (hne : type ≠ .nonExistent)
    (h : coreConvertSpace env (addArgs type base length capabilities) s = (.ok r, s1))
    (hr : r = none → ¬ IsSystem type) :
    coreAddMemorySpace env (some type) base length capabilities s = (.ok r, s1) := by
  have hif : ¬ (r = none ∧ (type = .systemMemory ∨ type = .moreReliable)) := fun ⟨h1, h2⟩ => hr h1 h2
  unfold coreAddMemorySpace
  cases type with
  | nonExistent => exact absurd rfl hne
  | _ =>
    dsimp only
    rw [bind_of_ok h, if_neg hif]
    rfl

lemma coreAddMemorySpace_system (hsys : IsSystem type)
    (h : coreConvertSpace env (addArgs type base length capabilities) s = (.ok none, s1)) :
    coreAddMemorySpace env (some type) base length capabilities s =
      ((coreAllocateSpace env (ownPages env type (pageAlignAddress base)
          (pageAlignLength (sub64 ((base + length) % 2^64) (pageAlignAddress base)))) >>= fun x =>
        if x.1 = none then do
          addPages env (pageAlignAddress base)
            (pageAlignLength (sub64 ((base + length) % 2^64) (pageAlignAddress base)) / efiPageSize) capabilities
          pure none
        else addEachPage env type capabilities
          (pageAlignLength (sub64 ((base + length) % 2^64) (pageAlignAddress base)) / efiPageSize)
          (pageAlignAddress base) x.1 : GcdProg (Option Status))) s1 := by
  unfold coreAddMemorySpace
  rcases hsys with rfl | rfl
  all_goals
    dsimp only
    rw [bind_of_ok h, if_pos ⟨rfl, by decide⟩]

lemma coreAddMemorySpace_noPage (hsys : IsSystem type)
    (h : coreConvertSpace env (addArgs type base length capabilities) s = (.ok none, s1))
    (hlen : pageAlignLength (sub64 ((base + length) % 2^64) (pageAlignAddress base)) = 0) :
    coreAddMemorySpace env (some type) base length capabilities s = (.ok (some .invalidParameter), s1) := by
  rw [coreAddMemorySpace_system hsys h, hlen]
  have hspace : (ownPages env type (pageAlignAddress base) 0).space (s1.maps .memory) =
      .ok (.error .invalidParameter, some (pageAlignAddress base)) := by
    unfold AllocateArgs.space ownPages
    dsimp only
    by_cases himage : env.gImageHandle = 0
    · rw [if_pos himage]
    · rw [if_neg himage, if_neg (by decide), if_pos rfl]
  rw [bind_of_ok (coreAllocateSpace_refused hspace)]
  rfl

/-- **system memory with whole pages**: the pages are allocated all at once or one by one, and the status is
that of the last attempt -/
theorem coreAddMemorySpace_pages (henv : env.Ok) (hsys : IsSystem type) (hs : Ready stop s1)
    (h : coreConvertSpace env (addArgs type base length capabilities) s = (.ok none, s1))
    (hfit : base + length ≤ stop .memory) (hfree : Free (s1.maps .memory) type base (base + length))
    (hlt : pageAlignAddress base < alignDown 12 (base + length)) :
    ∃ s2, coreAddMemorySpace env (some type) base length capabilities s =
        (.ok (if env.spare s1.attempts = true ∨ env.spare (s1.attempts + wholePages base length) = true then none
          else some .outOfResources), s2) ∧ Whole stop s2 ∧
      ∀ p, HasType (s1.maps .memory) p type → HasType (s2.maps .memory) p type := by
  have hle := hs.le .memory
  have hres : type ≠ .reserved := by
    rcases hsys with rfl | rfl <;> decide
  obtain ⟨hlen, hend, hsub⟩ := pageAlignLength_spec (hfit.trans hle) hlt.le
  have hbase : base ≤ 2^63 := by omega
  obtain ⟨hlo, hd, -⟩ := pageAlignAddress_spec hbase
  obtain ⟨n, hn⟩ : ∃ n, wholePages base length = n + 1 := by
    refine exists_eq_succ_of_ne_zero fun hzero => ?_
    rw [hzero] at hend
    omega
  rw [coreAddMemorySpace_system hsys h, hlen, Nat.mul_div_cancel _ (by decide)]
  rw [hn] at hend ⊢
  have hfree' : Free (s1.maps .memory) type (pageAlignAddress base)
      (pageAlignAddress base + (n + 1) * efiPageSize) := hfree.mono hlo (by omega)
  have hne : (n + 1) * efiPageSize ≠ 0 := mul_ne_zero (succ_ne_zero n) (by decide)
  rcases ownPages_run henv hs hd (by omega) hne hfree' with ⟨hspare, hrun⟩ | ⟨hspare, map', hrun, hranges, -, htypes⟩
  · rw [bind_of_ok hrun]
    rw [if_neg (some_ne_none _)]
    have hs' : Ready stop { s1 with attempts := s1.attempts + 1 } := hs.of_whole hs.whole
    obtain ⟨r, s2, hrun', hr, hw, htypes⟩ := wp_returns (wp_addEachPage henv hres n (some .outOfResources) hs' hd
      (by omega) hfree')
    refine ⟨s2, ?_, hw, htypes⟩
    rw [hrun', hr, hspare]
    simp only [Bool.false_eq_true, false_or, add_assoc, add_comm 1 n]
  · rw [bind_of_ok hrun, hspare]
    have hs' : Ready stop (({ s1 with attempts := s1.attempts + 1 } : GcdState).setMap .memory map') :=
      hs.of_whole (Whole.setMap (s := { s1 with attempts := s1.attempts + 1 }) hs.whole hranges)
    have hwp : wp (addPages env (pageAlignAddress base) (n + 1) capabilities)
        (fun _ s2 => Whole stop s2 ∧ Promotes map' (s2.maps .memory)) (fun _ _ => False)
        (({ s1 with attempts := s1.attempts + 1 } : GcdState).setMap .memory map') := by
      refine wp_addPages henv hs' (n + 1) fun s2 hs2 _ hp => ⟨hs2.whole, ?_⟩
      exact hp
    obtain ⟨u, s2, hrun', hw, hp⟩ := wp_returns hwp
    refine ⟨s2, ?_, hw, fun p hp' => (htypes p hp').promotes hres hp⟩
    rw [if_pos rfl, bind_of_ok hrun', if_pos (.inl rfl)]
    rfl

lemma addMemorySpace_other (hs : Ready stop s) (hw : (Call.addMemorySpace (some type) base length capabilities).Words)
    (hne : type ≠ .nonExistent) (hsys : ¬ IsSystem type)
    (h : (addArgs type base length capabilities).refused env s = none) :
    (base + length ≤ 2^64 → Outcome env stop (.addMemorySpace (some type) base length capabilities) s) ∧
      (Sound env stop (.addMemorySpace (some type) base length capabilities) s → base + length ≤ 2^64) := by
  by_cases hfit : base + length ≤ 2^64
  · refine ⟨fun _ => ?_, fun _ => hfit⟩
    obtain ⟨map', hrun, hranges, -⟩ := free_added hs.whole hs.le hw.2 h hfit
    refine ⟨_, _, coreAddMemorySpace_plain hne hrun fun _ => hsys, ?_, fun h => absurd rfl h⟩
    exact Whole.setMap (s := { s with attempts := s.attempts + 1 }) hs.whole hranges
  refine ⟨fun h => absurd h hfit, fun ⟨r, s', hrun', hpart, _⟩ => ?_⟩
  obtain ⟨map', hrun, e, -, -, hcheck, -, hother⟩ := coreConvertSpace_wraps hs.whole hs.le hw.2 h (not_le.mp hfit)
  have hcall : coreAddMemorySpace env (some type) base length capabilities s = (.ok r, s') := hrun'
  rw [coreAddMemorySpace_plain hne hrun fun _ => hsys] at hcall
  cases hcall
  have hp := hpart (addArgs type base length capabilities).operation.space
  refine absurd hp (not_partition (hother fun hkeep => ?_))
  -- the entry did not exist
  have htype : type = e.gcdMemoryType := congrArg (fun k : Kind => k.2.2.1) hkeep
  have hdenied : (addArgs type base length capabilities).check e = some .accessDenied :=
    if_pos (.inl fun h => hne (htype.trans h))
  rw [hdenied] at hcheck
  cases hcheck

lemma addMemorySpace_own (henv : env.Ok) (hs : Ready stop s)
    (hw : (Call.addMemorySpace (some type) base length capabilities).Words) (hsys : IsSystem type)
    (h : (addArgs type base length capabilities).refused env s = none) (hfit : base + length ≤ 2^64)
    (hle : pageAlignAddress base ≤ alignDown 12 (base + length)) :
    (pageAlignAddress base < alignDown 12 (base + length) ∧ (env.spare (s.attempts + 1) = true ∨
        env.spare (s.attempts + 1 + wholePages base length) = true) →
      Outcome env stop (.addMemorySpace (some type) base length capabilities) s) ∧
    (Sound env stop (.addMemorySpace (some type) base length capabilities) s →
      pageAlignAddress base < alignDown 12 (base + length) ∧ (env.spare (s.attempts + 1) = true ∨
        env.spare (s.attempts + 1 + wholePages base length) = true)) := by
  have hne : type ≠ .nonExistent := by
    rcases hsys with rfl | rfl <;> decide
  obtain ⟨map', hrun, hranges, hstop, hlen, hfree⟩ := free_added hs.whole hs.le hw.2 h hfit
  obtain ⟨s1, hs1⟩ : ∃ s1, s1 = ({ s with attempts := s.attempts + 1 } : GcdState).setMap .memory map' := ⟨_, rfl⟩
  have hmap : s1.maps .memory = map' := by
    rw [hs1, setMap_maps_same]
  have hatt : s1.attempts = s.attempts + 1 := by
    rw [hs1]
    rfl
  have hready : Ready stop s1 := by
    rw [hs1]
    exact hs.of_whole (Whole.setMap (s := { s with attempts := s.attempts + 1 }) hs.whole hranges)
  rw [← hs1] at hrun
  rw [← hmap] at hfree
  have htype : HasType (s1.maps .memory) base type := by
    obtain ⟨k, hk, ht, -⟩ := hfree base le_rfl (by omega)
    exact ⟨k, hk, ht⟩
  have hchanged {s2 : GcdState} (ht : HasType (s2.maps .memory) base type) : s2.maps ≠ s.maps := fun heq =>
    added_ne hs.whole hne ht h (congrFun heq .memory)
  rcases hle.lt_or_eq with hlt | heq
  · obtain ⟨s2, hcall, hwhole, htypes⟩ := coreAddMemorySpace_pages henv hsys hready hrun hstop hfree hlt
    rw [hatt] at hcall
    constructor
    · intro ⟨_, hspare⟩
      rw [if_pos hspare] at hcall
      exact ⟨_, _, hcall, hwhole, fun h => absurd rfl h⟩
    · intro ⟨r, s', hrun', _, herr⟩
      refine ⟨hlt, ?_⟩
      by_contra hspare
      rw [if_neg hspare] at hcall
      cases hcall.symm.trans hrun'
      exact hchanged (htypes base htype) (herr (some_ne_none _))
  · have hzero : pageAlignLength (sub64 ((base + length) % 2^64) (pageAlignAddress base)) = 0 := by
      have hpages : wholePages base length = 0 := by
        unfold wholePages
        rw [heq, Nat.sub_self, Nat.zero_div]
      rw [(pageAlignLength_spec (hstop.trans (hs.le .memory)) heq.le).1, hpages, zero_mul]
    refine ⟨fun ⟨hlt, _⟩ => absurd heq hlt.ne, fun ⟨r, s', hrun', _, herr⟩ => ?_⟩
    cases (coreAddMemorySpace_noPage hsys hrun hzero).symm.trans hrun'
    exact absurd (herr (some_ne_none _)) (hchanged htype)

lemma addMemorySpace_outcome {type : Option GcdMemoryType} (henv : env.Ok) (hs : Ready stop s)
    (hw : (Call.addMemorySpace type base length capabilities).Words) :
    (Fine env s (.addMemorySpace type base length capabilities) →
      Outcome env stop (.addMemorySpace type base length capabilities) s) ∧
    ((Call.addMemorySpace type base length capabilities).Tame →
      Sound env stop (.addMemorySpace type base length capabilities) s →
      Fine env s (.addMemorySpace type base length capabilities)) := by
  cases type with
  | none => exact ⟨fun _ => ⟨_, _, rfl, hs.whole, fun _ => rfl⟩, fun _ _ t ht => nomatch ht⟩
  | some type =>
    by_cases hne : type = .nonExistent
    · subst hne
      refine ⟨fun _ => ⟨_, _, rfl, hs.whole, fun _ => rfl⟩, fun _ _ t ht hne => ?_⟩
      cases ht
      exact absurd rfl hne
    cases href : (addArgs type base length capabilities).refused env s with
    | some e =>
      obtain ⟨n, hrun⟩ := coreConvertSpace_refused href
      refine ⟨fun _ => ⟨_, _, coreAddMemorySpace_plain hne hrun nofun, hs.whole, fun _ => rfl⟩, ?_⟩
      intro _ _ t ht _ hnone
      cases ht
      cases href.symm.trans hnone
    | none =>
      by_cases hsys : IsSystem type
      · constructor
        · intro hfine
          obtain ⟨hfit, hpages⟩ := hfine type rfl hne href
          exact (addMemorySpace_own henv hs hw hsys href hfit (hpages hsys).1.le).1 (hpages hsys)
        · intro htame hsound t ht _ _
          cases ht
          obtain ⟨hfit, hle⟩ := htame hsys
          exact ⟨hfit, fun _ => (addMemorySpace_own henv hs hw hsys href hfit hle).2 hsound⟩
      · obtain ⟨hto, hfrom⟩ := addMemorySpace_other hs hw hne hsys href
        refine ⟨fun hfine => hto (hfine type rfl hne href).1, fun _ hsound t ht _ _ => ?_⟩
        cases ht
        exact ⟨hfrom hsound, fun h => absurd h hsys⟩

end

/-- **one call** -/
theorem Call.outcome (henv : env.Ok) (hs : Ready stop s) (hw : c.Words) :
    (Fine env s c → Outcome env stop c s) ∧ (c.Tame → Sound env stop c s → Fine env s c) := by
  cases c with
  | convertSpace a => exact ⟨(convertSpace_outcome hs hw).1, fun _ => (convertSpace_outcome hs hw).2⟩
  | allocateSpace a => exact ⟨(allocateSpace_outcome hs hw).1, fun _ => (allocateSpace_outcome hs hw).2⟩
  | addMemorySpace type base length capabilities => exact addMemorySpace_outcome henv hs hw

/-! ## histories -/

def AllSound (env : Env) (stop : Space → Nat) : List Call → GcdState → Prop
  | [], _ => True
  | c :: cs, s => Sound env stop c s ∧ AllSound env stop cs (c.run env s).2

def AllFine (env : Env) : List Call → GcdState → Prop
  | [], _ => True
  | c :: cs, s => Fine env s c ∧ AllFine env cs (c.run env s).2

def initialEntry (stop : Nat) : MapEntry where
  baseAddress := 0
  endAddress := stop - 1
  capabilities := 0
  attributes := 0
  gcdMemoryType := .nonExistent
  gcdIoType := .nonExistent
  imageHandle := 0
  deviceHandle := 0

/-- `CoreInitializeGcdServices`: one entry for each space -/
def initialMaps (stop : Space → Nat) : GcdState where
  maps := fun space => [initialEntry (stop space)]
  attempts := 0

variable {calls : List Call}

lemma ready_initialMaps (hpos : ∀ space, 0 < stop space) (hle : ∀ space, stop space ≤ 2^63) :
    Ready stop (initialMaps stop) where
  whole := by
    intro space
    have := hpos space
    refine ranges_cons.mpr ⟨rfl, zero_le _, ?_⟩
    show stop space - 1 + 1 = stop space
    omega
  pos := hpos
  le := hle

lemma allSound_of_fine (henv : env.Ok) (hs : Ready stop s) (hw : ∀ c ∈ calls, c.Words) :
    AllFine env calls s → AllSound env stop calls s := by
  induction calls generalizing s with
  | nil => exact fun _ => trivial
  | cons c cs ih =>
    intro ⟨hfine, hrest⟩
    obtain ⟨r, s', hrun, hwhole, herr⟩ := (Call.outcome henv hs (hw c mem_cons_self)).1 hfine
    refine ⟨Outcome.sound ⟨r, s', hrun, hwhole, herr⟩, ih ?_ (fun c hc => hw c (mem_cons_of_mem _ hc)) hrest⟩
    rw [hrun]
    exact hs.of_whole hwhole

lemma allFine_of_sound (henv : env.Ok) (hs : Ready stop s) (hw : ∀ c ∈ calls, c.Words)
    (htame : ∀ c ∈ calls, c.Tame) : AllSound env stop calls s → AllFine env calls s := by
  induction calls generalizing s with
  | nil => exact fun _ => trivial
  | cons c cs ih =>
    intro ⟨hsound, hrest⟩
    obtain ⟨hto, hfrom⟩ := Call.outcome henv hs (hw c mem_cons_self)
    have hfine := hfrom (htame c mem_cons_self) hsound
    obtain ⟨r, s', hrun, hwhole, -⟩ := hto hfine
    refine ⟨hfine, ih ?_ (fun c hc => hw c (mem_cons_of_mem _ hc))
      (fun c hc => htame c (mem_cons_of_mem _ hc)) hrest⟩
    rw [hrun]
    exact hs.of_whole hwhole

end

/-- **the GCD maps over a history**: from the maps with one entry each, every call keeps the maps partitions of
their spaces, and every call that fails leaves them alone, if every call is fine; a history without system
memory that wraps around or is inside of a page has no other histories -/
theorem gcdMaps_history (env : Env) (henv : env.Ok) (stop : Space → Nat) (hpos : ∀ space, 0 < stop space)
    (hle : ∀ space, stop space ≤ 2^63) (calls : List Call) (hw : ∀ c ∈ calls, c.Words) :
    (AllFine env calls (initialMaps stop) → AllSound env stop calls (initialMaps stop)) ∧
      ((∀ c ∈ calls, c.Tame) → AllSound env stop calls (initialMaps stop) → AllFine env calls (initialMaps stop)) :=
  ⟨allSound_of_fine henv (ready_initialMaps hpos hle) hw, allFine_of_sound henv (ready_initialMaps hpos hle) hw⟩

lemma plainEnv_ok : plainEnv.Ok where
  image := by decide
  promotes := fun _ _ _ map => by
    induction map with
    | nil => exact .nil
    | cons e es ih => exact .cons (.inl rfl) ih

/-- memory-mapped I/O whose length wraps around is added, and overlaps itself; system memory without a page is
added and refused -/
theorem wrappedRange_overlaps : (((Call.addMemorySpace (some .memoryMappedIo) 0x2000 (2^64 - 0x1000) 0).run plainEnv
        (initialMaps fun _ => 2^36)).1 = .ok none ∧
      (((Call.addMemorySpace (some .memoryMappedIo) 0x2000 (2^64 - 0x1000) 0).run plainEnv
        (initialMaps fun _ => 2^36)).2.maps .memory).map (fun e => (e.baseAddress, e.endAddress)) =
          [(0, 0x1fff), (0x2000, 0xfff), (0x1000, 2^36 - 1)]) ∧
    ((Call.addMemorySpace (some .systemMemory) 0 0x800 0).run plainEnv (initialMaps fun _ => 2^36)).1 =
        .ok (some .invalidParameter) ∧ ((((Call.addMemorySpace (some .systemMemory) 0 0x800 0).run plainEnv
        (initialMaps fun _ => 2^36)).2.maps .memory).map fun e => (e.baseAddress, e.endAddress)) =
          [(0, 0x7ff), (0x800, 2^36 - 1)] := by
  decide +kernel

theorem twoPages_history :
    AllFine plainEnv [.addMemorySpace (some .systemMemory) 0x1000 0x2000 0] (initialMaps fun _ => 2^36) ∧
      AllSound plainEnv (fun _ => 2^36) [.addMemorySpace (some .systemMemory) 0x1000 0x2000 0]
        (initialMaps fun _ => 2^36) := by
  have hfine : AllFine plainEnv [.addMemorySpace (some .systemMemory) 0x1000 0x2000 0]
      (initialMaps fun _ => 2^36) := by
    refine ⟨fun t ht _ _ => ?_, trivial⟩
    cases ht
    exact ⟨by decide, fun _ => ⟨by decide, .inl rfl⟩⟩
  refine ⟨hfine, (gcdMaps_history plainEnv plainEnv_ok (fun _ => 2^36) (fun _ => by decide) (fun _ => by decide) _
    fun c hc => ?_).1 hfine⟩
  rw [mem_singleton.mp hc]
  exact ⟨by decide, by decide⟩

end Audk.Gcd
