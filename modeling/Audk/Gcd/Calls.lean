import Audk.Gcd.Partition

/-!
# The services on the GCD maps

What one call does to a map that is a partition.

* `findSpace_spec`: the search for free space ends, and what it finds was found by `CoreSearchGcdMapEntry`;
* `coreConvertSpace_spec`, `coreAllocateSpace_spec`: a call that fails leaves the maps alone; a call that
  succeeds keeps the partition unless the end of its range wraps around.
-/

namespace Audk.Gcd

open Prog Mem Regions List Function Option Nat

/-! ## positions in the map -/

section
variable {map before range after : List MapEntry} {base last i k j stop : Nat} {e f : MapEntry}

lemma Ranges.index_le (h : Ranges map 0 stop) (hi : map[i]? = some e) (hj : map[j]? = some f)
    (hle : e.baseAddress ≤ f.endAddress) : i ≤ j := by
  by_contra hlt
  rw [not_le] at hlt
  obtain ⟨hi', rfl⟩ := List.getElem?_eq_some_iff.mp hi
  obtain ⟨hj', rfl⟩ := List.getElem?_eq_some_iff.mp hj
  have hsorted := Chain.sorted h
  rw [pairwise_map] at hsorted
  have := pairwise_iff_getElem.mp hsorted j i hj' hi' hlt
  exact absurd this (not_lt.mpr hle)

section
variable (h : Found map base last i k before range after)
include h

lemma Found.get (hj : j < range.length) :
    map[i + j]? = range[j]? := by
  rw [h.eq, ← h.first, append_assoc, List.getElem?_append_right (le_add_right _ _),
    Nat.add_sub_cancel_left, List.getElem?_append_left hj]

lemma Found.get_base : ∃ e, map[i]? = some e ∧ e.Covers base := by
  have hget := h.get (j := 0)
  obtain ⟨e, es, rfl, he⟩ := h.covers_base
  exact ⟨e, hget (zero_lt_succ _), he⟩

lemma Found.get_last : ∃ e, map[k]? = some e ∧ e.Covers last := by
  have hlen := h.length
  have hget := h.get (j := k - i)
  obtain ⟨es, e, rfl, he⟩ := h.covers_last
  rw [length_append, length_singleton] at hlen hget
  refine ⟨e, ?_, he⟩
  rw [show i + (k - i) = k by omega, show k - i = es.length by omega] at hget
  rw [hget (Nat.lt_succ_self _), List.getElem?_append_right le_rfl, Nat.sub_self]
  rfl

end

/-! ## the search for free space -/

variable {type : AllocateType} {check : MapEntry → Option Status} {alignment length max base' : Nat}

lemma alignDown_le (alignment x : Nat) : alignDown alignment x ≤ x := div_mul_le_self _ _

lemma le_alignDown (alignment x : Nat) : x ≤ alignDown alignment (x + (2^alignment - 1)) := by
  unfold alignDown
  have hpos : 0 < 2^alignment := Nat.two_pow_pos _
  have h1 := div_add_mod (x + (2^alignment - 1)) (2^alignment)
  rw [mul_comm] at h1
  omega

def Usable (check : MapEntry → Option Status) (map : List MapEntry) (length i k base : Nat) : Prop :=
  base < 2^64 ∧ ∃ before range after, Found map base (lastAddress base length) i k before range after ∧
    ∀ e ∈ range, check e = none

lemma trySpace_spec (check : MapEntry → Option Status) (length : Nat) (hm : Ranges map 0 stop) (hbase : base < 2^64) :
    (∃ i k f, trySpace check length map base = .next (some (i + f)) base ∧ (∃ before range after,
      Found map base (lastAddress base length) i k before range after ∧ f < range.length) ∧
      ∃ e, map[i + f]? = some e ∧ (check e).isSome = true) ∨
    trySpace check length map base = .refused base ∨
    ∃ i k, trySpace check length map base = .found i k base ∧ Usable check map length i k base := by
  unfold trySpace
  cases hs : coreSearchGcdMapEntry base length map with
  | none => exact .inr (.inl rfl)
  | some r =>
    obtain ⟨i, k⟩ := r
    obtain ⟨before, range, after, hf⟩ := coreSearchGcdMapEntry_found hm hs
    dsimp only
    rw [hf.between]
    cases hidx : range.findIdx? fun e => (check e).isSome with
    | some f =>
      obtain ⟨hlt, hfail, -⟩ := List.findIdx?_eq_some_iff_getElem.mp hidx
      refine .inl ⟨i, k, f, rfl, ⟨before, range, after, hf, hlt⟩, range[f], ?_, hfail⟩
      rw [hf.get hlt]
      exact List.getElem?_eq_getElem hlt
    | none =>
      refine .inr (.inr ⟨i, k, rfl, hbase, before, range, after, hf, fun e he => ?_⟩)
      have := List.findIdx?_eq_none_iff.mp hidx e he
      exact isNone_iff_eq_none.mp (by simpa using this)

def Ahead (type : AllocateType) (n i j : Nat) : Prop := if type.TopDown then j < i else i < j ∧ j < n

lemma nextLink_ahead (h : nextLink type.TopDown map.length i = some j) : Ahead type map.length i j := by
  unfold nextLink at h
  unfold Ahead
  by_cases ht : type.TopDown
  · rw [if_pos ht] at h ⊢
    split_ifs at h with h0
    cases h
    omega
  · rw [if_neg ht] at h ⊢
    split_ifs at h with h1
    cases h
    omega

/-- **one turn of the search**: it goes on with a later link, or stops, or finds usable space -/
theorem allocateTurn_spec (type : AllocateType) (check : MapEntry → Option Status) (max base : Nat)
    (hm : Ranges map 0 stop) (hstop : stop ≤ 2^63) (hlen : length < 2^64)
    (hne : length ≠ 0) (halign : alignment < 64) (hi : i < map.length) :
    (∃ link base', allocateTurn type check alignment length max map i base = .next link base' ∧
      ∀ j, link = some j → Ahead type map.length i j) ∨
    (∃ base', allocateTurn type check alignment length max map i base = .refused base') ∨
    ∃ j k base', allocateTurn type check alignment length max map i base = .found j k base' ∧
      Usable check map length j k base' := by
  unfold allocateTurn
  have hget : map[i]? = some map[i] := List.getElem?_eq_getElem hi
  obtain ⟨-, hne', hend⟩ := hm.bounds (getElem_mem hi)
  rw [hget]
  dsimp only
  generalize map[i] = e at hget hne' hend
  by_cases hcheck : (check e).isSome = true
  · rw [if_pos hcheck]
    exact .inl ⟨_, _, rfl, fun j => nextLink_ahead⟩
  rw [if_neg hcheck]
  have hnot {j : Nat} {f : MapEntry} (hf : map[j]? = some f) (hfail : (check f).isSome = true) : j ≠ i := by
    rintro rfl
    rw [hget] at hf
    cases hf
    exact hcheck hfail
  by_cases ht : type.TopDown
  · rw [if_pos ht]
    by_cases hmax : max < (e.baseAddress + length) % 2^64
    · rw [if_pos hmax]
      exact .inl ⟨_, _, rfl, fun j => nextLink_ahead⟩
    rw [if_neg hmax]
    by_cases hbig : (e.endAddress + 1) % 2^64 < length
    · rw [if_pos hbig]
      exact .inr (.inl ⟨_, rfl⟩)
    rw [if_neg hbig]
    -- the space ends in this entry or before it
    obtain ⟨x, hx⟩ : ∃ x, x = if max < e.endAddress then max else e.endAddress := ⟨_, rfl⟩
    rw [← hx]
    have hxe : x ≤ e.endAddress ∧ length ≤ x + 1 := by
      split_ifs at hx <;> omega
    obtain ⟨b, hb⟩ : ∃ b, b = alignDown alignment (sub64 ((x + 1) % 2^64) length) := ⟨_, rfl⟩
    rw [← hb]
    have hble : b + length ≤ x + 1 := by
      have h1 := alignDown_le alignment (sub64 ((x + 1) % 2^64) length)
      have h2 : sub64 ((x + 1) % 2^64) length = x + 1 - length := by
        unfold sub64
        omega
      omega
    have hlast : lastAddress b length ≤ e.endAddress := by
      rcases lastAddress_eq (show b < 2^64 by omega) hlen hne with ⟨-, h⟩ | ⟨h, -, -⟩ <;> omega
    have hb64 : b < 2^64 := by omega
    rcases trySpace_spec check length hm hb64 with
      ⟨i', k', f, heq, ⟨before, range, after, hf, hlt⟩, e', he', hfail⟩ | heq | ⟨i', k', heq, hu⟩
    · refine .inl ⟨_, _, heq, fun j hj => ?_⟩
      cases hj
      obtain ⟨e'', he'', hc⟩ := hf.get_last
      have hk := hm.index_le he'' hget (hc.1.trans hlast)
      have hlen' := hf.length
      have := hnot he' hfail
      unfold Ahead
      rw [if_pos ht]
      omega
    · exact .inr (.inl ⟨_, heq⟩)
    · exact .inr (.inr ⟨_, _, _, heq, hu⟩)
  · rw [if_neg ht]
    -- the space starts in this entry or behind it
    obtain ⟨b, hb⟩ : ∃ b, b = alignDown alignment ((e.baseAddress + (2^alignment - 1)) % 2^64) := ⟨_, rfl⟩
    have hpow : 2^alignment ≤ 2^63 := Nat.pow_le_pow_right (by decide) (by omega)
    have hmod : (e.baseAddress + (2^alignment - 1)) % 2^64 = e.baseAddress + (2^alignment - 1) :=
      mod_eq_of_lt (by omega)
    have hble : e.baseAddress ≤ b ∧ b < 2^64 := by
      have h1 := le_alignDown alignment e.baseAddress
      have h2 := alignDown_le alignment (e.baseAddress + (2^alignment - 1))
      rw [hb, hmod]
      omega
    rw [← hb]
    by_cases hmax : max < lastAddress b length
    · rw [if_pos hmax]
      exact .inr (.inl ⟨_, rfl⟩)
    rw [if_neg hmax]
    rcases trySpace_spec check length hm hble.2 with
      ⟨i', k', f, heq, ⟨before, range, after, hf, hlt⟩, e', he', hfail⟩ | heq | ⟨i', k', heq, hu⟩
    · refine .inl ⟨_, _, heq, fun j hj => ?_⟩
      cases hj
      obtain ⟨e'', he'', hc⟩ := hf.get_base
      have hk := hm.index_le hget he'' (hble.1.trans hc.2)
      have := hnot he' hfail
      have hlt' := (List.getElem?_eq_some_iff.mp he').1
      unfold Ahead
      rw [if_neg ht]
      omega
    · exact .inr (.inl ⟨_, heq⟩)
    · exact .inr (.inr ⟨_, _, _, heq, hu⟩)

def linksLeft (type : AllocateType) (n : Nat) : Option Nat → Nat
  | none => 0
  | some i => if type.TopDown then i + 1 else n - i

/-- **the search for space ends** -/
theorem allocateFrom_spec (type : AllocateType) (check : MapEntry → Option Status) (max base : Nat)
    (hm : Ranges map 0 stop) (hstop : stop ≤ 2^63) (hlen : length < 2^64)
    (hne : length ≠ 0) (halign : alignment < 64) (fuel : Nat) (link : Option Nat)
    (hlink : ∀ i, link = some i → i < map.length) (hfuel : linksLeft type map.length link ≤ fuel) :
    ∃ r base', allocateFrom type check alignment length max map fuel link base = some (r, base') ∧
      ∀ i k, r = some (i, k) → Usable check map length i k base' := by
  induction fuel generalizing link base with
  | zero =>
    cases link with
    | none => exact ⟨none, base, rfl, nofun⟩
    | some i =>
      have := hlink i rfl
      dsimp only [linksLeft] at hfuel
      split_ifs at hfuel <;> omega
  | succ fuel ih =>
    cases link with
    | none => exact ⟨none, base, rfl, nofun⟩
    | some i =>
      have hi := hlink i rfl
      unfold allocateFrom
      rcases allocateTurn_spec type check max base hm hstop hlen hne
        halign hi with ⟨link', base', heq, hahead⟩ | ⟨base', heq⟩ | ⟨j, k, base', heq, hu⟩
      · rw [heq]
        refine ih base' link' (fun j hj => ?_) ?_
        · have := hahead j hj
          unfold Ahead at this
          split_ifs at this <;> omega
        · cases link' with
          | none => exact zero_le _
          | some j =>
            have hj := hahead j rfl
            unfold Ahead at hj
            dsimp only [linksLeft] at hfuel ⊢
            split_ifs at hj hfuel ⊢ <;> omega
      · rw [heq]
        exact ⟨none, base', rfl, nofun⟩
      · rw [heq]
        refine ⟨some (j, k), base', rfl, fun i' k' h => ?_⟩
        cases h
        exact hu

/-- **the search of `CoreAllocateSpace`** -/
theorem findSpace_spec (type : AllocateType) (check : MapEntry → Option Status) (hm : Ranges map 0 stop)
    (hpos : 0 < stop) (hstop : stop ≤ 2^63) (hlen : length < 2^64)
    (hne : length ≠ 0) (halign : alignment < 64) (hbase : base < 2^64) :
    ∃ r base', findSpace type check alignment length base map = .ok (r, base') ∧
      ∀ i k, r = .ok (i, k) → Usable check map length i k base' := by
  unfold findSpace
  by_cases haddress : type = .address
  · rw [if_pos haddress]
    refine ⟨_, base, rfl, fun i k h => ?_⟩
    unfold allocateAt at h
    split_ifs at h with hmod
    cases hs : coreSearchGcdMapEntry base length map with
    | none =>
      rw [hs] at h
      cases h
    | some x =>
      obtain ⟨before, range, after, hf⟩ := coreSearchGcdMapEntry_found hm hs
      rw [hs] at h
      dsimp only at h
      rw [hf.between] at h
      cases hfind : range.findSome? check with
      | some s =>
        rw [hfind] at h
        cases h
      | none =>
        rw [hfind] at h
        cases h
        exact ⟨hbase, before, range, after, hf, List.findSome?_eq_none_iff.mp hfind⟩
  · rw [if_neg haddress]
    cases hlast : map.getLast? with
    | none =>
      rw [List.getLast?_eq_none_iff] at hlast
      subst hlast
      have : 0 = stop := hm
      omega
    | some e =>
      have hne' : 0 < map.length := by
        rw [length_pos_iff]
        rintro rfl
        cases hlast
      dsimp only
      generalize (if type = .maxAddressSearchBottomUp ∨ type = .maxAddressSearchTopDown then base
        else e.endAddress) = max
      obtain ⟨r, base', hrun, hr⟩ := allocateFrom_spec type check max base
        hm hstop hlen hne halign (map.length + 1) (some (if type.TopDown then map.length - 1 else 0))
        (fun i hi => by
          cases hi
          split_ifs <;> omega)
        (by
          dsimp only [linksLeft]
          split_ifs <;> omega)
      rw [hrun]
      cases r with
      | none => exact ⟨.error .notFound, base', rfl, nofun⟩
      | some x =>
        obtain ⟨i, k⟩ := x
        refine ⟨.ok (i, k), base', rfl, fun i' k' h => ?_⟩
        cases h
        exact hr i k rfl

end

/-! ## the state -/

/-- every map consists of entries that follow one another from `0` to the end of its space -/
def Whole (stop : Space → Nat) (s : GcdState) : Prop := ∀ space, Ranges (s.maps space) 0 (stop space)

/-- the entries of a map are in order, not empty, and have exactly the addresses of the space -/
structure IsPartition (map : List MapEntry) (stop : Nat) : Prop where
  nonempty : ∀ e ∈ map, e.baseAddress ≤ e.endAddress
  sorted : map.Pairwise fun e f => e.endAddress < f.baseAddress
  covers : ∀ p, (∃ e ∈ map, e.Covers p) ↔ p < stop

lemma Ranges.isPartition {map : List MapEntry} {stop : Nat} (h : Ranges map 0 stop) : IsPartition map stop where
  nonempty := fun e he => (h.bounds he).2.1
  sorted := by
    have hsorted := Chain.sorted h
    rw [pairwise_map] at hsorted
    exact hsorted
  covers := by
    intro p
    constructor
    · intro ⟨e, he, hp⟩
      exact hp.2.trans_lt (h.bounds he).2.2
    · intro hp
      obtain ⟨l1, e, l2, rfl, he⟩ := h.split (zero_le p) hp
      exact ⟨e, mem_append_right _ mem_cons_self, he⟩

section
variable {stop : Space → Nat} {s : GcdState} {map : List MapEntry} {space : Space}

@[simp] lemma setMap_maps_same (s : GcdState) (space : Space) (map : List MapEntry) :
    (s.setMap space map).maps space = map := update_self _ _ _

lemma Whole.setMap (h : Whole stop s) (hm : Ranges map 0 (stop space)) : Whole stop (s.setMap space map) := by
  intro space'
  by_cases heq : space' = space
  · subst heq
    rw [setMap_maps_same]
    exact hm
  · unfold GcdState.setMap
    dsimp only
    rw [update_of_ne heq]
    exact h space'

/-! ## `CoreConvertSpace` -/

def ConvertArgs.refused (env : Env) (s : GcdState) (a : ConvertArgs) : Option Status :=
  if a.length = 0 then some .invalidParameter
  else
    match coreSearchGcdMapEntry a.baseAddress a.length (s.maps a.operation.space) with
    | none => some .unsupported
    | some (i, k) =>
      match (between (s.maps a.operation.space) i k).findSome? a.check with
      | some e => some e
      | none => if env.spare s.attempts = false then some .outOfResources else a.cpuStatus env

def ConvertArgs.KeepsKind (a : ConvertArgs) (e : MapEntry) : Prop := (a.convert a.attributes e).1.kind = e.kind

instance (a : ConvertArgs) (e : MapEntry) : Decidable (a.KeepsKind e) := inferInstanceAs (Decidable (_ = _))

variable {env : Env} {a : ConvertArgs} {e : Status}

lemma keepsBounds_convert (a : ConvertArgs) : KeepsBounds a.convert := by
  constructor <;> intros <;> unfold ConvertArgs.convert <;> cases a.operation <;> rfl

lemma coreConvertSpace_refused (h : a.refused env s = some e) :
    ∃ n, coreConvertSpace env a s = (.ok (some e), { s with attempts := n }) := by
  unfold ConvertArgs.refused at h
  unfold coreConvertSpace
  by_cases hlen : a.length = 0
  · rw [if_pos hlen] at h ⊢
    cases h
    exact ⟨s.attempts, rfl⟩
  rw [if_neg hlen] at h ⊢
  show ∃ n, (match coreSearchGcdMapEntry a.baseAddress a.length (s.maps a.operation.space) with
    | none => _
    | some (i, k) => _ : GcdProg (Option Status)) s = _
  cases hs : coreSearchGcdMapEntry a.baseAddress a.length (s.maps a.operation.space) with
  | none =>
    rw [hs] at h
    cases h
    exact ⟨s.attempts, rfl⟩
  | some x =>
    obtain ⟨i, k⟩ := x
    rw [hs] at h
    dsimp only at h ⊢
    cases hc : (between (s.maps a.operation.space) i k).findSome? a.check with
    | some e' =>
      rw [hc] at h
      cases h
      exact ⟨s.attempts, rfl⟩
    | none =>
      rw [hc] at h
      dsimp only at h ⊢
      show ∃ n, (if env.spare s.attempts = false then _ else _ : GcdProg (Option Status))
        { s with attempts := s.attempts + 1 } = _
      by_cases hspare : env.spare s.attempts = false
      · rw [if_pos hspare] at h ⊢
        cases h
        exact ⟨_, rfl⟩
      · rw [if_neg hspare] at h ⊢
        rw [h]
        exact ⟨_, rfl⟩

lemma coreConvertSpace_accepted (h : a.refused env s = none) :
    ∃ i k, a.length ≠ 0 ∧ coreSearchGcdMapEntry a.baseAddress a.length (s.maps a.operation.space) = some (i, k) ∧
      (∀ e ∈ between (s.maps a.operation.space) i k, a.check e = none) ∧
      ∀ map', convertRange a.baseAddress a.length a.convert a.attributes (s.maps a.operation.space) i k =
          .ok map' → coreConvertSpace env a s =
          (.ok none, ({ s with attempts := s.attempts + 1 } : GcdState).setMap a.operation.space map') := by
  unfold ConvertArgs.refused at h
  by_cases hlen : a.length = 0
  · rw [if_pos hlen] at h
    cases h
  rw [if_neg hlen] at h
  cases hs : coreSearchGcdMapEntry a.baseAddress a.length (s.maps a.operation.space) with
  | none =>
    rw [hs] at h
    cases h
  | some x =>
    obtain ⟨i, k⟩ := x
    rw [hs] at h
    dsimp only at h
    cases hc : (between (s.maps a.operation.space) i k).findSome? a.check with
    | some e' =>
      rw [hc] at h
      cases h
    | none =>
      rw [hc] at h
      dsimp only at h
      by_cases hspare : env.spare s.attempts = false
      · rw [if_pos hspare] at h
        cases h
      rw [if_neg hspare] at h
      refine ⟨i, k, hlen, rfl, List.findSome?_eq_none_iff.mp hc, fun map' hrun => ?_⟩
      unfold coreConvertSpace
      rw [if_neg hlen]
      show (match coreSearchGcdMapEntry a.baseAddress a.length (s.maps a.operation.space) with
        | none => _
        | some (i, k) => _ : GcdProg (Option Status)) s = _
      rw [hs]
      dsimp only
      rw [hc]
      show (if env.spare s.attempts = false then _ else _ : GcdProg (Option Status))
        { s with attempts := s.attempts + 1 } = _
      rw [if_neg hspare, h]
      rw [hrun]
      rfl

/-- the entries from `base` to `last`, converted one after the other -/
structure ConvertedRange (a : ConvertArgs) (map range map' : List MapEntry) : Prop where
  sub : ∀ e ∈ range, e ∈ map ∧ a.check e = none ∧ a.baseAddress ≤ e.endAddress
  sorted : range.Pairwise fun e f => e.endAddress < f.baseAddress
  outside : ∀ p, ¬ (a.baseAddress ≤ p ∧ p < a.baseAddress + a.length) → kindAt map' p = kindAt map p
  inside : ∀ p, a.baseAddress ≤ p → p < a.baseAddress + a.length → ∃ es₁ e es₂, range = es₁ ++ e :: es₂ ∧
    e.Covers p ∧ kindAt map' p = some (a.convert (carry a.convert a.attributes es₁) e).1.kind

lemma coreConvertSpace_fits (hs : Whole stop s) (hstop : ∀ space, stop space ≤ 2^64) (hlen : a.length < 2^64)
    (h : a.refused env s = none) (hfit : a.baseAddress + a.length ≤ 2^64) : ∃ map' range, coreConvertSpace env a s =
        (.ok none, ({ s with attempts := s.attempts + 1 } : GcdState).setMap a.operation.space map') ∧
      Ranges map' 0 (stop a.operation.space) ∧ a.baseAddress + a.length ≤ stop a.operation.space ∧ a.length ≠ 0 ∧
      ConvertedRange a (s.maps a.operation.space) range map' := by
  obtain ⟨i, k, hne, hsearch, hcheck, hrun⟩ := coreConvertSpace_accepted h
  obtain ⟨before, range, after, hf⟩ := coreSearchGcdMapEntry_found (hs _) hsearch
  have hstop' := hstop a.operation.space
  obtain ⟨map', hmap, hranges, houtside, hinside⟩ := convertRange_ranges (keepsBounds_convert a) (hs _) hstop' hlen hne
    hf hfit a.attributes
  have hbounds := hf.base_lt (hs _)
  refine ⟨map', range, hrun map' hmap, hranges, ?_, hne, fun e he => ⟨?_, hcheck e (hf.between ▸ he), ?_⟩, ?_, houtside,
    hinside⟩
  · have hbase : a.baseAddress < 2^64 := by omega
    rcases lastAddress_eq hbase hlen hne with ⟨-, hl⟩ | ⟨hl, -, -⟩ <;> omega
  · rw [hf.eq]
    exact mem_append_left _ (mem_append_right _ he)
  · obtain ⟨m, n, -, hr, -⟩ := hf.ranges (hs _)
    obtain ⟨f, es, rfl, hcover⟩ := hf.covers_base
    rcases mem_cons.mp he with rfl | he
    · exact hcover.2
    · have h1 := ((ranges_cons.mp hr).2.2.bounds he)
      have h2 := hcover.2
      omega
  · have hsorted := (hs a.operation.space).isPartition.sorted
    rw [hf.eq] at hsorted
    exact (pairwise_append.mp (pairwise_append.mp hsorted).1).2.1

lemma coreConvertSpace_wraps (hs : Whole stop s) (hstop : ∀ space, stop space ≤ 2^63) (hlen : a.length < 2^64)
    (h : a.refused env s = none) (hwrap : 2^64 < a.baseAddress + a.length) : ∃ map', coreConvertSpace env a s =
        (.ok none, ({ s with attempts := s.attempts + 1 } : GcdState).setMap a.operation.space map') ∧
      ∃ e ∈ s.maps a.operation.space, e.Covers a.baseAddress ∧ a.check e = none ∧
        (a.KeepsKind e → map' = s.maps a.operation.space) ∧
        (¬ a.KeepsKind e → ∃ x ∈ map', x.endAddress < x.baseAddress) := by
  obtain ⟨i, k, hne, hsearch, hcheck, hrun⟩ := coreConvertSpace_accepted h
  obtain ⟨before, range, after, hf⟩ := coreSearchGcdMapEntry_found (hs _) hsearch
  have hstop' := hstop a.operation.space
  obtain ⟨e, m, n, rfl, hlt, hmap⟩ := convertRange_wrapped a.convert (hs _) (by omega) hlen hne hf hwrap a.attributes
  obtain ⟨e', es, heq, hcover⟩ := hf.covers_base
  cases heq
  have hmem : e ∈ s.maps a.operation.space := by
    rw [hf.eq]
    exact mem_append_left _ (mem_append_right _ (mem_singleton.mpr rfl))
  have hkind := (keepsBounds_convert a).kind a.attributes e a.baseAddress (lastAddress a.baseAddress a.length)
  obtain ⟨hsame, hother⟩ := coreCleanupGcdMapEntry_wrapped e (a.convert a.attributes
    { e with baseAddress := a.baseAddress, endAddress := lastAddress a.baseAddress a.length }).1 m n before after
  have hnone : a.check e = none := hcheck e (hf.between ▸ mem_singleton.mpr rfl)
  refine ⟨_, hrun _ hmap, e, hmem, hcover, hnone, fun hkeep => ?_, fun hkeep => ?_⟩
  · rw [hsame (hkind.trans hkeep), ← hf.eq]
  · refine ⟨_, hother fun heq => hkeep (hkind.symm.trans heq), ?_⟩
    rw [(keepsBounds_convert a).base, (keepsBounds_convert a).end_]
    exact hlt

/-! ## what a conversion does to each byte -/

/-- the attributes that a byte keeps: those of the cache and of the pages, if the CPU is not asked to set any -/
def ConvertArgs.keptMask (a : ConvertArgs) : Nat :=
  if a.operation = .setAttributesMemory ∧ a.cpuArchAttributes = 0 then efiCacheAttributeMask ||| efiMemoryAttributeMask
  else 0

/-- the fields that the operation changes; `attributes` are the requested ones -/
def ConvertArgs.change (a : ConvertArgs) (attributes : Nat) : Kind → Kind
  | (c, t, memoryType, ioType, image, device) =>
    match a.operation with
    | .addMemory => (a.capabilities ||| efiMemoryRuntime |||
        (if a.gcdMemoryType = .memoryMappedIo then efiMemoryPortIo else 0), t, a.gcdMemoryType, ioType, image, device)
    | .addIo => (c, t, memoryType, a.gcdIoType, image, device)
    | .freeMemory | .freeIo => (c, t, memoryType, ioType, 0, 0)
    | .removeMemory => (0, t, .nonExistent, ioType, image, device)
    | .removeIo => (c, t, memoryType, .nonExistent, image, device)
    | .setAttributesMemory => (c, attributes ||| (t &&& a.keptMask), memoryType, ioType, image, device)
    | .setCapabilitiesMemory => (a.capabilities, t, memoryType, ioType, image, device)
    | .allocateMemory | .allocateIo => (c, t, memoryType, ioType, image, device)

/-- each byte of the range has the fields of the operation changed, and nothing else is changed -/
def ConvertArgs.ChangesBytes (a : ConvertArgs) (s s' : GcdState) : Prop :=
  ∀ space p, kindAt (s'.maps space) p =
    if space = a.operation.space ∧ a.baseAddress ≤ p ∧ p < a.baseAddress + a.length then
      (kindAt (s.maps space) p).map (a.change a.attributes)
    else kindAt (s.maps space) p

/-- a byte keeps no attributes that a later one of the range does not keep -/
def ConvertArgs.Ascending (a : ConvertArgs) (s : GcdState) : Prop :=
  ∀ p q k l, a.baseAddress ≤ p → p ≤ q → q < a.baseAddress + a.length →
    kindAt (s.maps a.operation.space) p = some k → kindAt (s.maps a.operation.space) q = some l →
      (k.2.1 &&& a.keptMask) ||| (a.attributes ||| (l.2.1 &&& a.keptMask)) = a.attributes ||| (l.2.1 &&& a.keptMask)

variable {s' : GcdState} {map' range : List MapEntry}

lemma convert_kind (a : ConvertArgs) (c : Nat) (e : MapEntry) : (a.convert c e).1.kind = a.change c e.kind := by
  unfold ConvertArgs.convert ConvertArgs.change MapEntry.kind ConvertArgs.keptMask
  cases hop : a.operation with
  | addMemory => by_cases h : a.gcdMemoryType = .memoryMappedIo <;> simp [h]
  | setAttributesMemory => by_cases h : a.cpuArchAttributes = 0 <;> simp [h]
  | _ => rfl

lemma convert_carried (a : ConvertArgs) (c : Nat) (e : MapEntry) :
    (a.convert c e).2 = c ||| (e.attributes &&& a.keptMask) := by
  unfold ConvertArgs.convert ConvertArgs.keptMask
  cases hop : a.operation with
  | setAttributesMemory => by_cases h : a.cpuArchAttributes = 0 <;> simp [h]
  | _ => simp

lemma le_carry (a : ConvertArgs) {e : MapEntry} (c : Nat) (es : List MapEntry) (h : e ∈ es) :
    (e.attributes &&& a.keptMask) ||| carry a.convert c es = carry a.convert c es := by
  have hkeeps (c x : Nat) (es : List MapEntry) (hx : x ||| c = c) : x ||| carry a.convert c es = carry a.convert c es := by
    induction es generalizing c with
    | nil => exact hx
    | cons e es ih =>
      refine ih (a.convert c e).2 ?_
      rw [convert_carried, ← Nat.or_assoc, hx]
  induction es generalizing c with
  | nil => cases h
  | cons f es ih =>
    rcases mem_cons.mp h with rfl | h
    · refine hkeeps (a.convert c e).2 _ es ?_
      rw [convert_carried, Nat.or_comm, Nat.or_assoc, Nat.or_self]
    · exact ih _ h

lemma carry_or (a : ConvertArgs) (c x : Nat) (es : List MapEntry)
    (h : ∀ e ∈ es, (e.attributes &&& a.keptMask) ||| (c ||| x) = c ||| x) : carry a.convert c es ||| x = c ||| x := by
  induction es generalizing c with
  | nil => rfl
  | cons e es ih =>
    have he : (a.convert c e).2 ||| x = c ||| x := by
      rw [convert_carried, Nat.or_comm c, Nat.or_assoc, h e List.mem_cons_self]
    have hes := ih (a.convert c e).2 fun f hf => by
      rw [he]
      exact h f (mem_cons_of_mem _ hf)
    exact hes.trans he

lemma ConvertedRange.old (h : ConvertedRange a map range map') (hm : Ranges map 0 (stop a.operation.space))
    {e : MapEntry} {p : Nat} (he : e ∈ range) (hp : e.Covers p) : kindAt map p = some e.kind :=
  hm.kindAt_of_mem (h.sub e he).1 hp

section
variable (h : ConvertedRange a (s.maps a.operation.space) range map')
include h

lemma ConvertedRange.ascending (hs : Whole stop s)
    (hb : ∀ p, a.baseAddress ≤ p → p < a.baseAddress + a.length →
      kindAt map' p = (kindAt (s.maps a.operation.space) p).map (a.change a.attributes)) : a.Ascending s := by
  intro p q k l hp hpq hq hk hl
  by_cases hset : a.operation = .setAttributesMemory
  · obtain ⟨es1, e, es2, hrange, he, -⟩ := h.inside p hp (by omega)
    obtain ⟨fs1, f, fs2, hrange', hf, hkind⟩ := h.inside q (by omega) hq
    have hke := h.old (hs _) (hrange ▸ by simp) he
    have hlf := h.old (hs _) (hrange' ▸ by simp) hf
    cases hk.symm.trans hke
    cases hl.symm.trans hlf
    rw [hb q (by omega) hq, hlf, convert_kind] at hkind
    have hattr : a.attributes ||| (f.attributes &&& a.keptMask) =
        carry a.convert a.attributes fs1 ||| (f.attributes &&& a.keptMask) := by
      have := congrArg (fun k : Kind => k.2.1) (Option.some.inj hkind)
      unfold ConvertArgs.change MapEntry.kind at this
      rw [hset] at this
      exact this
    show (e.attributes &&& a.keptMask) ||| _ = _
    -- the entry of `p` is that of `q`, or it is before it
    have hmem : e ∈ fs1 ++ f :: fs2 := hrange' ▸ hrange ▸ by simp
    have hsorted := hrange' ▸ h.sorted
    rcases mem_append.mp hmem with hbefore | hbehind
    · show _ ||| (a.attributes ||| (f.attributes &&& a.keptMask)) = a.attributes ||| (f.attributes &&& a.keptMask)
      rw [hattr, ← Nat.or_assoc, le_carry a _ _ hbefore]
    rcases mem_cons.mp hbehind with rfl | hbehind
    · show _ ||| (a.attributes ||| (e.attributes &&& a.keptMask)) = a.attributes ||| (e.attributes &&& a.keptMask)
      rw [Nat.or_comm, Nat.or_assoc, Nat.or_self]
    · have hlt := (pairwise_cons.mp (pairwise_append.mp hsorted).2.1).1 e hbehind
      have h1 := he.1
      have h2 := hf.2
      omega
  · have hzero : a.keptMask = 0 := if_neg fun h => hset h.1
    rw [hzero, and_zero, and_zero, zero_or]

lemma ConvertedRange.bytes (hs : Whole stop s)
    (hasc : a.Ascending s) {q : Nat} (hq : a.baseAddress ≤ q) (hq' : q < a.baseAddress + a.length) :
    kindAt map' q = (kindAt (s.maps a.operation.space) q).map (a.change a.attributes) := by
  obtain ⟨fs1, f, fs2, rfl, hf, hkind⟩ := h.inside q hq hq'
  have hlf := h.old (hs _) (by simp) hf
  have hor := carry_or a a.attributes (f.attributes &&& a.keptMask) fs1 fun e he => by
    obtain ⟨hmem, -, hend⟩ := h.sub e (mem_append_left _ he)
    have hlt : e.endAddress < f.baseAddress := (pairwise_append.mp h.sorted).2.2 e he f mem_cons_self
    have hne := ((hs _).bounds hmem).2.1
    have h1 := hf.1
    exact hasc (max e.baseAddress a.baseAddress) q e.kind f.kind (le_max_right _ _) (by omega) hq'
      (h.old (hs _) (mem_append_left _ he) ⟨le_max_left _ _, max_le hne hend⟩) hlf
  rw [hkind, hlf, convert_kind, map_some]
  unfold ConvertArgs.change MapEntry.kind
  cases hop : a.operation <;> simp only [hor]

end

/-- **`CoreConvertSpace` changes each byte as requested if and only if no byte of the range keeps attributes that a
later one does not keep**; the loop carries what it kept from entry to entry. -/
theorem coreConvertSpace_changesBytes_iff (hs : Whole stop s) (hstop : ∀ space, stop space ≤ 2^64)
    (hlen : a.length < 2^64) (hfit : a.baseAddress + a.length ≤ 2^64)
    (hrun : coreConvertSpace env a s = (.ok none, s')) : a.ChangesBytes s s' ↔ a.Ascending s := by
  cases href : a.refused env s with
  | some e =>
    obtain ⟨n, hrun'⟩ := coreConvertSpace_refused href
    rw [hrun'] at hrun
    cases hrun
  | none =>
    obtain ⟨map', range, hrun', -, -, -, hconverted⟩ := coreConvertSpace_fits hs hstop hlen href hfit
    rw [hrun'] at hrun
    cases hrun
    constructor
    · intro hbytes
      refine hconverted.ascending hs fun p hp hp' => ?_
      have h := hbytes a.operation.space p
      rwa [setMap_maps_same, if_pos ⟨rfl, hp, hp'⟩] at h
    · intro hasc space p
      by_cases hspace : space = a.operation.space
      · subst hspace
        rw [setMap_maps_same]
        by_cases hp : a.baseAddress ≤ p ∧ p < a.baseAddress + a.length
        · rw [if_pos ⟨rfl, hp⟩]
          exact hconverted.bytes hs hasc hp.1 hp.2
        · rw [if_neg fun h => hp h.2]
          exact hconverted.outside p hp
      · rw [if_neg fun h => hspace h.1]
        unfold GcdState.setMap
        dsimp only
        rw [update_of_ne hspace]

end

/-- two pages of one kind of memory: the first one is not cached, the second one has the cache type `attributes` -/
def twoPages (attributes : Nat) : GcdState where
  maps := fun _ =>
    [⟨⟨0, 0xFFF, efiMemoryRuntime ||| efiMemoryUc ||| efiMemoryWb, efiMemoryUc, .systemMemory, .nonExistent⟩, 0, 0⟩,
      ⟨⟨0x1000, 0x1FFF, efiMemoryRuntime ||| efiMemoryUc ||| efiMemoryWb, attributes, .systemMemory, .nonExistent⟩, 0, 0⟩]
  attempts := 0

def runtimePages : ConvertArgs := ⟨.setAttributesMemory, .nonExistent, .nonExistent, 0, 0x2000, 0, efiMemoryRuntime⟩

def plainEnv : Env where
  spare := fun _ => true
  gCpu := none
  gImageHandle := 1
  coreAddMemoryDescriptor := fun _ _ _ map => map

/-- the second page gets the cache type of the first one as well -/
theorem twoPages_carried : (coreConvertSpace plainEnv runtimePages (twoPages efiMemoryWb)).1 = .ok none ∧
    ¬ runtimePages.ChangesBytes (twoPages efiMemoryWb)
      (coreConvertSpace plainEnv runtimePages (twoPages efiMemoryWb)).2 := by
  refine ⟨by decide +kernel, fun h => ?_⟩
  have hbyte : kindAt ((coreConvertSpace plainEnv runtimePages (twoPages efiMemoryWb)).2.maps .memory) 0x1000 ≠
      (kindAt ((twoPages efiMemoryWb).maps .memory) 0x1000).map (runtimePages.change runtimePages.attributes) := by
    decide +kernel
  exact hbyte (h .memory 0x1000)

theorem twoPages_same : runtimePages.ChangesBytes (twoPages efiMemoryUc)
      (coreConvertSpace plainEnv runtimePages (twoPages efiMemoryUc)).2 ↔
    runtimePages.Ascending (twoPages efiMemoryUc) := by
  have hs : Whole (fun _ => 0x2000) (twoPages efiMemoryUc) := fun _ => ⟨rfl, by decide, rfl, by decide, rfl⟩
  have hok : (coreConvertSpace plainEnv runtimePages (twoPages efiMemoryUc)).1 = .ok none := by decide +kernel
  exact coreConvertSpace_changesBytes_iff hs (fun _ => by norm_num) (by decide) (by decide) (Prod.ext hok rfl)

/-! ## `CoreAllocateSpace` -/

section
variable {env : Env} {a : AllocateArgs} {s : GcdState} {stop : Space → Nat} {map : List MapEntry}

lemma keepsBounds_allocate (a : AllocateArgs) : KeepsBounds a.convert :=
  ⟨fun _ _ => rfl, fun _ _ => rfl, fun _ _ _ _ => rfl, fun _ _ _ _ => rfl⟩

structure SpaceFound (a : AllocateArgs) (map : List MapEntry) (i k base : Nat) : Prop where
  image : a.imageHandle ≠ 0
  length : a.length ≠ 0
  found : ∃ before range after, Found map base (lastAddress base a.length) i k before range after ∧
    ∀ e ∈ range, e.imageHandle = 0

lemma imageHandle_of_check {operation : Operation} {type : GcdMemoryType} {ioType : GcdIoType} {e : MapEntry}
    (h : coreAllocateSpaceCheckEntry operation type ioType e = none) : e.imageHandle = 0 := by
  unfold coreAllocateSpaceCheckEntry at h
  by_contra hne
  rw [if_pos hne] at h
  cases h

variable {i k base : Nat} {b : Option Nat} {last : Nat}

lemma AllocateArgs.space_spec (hm : Ranges map 0 last) (hpos : 0 < last) (hlast : last ≤ 2^63)
    (hlen : a.length < 2^64) (hbase : ∀ b, a.baseAddress = some b → b < 2^64) :
    ∃ r b, a.space map = .ok (r, b) ∧ ∀ i k base, r = .ok (i, k, base) → SpaceFound a map i k base := by
  unfold AllocateArgs.space
  cases ht : a.gcdAllocateType with
  | none => exact ⟨_, _, rfl, nofun⟩
  | some type =>
    cases hmt : a.gcdMemoryType with
    | none => exact ⟨_, _, rfl, nofun⟩
    | some mt =>
      cases hio : a.gcdIoType with
      | none => exact ⟨_, _, rfl, nofun⟩
      | some ioType =>
        cases hb : a.baseAddress with
        | none => exact ⟨_, _, rfl, nofun⟩
        | some b =>
          dsimp only
          by_cases himage : a.imageHandle = 0
          · rw [if_pos himage]
            exact ⟨_, _, rfl, nofun⟩
          rw [if_neg himage]
          by_cases halign : 64 ≤ a.alignment
          · rw [if_pos halign]
            exact ⟨_, _, rfl, nofun⟩
          rw [if_neg halign]
          by_cases hne : a.length = 0
          · rw [if_pos hne]
            exact ⟨_, _, rfl, nofun⟩
          rw [if_neg hne]
          obtain ⟨r, base', hfind, hr⟩ := findSpace_spec type
            (coreAllocateSpaceCheckEntry a.operation mt ioType) hm hpos hlast hlen hne (not_le.mp halign)
            (hbase b hb)
          rw [hfind]
          refine ⟨_, _, rfl, fun i k base h => ?_⟩
          cases r with
          | error e => cases h
          | ok x =>
            cases h
            obtain ⟨-, before, range, after, hf, hcheck⟩ := hr _ _ rfl
            exact ⟨himage, hne, before, range, after, hf, fun e he => imageHandle_of_check (hcheck e he)⟩

lemma coreAllocateSpace_refused {e : Status} (h : a.space (s.maps a.operation.space) = .ok (.error e, b)) :
    coreAllocateSpace env a s = (.ok (some e, b), s) := by
  show (lift (a.space (s.maps a.operation.space)) >>= fun x => _ : GcdProg (Option Status × Option Nat)) s = _
  rw [h]
  rfl

section
variable (h : a.space (s.maps a.operation.space) = .ok (.ok (i, k, base), b))
include h

lemma coreAllocateSpace_noSpare (hspare : env.spare s.attempts = false) :
    coreAllocateSpace env a s = (.ok (some .outOfResources, b), { s with attempts := s.attempts + 1 }) := by
  show (lift (a.space (s.maps a.operation.space)) >>= fun x => _ : GcdProg (Option Status × Option Nat)) s = _
  rw [h]
  show (if env.spare s.attempts = false then _ else _ : GcdProg (Option Status × Option Nat))
    { s with attempts := s.attempts + 1 } = _
  rw [if_pos hspare]
  rfl

lemma coreAllocateSpace_found {map' : List MapEntry} (hspare : env.spare s.attempts = true)
    (hmap : convertRange base a.length a.convert 0 (s.maps a.operation.space) i k = .ok map') :
    coreAllocateSpace env a s =
      (.ok (none, b), ({ s with attempts := s.attempts + 1 } : GcdState).setMap a.operation.space map') := by
  show (lift (a.space (s.maps a.operation.space)) >>= fun x => _ : GcdProg (Option Status × Option Nat)) s = _
  rw [h]
  show (if env.spare s.attempts = false then _ else _ : GcdProg (Option Status × Option Nat))
    { s with attempts := s.attempts + 1 } = _
  rw [if_neg fun hno => Bool.false_ne_true (hno.symm.trans hspare)]
  show (lift (convertRange base a.length a.convert 0 (s.maps a.operation.space) i k) >>= fun x => _ :
    GcdProg (Option Status × Option Nat)) _ = _
  rw [hmap]
  rfl

end

lemma SpaceFound.fits (h : SpaceFound a map i k base) (hm : Ranges map 0 last)
    (hlast : last ≤ 2^63) (hlen : a.length < 2^64) (hfit : base + a.length ≤ 2^64) :
    ∃ map', convertRange base a.length a.convert 0 map i k = .ok map' ∧ Ranges map' 0 last ∧
      ∀ p, ¬ (base ≤ p ∧ p < base + a.length) → kindAt map' p = kindAt map p := by
  obtain ⟨before, range, after, hf, -⟩ := h.found
  obtain ⟨map', hmap, hranges, houtside, -⟩ := convertRange_ranges (keepsBounds_allocate a) hm (by omega) hlen
    h.length hf hfit 0
  exact ⟨map', hmap, hranges, houtside⟩

lemma SpaceFound.wraps (h : SpaceFound a map i k base) (hm : Ranges map 0 last)
    (hlast : last ≤ 2^63) (hlen : a.length < 2^64) (hwrap : 2^64 < base + a.length) :
    ∃ map', convertRange base a.length a.convert 0 map i k = .ok map' ∧ ∃ x ∈ map', x.endAddress < x.baseAddress := by
  obtain ⟨before, range, after, hf, himage⟩ := h.found
  obtain ⟨e, m, n, rfl, hlt, hmap⟩ := convertRange_wrapped a.convert hm (by omega) hlen h.length hf hwrap 0
  refine ⟨_, hmap, _, (coreCleanupGcdMapEntry_wrapped e _ m n before after).2 fun hkind => ?_, hlt⟩
  -- the entry was free, and is not any more
  have hzero := himage e (mem_singleton.mpr rfl)
  have heq : a.imageHandle = e.imageHandle := congrArg (fun k : Kind => k.2.2.2.2.1) hkind
  exact h.image (heq.trans hzero)

end

end Audk.Gcd
