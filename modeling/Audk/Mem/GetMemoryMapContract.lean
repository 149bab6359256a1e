import Audk.Mem.GetMemoryMap

/-!
# The contract of `CoreGetMemoryMap`

A list of descriptors is tidy if its ranges are not empty, do not reach the end of the address space
and are disjoint.  Both ways of merging replace two ranges by their union (`Unites`), so a tidy list
stays tidy and reports the same types.

* `gcdRuns`: the GCD ranges after merging;
* `coreGetMemoryMap_contract`: the buffer suffices, and the map is complete and exact.
-/

namespace Audk.Mem

open Prog Slots List Function

/-! ## tidy lists -/

def Reports (l : List MemoryDescriptor) (a type : Nat) : Prop := ∃ d ∈ l, d.Covers a ∧ d.type = type

structure Tidy (l : List MemoryDescriptor) : Prop where
  nonempty : ∀ d ∈ l, 0 < d.numberOfPages
  stop_lt : ∀ d ∈ l, d.stop < 2^64
  disjoint : l.Pairwise DisjointRanges

structure Unites (x m d : MemoryDescriptor) : Prop where
  left : m.type = x.type
  right : d.type = x.type
  nonempty : 0 < x.numberOfPages
  stop_lt : x.stop < 2^64
  covers : ∀ a, x.Covers a ↔ m.Covers a ∨ d.Covers a

/-- `l'` is as tidy as `l` and reports the same -/
def SameMap (l l' : List MemoryDescriptor) : Prop := Tidy l → Tidy l' ∧ ∀ a type, Reports l' a type ↔ Reports l a type

section
variable {arch : Arch} {l l' l'' : List MemoryDescriptor} {x m d : MemoryDescriptor}

lemma SameMap.refl (l : List MemoryDescriptor) : SameMap l l := fun h => ⟨h, fun _ _ => Iff.rfl⟩

lemma SameMap.trans (h : SameMap l l') (h' : SameMap l' l'') : SameMap l l'' := by
  intro ht
  obtain ⟨ht', hr'⟩ := h ht
  obtain ⟨ht'', hr''⟩ := h' ht'
  exact ⟨ht'', fun a type => (hr'' a type).trans (hr' a type)⟩

lemma Tidy.perm (h : Tidy l) (hp : l.Perm l') : Tidy l' where
  nonempty := fun d hd => h.nonempty d (hp.mem_iff.mpr hd)
  stop_lt := fun d hd => h.stop_lt d (hp.mem_iff.mpr hd)
  disjoint := hp.pairwise h.disjoint DisjointRanges.symm

lemma SameMap.perm (hp : l.Perm l') : SameMap l l' := by
  refine fun h => ⟨h.perm hp, fun a type => ?_⟩
  unfold Reports
  simp only [hp.mem_iff]

lemma reports_append (l k : List MemoryDescriptor) (a type : Nat) :
    Reports (l ++ k) a type ↔ Reports l a type ∨ Reports k a type := by
  unfold Reports
  simp only [mem_append, or_and_right, exists_or]

lemma SameMap.append (h : SameMap l l') (k : List MemoryDescriptor) : SameMap (l ++ k) (l' ++ k) := by
  intro ht
  obtain ⟨hl, hk, hlk⟩ := pairwise_append.mp ht.disjoint
  obtain ⟨ht', hr⟩ := h ⟨fun y hy => ht.nonempty y (mem_append_left _ hy),
    fun y hy => ht.stop_lt y (mem_append_left _ hy), hl⟩
  refine ⟨⟨?_, ?_, ?_⟩, ?_⟩
  · intro y hy
    exact (mem_append.mp hy).elim (ht'.nonempty y) fun hy => ht.nonempty y (mem_append_right _ hy)
  · intro y hy
    exact (mem_append.mp hy).elim (ht'.stop_lt y) fun hy => ht.stop_lt y (mem_append_right _ hy)
  · refine pairwise_append.mpr ⟨ht'.disjoint, hk, fun y hy z hz a ha => ?_⟩
    obtain ⟨x, hx, hxa, -⟩ := (hr a y.type).mp ⟨y, hy, ha.1, rfl⟩
    exact hlk x hx z hz a ⟨hxa, ha.2⟩
  · intro a type
    rw [reports_append, reports_append, hr]

lemma Unites.sameMap (h : Unites x m d) (l : List MemoryDescriptor) : SameMap (m :: d :: l) (x :: l) := by
  intro ht
  have hdis := ht.disjoint
  rw [List.pairwise_cons, List.pairwise_cons] at hdis
  obtain ⟨hm, hd, hl⟩ := hdis
  refine ⟨⟨?_, ?_, ?_⟩, ?_⟩
  · intro y hy
    rcases List.mem_cons.mp hy with rfl | hy
    · exact h.nonempty
    · exact ht.nonempty y (List.mem_cons_of_mem _ (List.mem_cons_of_mem _ hy))
  · intro y hy
    rcases List.mem_cons.mp hy with rfl | hy
    · exact h.stop_lt
    · exact ht.stop_lt y (List.mem_cons_of_mem _ (List.mem_cons_of_mem _ hy))
  · refine List.pairwise_cons.mpr ⟨fun y hy a ha => ?_, hl⟩
    rcases (h.covers a).mp ha.1 with hma | hda
    · exact hm y (List.mem_cons_of_mem _ hy) a ⟨hma, ha.2⟩
    · exact hd y hy a ⟨hda, ha.2⟩
  · intro a type
    unfold Reports
    simp only [List.exists_mem_cons_iff, h.covers, h.left, h.right, or_and_right, or_assoc]

/-! ## what the code merges -/

lemma efiPagesToSizeN_le (arch : Arch) (pages : Nat) : efiPagesToSizeN arch pages ≤ pages * efiPageSize :=
  (Nat.mod_le _ _).trans (Nat.mul_le_mul_right _ (Nat.mod_le _ _))

lemma stop_eq (d : MemoryDescriptor) : d.stop = d.physicalStart + d.numberOfPages * efiPageSize := rfl

lemma efiPageSize_pos : 0 < efiPageSize := by decide

lemma add_pages_lt (hm : m.stop < 2^64) (hd : d.stop < 2^64)
    (h : m.stop = d.physicalStart ∨ d.stop = m.physicalStart) :
    (m.numberOfPages + d.numberOfPages) % 2^64 = m.numberOfPages + d.numberOfPages := by
  have hpage : efiPageSize = 4096 := rfl
  have hm1 := stop_eq m
  have hd1 := stop_eq d
  rw [hpage] at hm1 hd1
  rcases h with h | h <;> omega

lemma unites_above (hm : 0 < m.numberOfPages) (hd : d.stop < 2^64) (htype : m.type = d.type)
    (hadj : m.stop = d.physicalStart) :
    Unites { m with numberOfPages := m.numberOfPages + d.numberOfPages } m d := by
  have hstop : MemoryDescriptor.stop { m with numberOfPages := m.numberOfPages + d.numberOfPages } = d.stop := by
    rw [stop_eq, stop_eq, ← hadj, stop_eq]
    show m.physicalStart + (m.numberOfPages + d.numberOfPages) * efiPageSize = _
    rw [Nat.add_mul, Nat.add_assoc]
  refine ⟨rfl, htype.symm, Nat.add_pos_left hm _, hstop ▸ hd, fun a => ?_⟩
  have h1 := stop_eq m
  have h2 := stop_eq d
  unfold MemoryDescriptor.Covers
  rw [hstop]
  show m.physicalStart ≤ a ∧ a < d.stop ↔ _
  omega

lemma unites_below (hm : m.stop < 2^64) (hd : 0 < d.numberOfPages) (htype : m.type = d.type)
    (hadj : d.stop = m.physicalStart) : Unites { m with
      physicalStart := d.physicalStart
      virtualStart := d.virtualStart
      numberOfPages := m.numberOfPages + d.numberOfPages } m d := by
  have hstop : MemoryDescriptor.stop { m with
      physicalStart := d.physicalStart
      virtualStart := d.virtualStart
      numberOfPages := m.numberOfPages + d.numberOfPages } = m.stop := by
    rw [stop_eq, stop_eq, ← hadj, stop_eq]
    show d.physicalStart + (m.numberOfPages + d.numberOfPages) * efiPageSize = _
    rw [Nat.add_mul]
    omega
  refine ⟨rfl, htype.symm, Nat.add_pos_right _ hd, hstop ▸ hm, fun a => ?_⟩
  have h1 := stop_eq m
  have h2 := stop_eq d
  unfold MemoryDescriptor.Covers
  rw [hstop]
  show d.physicalStart ≤ a ∧ a < m.stop ↔ _
  omega

/-- a size that is cut off to a `UINTN` would put the start of one range into the other one -/
lemma mergedWith_unites (hm : 0 < m.numberOfPages) (hd : 0 < d.numberOfPages) (hms : m.stop < 2^64)
    (hds : d.stop < 2^64) (hdis : DisjointRanges m d) (h : mergedWith arch m d = some x) :
    Unites x m d := by
  have hm1 := stop_eq m
  have hd1 := stop_eq d
  have hpm := efiPagesToSizeN_le arch m.numberOfPages
  have hpd := efiPagesToSizeN_le arch d.numberOfPages
  have hmpos : 0 < m.numberOfPages * efiPageSize := Nat.mul_pos hm efiPageSize_pos
  have hdpos : 0 < d.numberOfPages * efiPageSize := Nat.mul_pos hd efiPageSize_pos
  unfold mergedWith at h
  split_ifs at h with htype hattr habove hbelow
  · have htype := not_not.mp htype
    have hadj : m.stop = d.physicalStart := by
      by_contra hne
      refine hdis d.physicalStart ⟨⟨by omega, by omega⟩, ⟨le_rfl, by omega⟩⟩
    rw [add_pages_lt hms hds (.inl hadj)] at h
    rw [← Option.some.inj h]
    exact unites_above hm hds htype hadj
  · have htype := not_not.mp htype
    have hadj : d.stop = m.physicalStart := by
      unfold sub64 at hbelow
      by_contra hne
      refine hdis m.physicalStart ⟨⟨le_rfl, by omega⟩, ⟨by omega, by omega⟩⟩
    rw [add_pages_lt hms hds (.inr hadj)] at h
    rw [← Option.some.inj h]
    exact unites_below hms hd htype hadj

lemma joins_unites (hm : 0 < m.numberOfPages) (hms : m.stop < 2^64) (hds : d.stop < 2^64) (h : Joins m d) :
    Unites (joined m d) m d := by
  obtain ⟨htype, -, hstart⟩ := h
  have hm1 := stop_eq m
  have hadj : m.stop = d.physicalStart := by
    rw [efiPagesToSize, Nat.mod_eq_of_lt (a := m.numberOfPages * efiPageSize) (by omega),
      Nat.mod_eq_of_lt (by omega)] at hstart
    omega
  rw [joined, add_pages_lt hms hds (.inl hadj)]
  exact unites_above hm hds htype hadj

/-! ## a new descriptor -/

def insertDescriptor (arch : Arch) (d : MemoryDescriptor) : List MemoryDescriptor → List MemoryDescriptor
  | [] => [d]
  | m :: ms =>
    match mergedWith arch m d with
    | some x => x :: ms
    | none => m :: insertDescriptor arch d ms

/-- the first slots of a buffer of `n` slots hold `l` -/
structure Holds (n : Nat) (l : List MemoryDescriptor) (b : Slots MemoryDescriptor) : Prop where
  size : b.size = n
  unread : b.unread ≤ 0
  slots : HoldsFrom b.slot 0 l

variable {ms pre : List MemoryDescriptor} {n : Nat} {b : Slots MemoryDescriptor}
  {E : SlotFault → Slots MemoryDescriptor → Prop}

lemma insertDescriptor_some {x m : MemoryDescriptor} (h : mergedWith arch m d = some x) :
    insertDescriptor arch d (m :: ms) = x :: ms := by
  rw [insertDescriptor, h]

lemma insertDescriptor_none {m : MemoryDescriptor} (h : mergedWith arch m d = none) :
    insertDescriptor arch d (m :: ms) = m :: insertDescriptor arch d ms := by
  rw [insertDescriptor, h]

lemma length_insertDescriptor (l : List MemoryDescriptor) : (insertDescriptor arch d l).length ≤ l.length + 1 := by
  induction l with
  | nil => exact le_rfl
  | cons m l ih =>
    cases h : mergedWith arch m d with
    | some x =>
      rw [insertDescriptor_some h, length_cons, length_cons]
      omega
    | none =>
      rw [insertDescriptor_none h, length_cons, length_cons]
      omega

lemma insertDescriptor_sameMap (l : List MemoryDescriptor) : SameMap (d :: l) (insertDescriptor arch d l) := by
  induction l with
  | nil => exact SameMap.refl _
  | cons m l ih =>
    cases h : mergedWith arch m d with
    | some x =>
      rw [insertDescriptor_some h]
      intro ht
      have ht' := ht.perm (List.Perm.swap m d l)
      have hu : Unites x m d :=
        mergedWith_unites (ht'.nonempty m mem_cons_self)
          (ht'.nonempty d (mem_cons_of_mem _ mem_cons_self))
          (ht'.stop_lt m mem_cons_self)
          (ht'.stop_lt d (mem_cons_of_mem _ mem_cons_self))
          ((pairwise_cons.mp ht'.disjoint).1 d mem_cons_self) h
      exact (SameMap.perm (List.Perm.swap m d l)).trans (hu.sameMap l) ht
    | none =>
      rw [insertDescriptor_none h]
      -- the head stays, and the rest is changed as in the shorter list
      have hfirst : (d :: m :: l).Perm ((d :: l) ++ [m]) :=
        (List.Perm.swap m d l).trans (perm_append_singleton m (d :: l)).symm
      exact ((SameMap.perm hfirst).trans (ih.append [m])).trans (SameMap.perm (perm_append_singleton m _))

/-- the loop of `MergeMemoryMapDescriptor`; the descriptors of `pre` could not be merged -/
lemma wp_mergeFrom (pre : List MemoryDescriptor) (hb : Holds n (pre ++ ms ++ [d]) b) (hn : (pre ++ ms).length < n) :
    wp (mergeFrom arch (pre ++ ms).length pre.length ms.length)
      (fun next b' => next = (pre ++ insertDescriptor arch d ms).length ∧
        Holds n (pre ++ insertDescriptor arch d ms) b') E b := by
  induction ms generalizing pre with
  | nil =>
    refine ⟨?_, ?_⟩
    · rw [append_nil, insertDescriptor, length_append, length_singleton]
    · rw [append_nil] at hb
      exact hb
  | cons m ms ih =>
    have hlast : b.slot (pre ++ m :: ms).length = d := by
      have := HoldsFrom.get (m := []) hb.slots
      rwa [Nat.zero_add] at this
    have hat : b.slot pre.length = m := by
      have h := hb.slots
      rw [append_assoc] at h
      have := HoldsFrom.get h
      rwa [Nat.zero_add] at this
    have hlen : (pre ++ m :: ms).length = pre.length + (ms.length + 1) := by
      rw [length_append, length_cons]
    rw [length_cons, mergeFrom, wp_bind]
    refine wp_peek (by rw [hb.size]; omega) ?_
    rw [wp_bind]
    refine wp_peek (by rw [hb.size]; omega) ?_
    rw [hat, hlast]
    cases h : mergedWith arch m d with
    | some x =>
      rw [insertDescriptor_some h]
      show wp (write _ x >>= _) _ _ _
      rw [wp_bind]
      refine wp_write (by rw [hb.size]; omega) (by have := hb.unread; omega) ?_
      refine ⟨?_, hb.size, hb.unread, ?_⟩
      · rw [hlen, length_append, length_cons]
      · have hset := hb.slots
        rw [append_assoc] at hset
        have hset' := HoldsFrom.set x hset
        rw [Nat.zero_add] at hset'
        have e : pre ++ x :: (ms ++ [d]) = (pre ++ x :: ms) ++ [d] := by
          rw [append_assoc, cons_append]
        exact HoldsFrom.left (e ▸ hset')
    | none =>
      rw [insertDescriptor_none h]
      have e1 : pre ++ m :: ms = (pre ++ [m]) ++ ms := by rw [append_assoc]; rfl
      have e2 : pre ++ m :: insertDescriptor arch d ms = (pre ++ [m]) ++ insertDescriptor arch d ms := by
        rw [append_assoc]
        rfl
      have e3 : pre.length + 1 = (pre ++ [m]).length := by
        rw [length_append, length_singleton]
      show wp (mergeFrom arch _ (pre.length + 1) ms.length) _ _ _
      rw [e1, e2, e3]
      rw [e1] at hb hn
      exact ih (pre ++ [m]) hb hn

/-- **a descriptor is written and merged** -/
theorem wp_addDescriptor (hb : Holds n l b) (hn : l.length < n) : wp (addDescriptor arch d l.length)
      (fun next b' => next = (insertDescriptor arch d l).length ∧ Holds n (insertDescriptor arch d l) b') E b := by
  unfold addDescriptor mergeMemoryMapDescriptor
  rw [wp_bind]
  refine wp_write (by rw [hb.size]; exact hn) (by have := hb.unread; omega) ?_
  have hsnoc := hb.slots.snoc d
  rw [Nat.zero_add] at hsnoc
  exact wp_mergeFrom [] ⟨hb.size, hb.unread, hsnoc⟩ hn

def insertAll (arch : Arch) (l ds : List MemoryDescriptor) : List MemoryDescriptor :=
  ds.foldl (fun l d => insertDescriptor arch d l) l

lemma length_insertAll (l ds : List MemoryDescriptor) : (insertAll arch l ds).length ≤ l.length + ds.length := by
  induction ds generalizing l with
  | nil => exact le_rfl
  | cons d ds ih =>
    have h1 := ih (insertDescriptor arch d l)
    have h2 : (insertDescriptor arch d l).length ≤ l.length + 1 := length_insertDescriptor l
    rw [length_cons]
    exact h1.trans (by omega)

lemma insertAll_sameMap (l ds : List MemoryDescriptor) : SameMap (l ++ ds) (insertAll arch l ds) := by
  induction ds generalizing l with
  | nil =>
    rw [append_nil]
    exact SameMap.refl l
  | cons d ds ih =>
    refine SameMap.trans ?_ (ih (insertDescriptor arch d l))
    have hperm : (l ++ d :: ds).Perm ((d :: l) ++ ds) := perm_middle
    have hins : SameMap (d :: l) (insertDescriptor arch d l) := insertDescriptor_sameMap l
    exact (SameMap.perm hperm).trans (hins.append ds)

/-! ## the access bits and the last pass -/

variable {done rest : List MemoryDescriptor} {next : Nat}

def cleared (d : MemoryDescriptor) : MemoryDescriptor :=
  { d with attr := d.attr &&& (2^64 - 1 - efiMemoryAccessMask) }

lemma sameMap_cleared (l : List MemoryDescriptor) : SameMap l (l.map cleared) := by
  refine fun h => ⟨⟨?_, ?_, ?_⟩, ?_⟩
  · intro y hy
    obtain ⟨x, hx, rfl⟩ := mem_map.mp hy
    exact h.nonempty x hx
  · intro y hy
    obtain ⟨x, hx, rfl⟩ := mem_map.mp hy
    exact h.stop_lt x hx
  · exact pairwise_map.mpr (h.disjoint.imp fun hxy => hxy)
  · intro a type
    unfold Reports
    simp only [List.mem_map, exists_exists_and_eq_and]
    rfl

lemma wp_clearFrom (pre : List MemoryDescriptor) (hb : Holds n (pre ++ ms) b) (hn : (pre ++ ms).length ≤ n) :
    wp (loop (fun k _ => change k cleared) pre.length ms.length ())
      (fun _ b' => Holds n (pre ++ ms.map cleared) b') E b := by
  induction ms generalizing pre b with
  | nil => exact hb
  | cons m ms ih =>
    have hlen : (pre ++ m :: ms).length = pre.length + (ms.length + 1) := by
      rw [length_append, length_cons]
    have hat : b.slot pre.length = m := by
      have := HoldsFrom.get hb.slots
      rwa [Nat.zero_add] at this
    have hset := HoldsFrom.set (cleared m) hb.slots
    rw [Nat.zero_add] at hset
    rw [length_cons, loop, wp_bind]
    refine wp_change (by rw [hb.size]; omega) (by have := hb.unread; omega) ?_
    rw [hat]
    have e1 : pre ++ cleared m :: ms = (pre ++ [cleared m]) ++ ms := by rw [append_assoc]; rfl
    have e2 : pre ++ (m :: ms).map cleared = (pre ++ [cleared m]) ++ ms.map cleared := by
      rw [append_assoc]
      rfl
    have e3 : pre.length + 1 = (pre ++ [cleared m]).length := by
      rw [length_append, length_singleton]
    rw [e1] at hset
    rw [e2, e3]
    refine ih _ ⟨hb.size, hb.unread, hset⟩ ?_
    rw [← e1, length_append, length_cons, ← hlen]
    exact hn

lemma wp_clearAccess (hb : Holds n l b) (hn : l.length ≤ n) :
    wp (clearAccess l.length) (fun _ b' => Holds n (l.map cleared) b') E b :=
  wp_clearFrom [] hb hn

/-- the new descriptors `done` are in the first slots, the old ones `rest` from slot `next` on -/
structure Halves (n : Nat) (done rest : List MemoryDescriptor) (next : Nat)
    (b : Slots MemoryDescriptor) : Prop where
  size : b.size = n
  unread : b.unread ≤ 0
  new : HoldsFrom b.slot 0 done
  old : HoldsFrom b.slot next rest
  apart : done.length ≤ next
  room : next + rest.length ≤ n

/-- the last new descriptor takes in the ones that follow it -/
lemma wp_absorb (hb : Halves n (done ++ [d]) rest next b) : wp (absorb done.length next rest.length)
      (fun next' b' => ∃ d' rest', Halves n (done ++ [d']) rest' next' b' ∧
        next' + rest'.length = next + rest.length ∧ next ≤ next' ∧
        SameMap (done ++ [d] ++ rest) (done ++ [d'] ++ rest')) E b := by
  induction rest generalizing d next b with
  | nil => exact ⟨d, [], hb, rfl, le_rfl, SameMap.refl _⟩
  | cons e rest ih =>
    have hapart := hb.apart
    have hroom := hb.room
    rw [length_append, length_singleton] at hapart
    rw [length_cons] at hroom
    have hlast : b.slot done.length = d := by
      have := HoldsFrom.get (m := []) hb.new
      rwa [Nat.zero_add] at this
    have hnext : b.slot next = e := HoldsFrom.get (l := []) hb.old
    have hold : HoldsFrom b.slot (next + 1) rest := HoldsFrom.right (l := [e]) hb.old
    rw [length_cons, absorb, wp_bind]
    refine wp_peek (by rw [hb.size]; omega) ?_
    rw [wp_bind]
    refine wp_peek (by rw [hb.size]; omega) ?_
    rw [hlast, hnext, wp_ite]
    constructor
    · intro hjoin
      rw [wp_bind]
      refine wp_write (by rw [hb.size]; omega) (by have := hb.unread; omega) ?_
      have hset := HoldsFrom.set (joined d e) hb.new
      rw [Nat.zero_add] at hset
      have hhalves : Halves n (done ++ [joined d e]) rest (next+1)
          { b with slot := Function.update b.slot done.length (joined d e) } := by
        refine ⟨hb.size, hb.unread, hset, ?_, ?_, by omega⟩
        · exact hold.of_eq fun k h1 h2 => update_of_ne (by omega) _ _
        · rw [length_append, length_singleton]
          omega
      refine wp_post (ih hhalves) ?_
      rintro next' b' ⟨d', rest', hh, hlen, hle, hsame⟩
      refine ⟨d', rest', hh, by omega, by omega, SameMap.trans ?_ hsame⟩
      -- the joined pair is brought to the front of the list
      have hpair : (done ++ [d] ++ e :: rest).Perm (d :: e :: (done ++ rest)) := by
        rw [append_assoc]
        exact perm_middle.trans (List.Perm.cons d perm_middle)
      have hone (x : MemoryDescriptor) : (x :: (done ++ rest)).Perm (done ++ [x] ++ rest) := by
        rw [append_assoc]
        exact perm_middle.symm
      refine (SameMap.perm hpair).trans (SameMap.trans (fun ht => ?_) (SameMap.perm (hone _)))
      have hu := joins_unites (ht.nonempty d mem_cons_self) (ht.stop_lt d mem_cons_self)
        (ht.stop_lt e (mem_cons_of_mem _ mem_cons_self)) hjoin
      exact hu.sameMap _ ht
    · intro _
      exact ⟨d, e :: rest, hb, rfl, le_rfl, SameMap.refl _⟩

/-- **`MergeMemoryMap`** keeps what the map reports -/
theorem wp_mergeMemoryMap (hb : Holds n l b) (hn : l.length ≤ n) : wp (mergeMemoryMap l.length)
      (fun m b' => ∃ l', m = l'.length ∧ Holds n l' b' ∧ SameMap l l' ∧ l'.length ≤ l.length) E b := by
  have hlen : l.length = 0 ∨ ∃ k, l.length = k + 1 := by
    cases l.length with
    | zero => exact .inl rfl
    | succ k => exact .inr ⟨k, rfl⟩
  unfold mergeMemoryMap
  rw [wp_bind]
  rcases hlen with hzero | ⟨k, hk⟩
  · have hnil : l = [] := length_eq_zero_iff.mp hzero
    rw [hzero, wp_repeatWhile_succ]
    refine ⟨fun h => absurd h (Nat.not_lt_zero _), fun _ => ?_⟩
    exact ⟨[], rfl, hnil ▸ hb, hnil ▸ SameMap.refl _, Nat.zero_le _⟩
  rw [show l.length + 1 = 0 + k + 2 by omega]
  refine wp_repeatWhile_measure
    (fun k s b' => ∃ done rest, rest.length = k + 1 ∧ s.2 = done.length ∧
      s.1 + rest.length = l.length ∧ Halves n done rest s.1 b' ∧ SameMap l (done ++ rest)) ?_ 0 k
    ⟨[], l, hk, rfl, Nat.zero_add _, ⟨hb.size, hb.unread, .nil _ _, hb.slots, Nat.zero_le _, by
      show 0 + l.length ≤ n
      omega⟩, SameMap.refl _⟩
  rintro k s b' ⟨done, rest, hrest, hdone, hsum, hh, hsame⟩
  have hapart := hh.apart
  have hroom := hh.room
  refine ⟨by omega, ?_⟩
  obtain ⟨d, rest, rfl⟩ := exists_cons_of_length_eq_add_one hrest
  rw [length_cons] at hrest hsum hroom
  unfold mergeTurn
  rw [wp_bind]
  refine wp_peek (by rw [hh.size]; omega) ?_
  have hd : b'.slot s.1 = d := HoldsFrom.get (l := []) hh.old
  have hold : HoldsFrom b'.slot (s.1 + 1) rest := HoldsFrom.right (l := [d]) hh.old
  rw [hd, wp_bind, hdone]
  refine wp_write (by rw [hh.size]; omega) (by have := hh.unread; omega) ?_
  have hsnoc := hh.new.snoc d
  rw [Nat.zero_add] at hsnoc
  have hhalves : Halves n (done ++ [d]) rest (s.1 + 1)
      { b' with slot := Function.update b'.slot done.length d } := by
    refine ⟨hh.size, hh.unread, hsnoc, ?_, ?_, by omega⟩
    · exact hold.of_eq fun j h1 h2 => update_of_ne (by omega) _ _
    · rw [length_append, length_singleton]
      omega
  have hcount : l.length - (s.1 + 1) = rest.length := by omega
  rw [wp_bind, hcount]
  refine wp_post (wp_absorb hhalves) ?_
  rintro next b'' ⟨d', rest', hh', hlen', hle, hsame'⟩
  have hwhole : SameMap l (done ++ [d'] ++ rest') := by
    refine hsame.trans ?_
    rw [show done ++ d :: rest = done ++ [d] ++ rest by rw [append_assoc]; rfl]
    exact hsame'
  have hlength : (done ++ [d']).length = done.length + 1 := by
    rw [length_append, length_singleton]
  rcases Nat.eq_zero_or_pos rest'.length with hz | hpos
  · refine .inl ⟨by show ¬ next < l.length; omega, ?_⟩
    rw [length_eq_zero_iff.mp hz, append_nil] at hwhole
    exact ⟨done ++ [d'], hlength.symm, ⟨hh'.size, hh'.unread, hh'.new⟩, hwhole, by
      omega⟩
  · exact .inr ⟨rest'.length - 1, by omega, done ++ [d'], rest', by omega, hlength.symm, by
      show next + _ = _
      omega, hh', hwhole⟩

end

/-! ## the GCD ranges -/

def gcdRuns : GcdMapEntry → List GcdMapEntry → List GcdMapEntry
  | m, [] => [m]
  | m, g :: gs =>
    if SameGcd m g then gcdRuns { m with endAddress := g.endAddress } gs else m :: gcdRuns g gs

def PartitionFrom : Nat → List GcdMapEntry → Prop
  | _, [] => True
  | a, g :: gs => g.baseAddress = a ∧ g.baseAddress ≤ g.endAddress ∧ PartitionFrom (g.endAddress + 1) gs

def gcdType (g : GcdMapEntry) : Option Nat := (gcdDescriptor g).map (·.type)

section
variable {m g : GcdMapEntry} {gs : List GcdMapEntry} {a : Nat}

lemma gcdType_congr (h : SameGcd m g) : gcdType m = gcdType g := by
  rcases m with ⟨b, e, c, at', t, i⟩
  rcases g with ⟨b', e', c', at'', t', i'⟩
  obtain ⟨hc, ha, ht, hi⟩ := h
  subst hc ha ht hi
  unfold gcdType gcdDescriptor GcdMapEntry.IsRuntimeMmio
  show Option.map _ (if t = _ ∨ (t = _ ∧ _) then _ else _) = Option.map _ (if t = _ ∨ (t = _ ∧ _) then _ else _)
  split_ifs <;> rfl

lemma gcdType_extend (m : GcdMapEntry) (e : Nat) :
    gcdType { m with endAddress := e } = gcdType m := gcdType_congr ⟨rfl, rfl, rfl, rfl⟩

lemma gcdRuns_same (h : SameGcd m g) :
    gcdRuns m (g :: gs) = gcdRuns { m with endAddress := g.endAddress } gs := if_pos h

lemma gcdRuns_other (h : ¬ SameGcd m g) : gcdRuns m (g :: gs) = m :: gcdRuns g gs := if_neg h

lemma gcdRuns_partition (hm : m.baseAddress ≤ m.endAddress) (h : PartitionFrom (m.endAddress + 1) gs) :
    PartitionFrom m.baseAddress (gcdRuns m gs) := by
  induction gs generalizing m with
  | nil => exact ⟨rfl, hm, trivial⟩
  | cons g gs ih =>
    obtain ⟨hbase, hg, hgs⟩ := h
    by_cases hs : SameGcd m g
    · rw [gcdRuns_same hs]
      exact ih (m := { m with endAddress := g.endAddress }) (by show m.baseAddress ≤ g.endAddress; omega) hgs
    · rw [gcdRuns_other hs]
      exact ⟨rfl, hm, hbase ▸ ih hg hgs⟩

lemma gcdRuns_reports (hm : m.baseAddress ≤ m.endAddress) (h : PartitionFrom (m.endAddress + 1) gs)
    (a : Nat) (t : Option Nat) : (∃ x ∈ gcdRuns m gs, x.Covers a ∧ gcdType x = t) ↔
      ∃ x ∈ m :: gs, x.Covers a ∧ gcdType x = t := by
  induction gs generalizing m with
  | nil => exact Iff.rfl
  | cons g gs ih =>
    obtain ⟨hbase, hg, hgs⟩ := h
    by_cases hs : SameGcd m g
    · have hext := ih (m := { m with endAddress := g.endAddress }) (by show m.baseAddress ≤ g.endAddress; omega) hgs
      have hcov : (GcdMapEntry.Covers { m with endAddress := g.endAddress } a) ↔ m.Covers a ∨ g.Covers a := by
        unfold GcdMapEntry.Covers
        show m.baseAddress ≤ a ∧ a ≤ g.endAddress ↔ _
        omega
      rw [gcdRuns_same hs, hext]
      simp only [List.exists_mem_cons_iff, hcov, gcdType_extend, ← gcdType_congr hs, or_and_right, or_assoc]
    · rw [gcdRuns_other hs, List.exists_mem_cons_iff, ih hg hgs]
      exact (List.exists_mem_cons_iff (fun x => x.Covers a ∧ gcdType x = t) m (g :: gs)).symm

lemma gcdRuns_aligned
    (h : ∀ x ∈ m :: gs, gcdType x ≠ none → efiPageSize ∣ x.baseAddress ∧ efiPageSize ∣ x.endAddress + 1) :
    ∀ x ∈ gcdRuns m gs, gcdType x ≠ none → efiPageSize ∣ x.baseAddress ∧ efiPageSize ∣ x.endAddress + 1 := by
  induction gs generalizing m with
  | nil => exact h
  | cons g gs ih =>
    have hm := h m mem_cons_self
    have hg := h g (mem_cons_of_mem _ mem_cons_self)
    have hgs := fun x hx => h x (mem_cons_of_mem _ (mem_cons_of_mem _ hx))
    by_cases hs : SameGcd m g
    · rw [gcdRuns_same hs]
      refine ih fun x hx hne => ?_
      rcases mem_cons.mp hx with rfl | hx
      · rw [gcdType_extend] at hne
        exact ⟨(hm hne).1, (hg (gcdType_congr hs ▸ hne)).2⟩
      · exact hgs x hx hne
    · rw [gcdRuns_other hs]
      intro x hx hne
      rcases mem_cons.mp hx with rfl | hx
      · exact hm hne
      · refine ih (fun y hy hyne => ?_) x hx hne
        rcases mem_cons.mp hy with rfl | hy
        · exact hg hyne
        · exact hgs y hy hyne

lemma gcdRuns_end : ∀ x ∈ gcdRuns m gs, ∃ y ∈ m :: gs, x.endAddress = y.endAddress := by
  induction gs generalizing m with
  | nil => exact fun x hx => ⟨x, hx, rfl⟩
  | cons g gs ih =>
    intro x hx
    by_cases hs : SameGcd m g
    · rw [gcdRuns_same hs] at hx
      obtain ⟨y, hy, he⟩ := ih x hx
      rcases mem_cons.mp hy with rfl | hy
      · exact ⟨g, mem_cons_of_mem _ mem_cons_self, he⟩
      · exact ⟨y, mem_cons_of_mem _ (mem_cons_of_mem _ hy), he⟩
    · rw [gcdRuns_other hs] at hx
      rcases mem_cons.mp hx with rfl | hx
      · exact ⟨x, mem_cons_self, rfl⟩
      · obtain ⟨y, hy, he⟩ := ih x hx
        exact ⟨y, mem_cons_of_mem _ hy, he⟩

lemma length_gcdRuns_le :
    ((gcdRuns m gs).filterMap gcdDescriptor).length ≤ ((m :: gs).filterMap gcdDescriptor).length := by
  have hlen (l : List GcdMapEntry) (x : GcdMapEntry) : ((x :: l).filterMap gcdDescriptor).length =
      (if gcdType x = none then 0 else 1) + (l.filterMap gcdDescriptor).length := by
    rw [filterMap_cons]
    unfold gcdType
    cases gcdDescriptor x with
    | none => exact (Nat.zero_add _).symm
    | some d =>
      exact Nat.add_comm _ _
  induction gs generalizing m with
  | nil => exact le_rfl
  | cons g gs ih =>
    by_cases hs : SameGcd m g
    · have h := ih (m := { m with endAddress := g.endAddress })
      rw [hlen, gcdType_extend] at h
      rw [gcdRuns_same hs, hlen, hlen]
      omega
    · have h := ih (m := g)
      rw [gcdRuns_other hs, hlen, hlen (g :: gs)]
      omega

/-! ## the whole function -/

variable {arch : Arch} {stats : Nat → MemoryTypeStatistics} {l : List MemoryDescriptor} {n : Nat}
  {b : Slots MemoryDescriptor} {E : SlotFault → Slots MemoryDescriptor → Prop}

lemma insertAll_cons (l ds : List MemoryDescriptor) (d : MemoryDescriptor) :
    insertAll arch l (d :: ds) = insertAll arch (insertDescriptor arch d l) ds := rfl

def addAll (arch : Arch) : List MemoryDescriptor → Nat → MapProg Nat :=
  forEach fun d next => addDescriptor arch d next

/-- **descriptors that find room are inserted** -/
theorem wp_addAll (ds : List MemoryDescriptor) (hb : Holds n l b) (hn : l.length + ds.length ≤ n) :
    wp (addAll arch ds l.length)
      (fun next b' => next = (insertAll arch l ds).length ∧ Holds n (insertAll arch l ds) b') E b := by
  induction ds generalizing l b with
  | nil => exact ⟨rfl, hb⟩
  | cons d ds ih =>
    rw [length_cons] at hn
    refine wp_seq (wp_addDescriptor hb (by omega)) ?_
    rintro next b' ⟨rfl, hb'⟩
    have hlen : (insertDescriptor arch d l).length ≤ l.length + 1 := length_insertDescriptor l
    exact ih hb' (by omega)

lemma insertDescriptor_append {d : MemoryDescriptor} (h : ∀ m ∈ l, mergedWith arch m d = none) :
    insertDescriptor arch d l = l ++ [d] := by
  induction l with
  | nil => rfl
  | cons m l ih =>
    rw [insertDescriptor_none (h m mem_cons_self), ih fun x hx => h x (mem_cons_of_mem _ hx)]
    rfl

/-- **descriptors that do not merge and do not find room are written outside of the buffer** -/
theorem wp_addAll_overflow (ds : List MemoryDescriptor)
    (hmerge : (l ++ ds).Pairwise fun m d => mergedWith arch m d = none) (hb : Holds n l b)
    (hl : l.length ≤ n) (hn : n < l.length + ds.length) :
    wp (addAll arch ds l.length) (fun _ _ => False) (fun e _ => e = .outside) b := by
  induction ds generalizing l b with
  | nil =>
    rw [length_nil] at hn
    omega
  | cons d ds ih =>
    rw [length_cons] at hn
    rw [addAll, forEach, wp_bind]
    rcases Nat.lt_or_eq_of_le hl with hlt | heq
    · have hd : ∀ m ∈ l, mergedWith arch m d = none :=
        fun m hm => (pairwise_append.mp hmerge).2.2 m hm d mem_cons_self
      refine wp_post (wp_addDescriptor hb hlt) ?_
      rintro next b' ⟨rfl, hb'⟩
      rw [insertDescriptor_append hd] at hb' ⊢
      have hlen : (l ++ [d]).length = l.length + 1 := length_append
      refine ih ?_ hb' (by omega) (by omega)
      rwa [append_assoc, singleton_append]
    · unfold addDescriptor
      rw [wp_bind]
      exact wp_write_outside (by rw [hb.size]; omega) rfl

lemma writeEntries_eq (es : List MemoryMapEntry) :
    writeEntries arch stats es = addAll arch (es.map (entryDescriptor stats)) := by
  funext next
  unfold writeEntries addAll
  induction es generalizing next with
  | nil => rfl
  | cons e es ih =>
    exact congrArg _ (funext ih)

lemma wp_writeGcd_iff (m : GcdMapEntry) (gs : List GcdMapEntry) (next : Nat)
    {P : Nat → Slots MemoryDescriptor → Prop} : wp (writeGcd arch gs m next) P E b ↔
      wp (addAll arch ((gcdRuns m gs).filterMap gcdDescriptor) next) P E b := by
  have hemit (g : GcdMapEntry) (next : Nat) (b : Slots MemoryDescriptor)
      (P : Nat → Slots MemoryDescriptor → Prop) : wp (emitGcd arch g next) P E b ↔
        wp (addAll arch ([g].filterMap gcdDescriptor) next) P E b := by
    unfold emitGcd
    rw [filterMap_cons, filterMap_nil]
    cases gcdDescriptor g with
    | none => exact Iff.rfl
    | some d =>
      rw [addAll, forEach, wp_bind]
      exact Iff.rfl
  induction gs generalizing m next b with
  | nil => exact hemit m next b P
  | cons g gs ih =>
    by_cases hs : SameGcd m g
    · rw [gcdRuns_same hs, writeGcd, if_pos hs]
      exact ih _ next
    have hsplit : (m :: gcdRuns g gs).filterMap gcdDescriptor =
        [m].filterMap gcdDescriptor ++ (gcdRuns g gs).filterMap gcdDescriptor := by
      rw [← filterMap_append, singleton_append]
    rw [gcdRuns_other hs, hsplit, addAll, wp_forEach_append, writeGcd, if_neg hs, wp_bind, hemit]
    simp only [ih]
    rfl

/-- the zeroed entry is never reported; the first range takes its place -/
lemma writeGcd_zero (g : GcdMapEntry) (gs : List GcdMapEntry) (next : Nat) (hg : g.baseAddress = 0) :
    writeGcd arch (g :: gs) zeroGcd next = writeGcd arch gs g next := by
  rw [writeGcd]
  by_cases hs : SameGcd zeroGcd g
  · rw [if_pos hs]
    rcases g with ⟨b, e, c, at', t, i⟩
    obtain ⟨hc, ha, ht, hi⟩ := hs
    subst hg hc ha ht hi
    rfl
  · rw [if_neg hs]
    rfl

end

/-! ## the contract -/

/-- the entries of `gMemoryMap` are whole pages below `2^64 - 1`, disjoint, and not in a reported GCD
range; the GCD entries partition the address space, and the reported ones are whole pages -/
structure ValidSource (m : MapSource) : Prop where
  paged : ∀ e ∈ m.gMemoryMap, e.Paged
  end_lt : ∀ e ∈ m.gMemoryMap, e.end_ + 1 < 2^64
  disjoint : m.gMemoryMap.Pairwise DisjointEntries
  gcd_partition : PartitionFrom 0 m.mGcdMemorySpaceMap
  gcd_end_lt : ∀ g ∈ m.mGcdMemorySpaceMap, g.endAddress + 1 < 2^64
  gcd_paged : ∀ g ∈ m.mGcdMemorySpaceMap, gcdType g ≠ none →
    efiPageSize ∣ g.baseAddress ∧ efiPageSize ∣ g.endAddress + 1
  apart : ∀ e ∈ m.gMemoryMap, ∀ g ∈ m.mGcdMemorySpaceMap, gcdType g ≠ none → ∀ a, ¬ (e.Covers a ∧ g.Covers a)

/-- the returned descriptors: disjoint, each page of `gMemoryMap` with its type or that of its bin, each
page of a reported GCD range with the type of the range, and no other page -/
structure ExactMap (m : MapSource) (result : List MemoryDescriptor) : Prop where
  disjoint : result.Pairwise DisjointRanges
  reports : ∀ a type, Reports result a type ↔
    (∃ e ∈ m.gMemoryMap, e.Covers a ∧ reportedType m.stats e = type) ∨
    ∃ g ∈ m.mGcdMemorySpaceMap, g.Covers a ∧ gcdType g = some type

section
variable {m : MapSource}

lemma entryDescriptor_stop {stats : Nat → MemoryTypeStatistics} {e : MemoryMapEntry} (h : e.Paged)
    (he : e.end_ + 1 < 2^64) : (entryDescriptor stats e).stop = e.end_ + 1 := by
  have h1 := h.nonempty
  have hdvd : efiPageSize ∣ e.end_ - e.start + 1 := by
    have := Nat.dvd_sub h.end_aligned h.start_aligned
    rwa [show e.end_ + 1 - e.start = e.end_ - e.start + 1 by omega] at this
  show e.start + (e.end_ - e.start + 1) % 2^64 / efiPageSize * efiPageSize = _
  rw [Nat.mod_eq_of_lt (by omega), Nat.div_mul_cancel hdvd]
  omega

variable {d : MemoryDescriptor} {g : GcdMapEntry} {gs : List GcdMapEntry}

lemma gcdRange_stop {type attr : Nat} (hg : g.baseAddress ≤ g.endAddress)
    (h1 : efiPageSize ∣ g.baseAddress) (h2 : efiPageSize ∣ g.endAddress + 1)
    (he : g.endAddress + 1 < 2^64) : (gcdRange g type attr).stop = g.endAddress + 1 := by
  have hdvd : efiPageSize ∣ g.endAddress - g.baseAddress + 1 := by
    have := Nat.dvd_sub h2 h1
    rwa [show g.endAddress + 1 - g.baseAddress = g.endAddress - g.baseAddress + 1 by omega] at this
  show g.baseAddress + (g.endAddress - g.baseAddress + 1) % 2^64 / efiPageSize * efiPageSize = _
  rw [Nat.mod_eq_of_lt (by omega), Nat.div_mul_cancel hdvd]
  omega

lemma pages_pos (h : d.physicalStart < d.stop) : 0 < d.numberOfPages := by
  rw [stop_eq] at h
  rcases Nat.eq_zero_or_pos d.numberOfPages with h0 | h0
  · rw [h0, Nat.zero_mul] at h
    exact absurd h (lt_irrefl _)
  · exact h0

lemma gcdDescriptor_eq (h : gcdDescriptor g = some d) : d = gcdRange g d.type d.attr := by
  unfold gcdDescriptor at h
  split_ifs at h <;> rw [← Option.some.inj h] <;> rfl

lemma partitionFrom_mem {a : Nat} (h : PartitionFrom a gs) :
    ∀ g ∈ gs, a ≤ g.baseAddress ∧ g.baseAddress ≤ g.endAddress := by
  induction gs generalizing a with
  | nil => exact fun g hg => absurd hg not_mem_nil
  | cons x gs ih =>
    obtain ⟨hbase, hx, hgs⟩ := h
    intro g hg
    rcases mem_cons.mp hg with rfl | hg
    · omega
    · have := ih hgs g hg
      omega

lemma partitionFrom_pairwise {a : Nat} (h : PartitionFrom a gs) :
    gs.Pairwise fun g g' => g.endAddress < g'.baseAddress := by
  induction gs generalizing a with
  | nil => exact List.Pairwise.nil
  | cons x gs ih =>
    obtain ⟨hbase, hx, hgs⟩ := h
    refine pairwise_cons.mpr ⟨fun g hg => ?_, ih hgs⟩
    have := partitionFrom_mem hgs g hg
    omega

lemma gcdDescriptor_range (h : gcdDescriptor g = some d)
    (hg : g.baseAddress ≤ g.endAddress) (he : g.endAddress + 1 < 2^64)
    (hal : gcdType g ≠ none → efiPageSize ∣ g.baseAddress ∧ efiPageSize ∣ g.endAddress + 1) :
    d.physicalStart = g.baseAddress ∧ d.stop = g.endAddress + 1 ∧ gcdType g = some d.type := by
  have htype : gcdType g = some d.type := by
    rw [gcdType, h]
    rfl
  obtain ⟨h1, h2⟩ := hal (by rw [htype]; exact Option.some_ne_none _)
  have hd := gcdDescriptor_eq h
  refine ⟨by rw [hd]; rfl, ?_, htype⟩
  rw [hd]
  exact gcdRange_stop hg h1 h2 he

lemma tidy_gcd {a : Nat} {rs : List GcdMapEntry} (hp : PartitionFrom a rs) (he : ∀ g ∈ rs, g.endAddress + 1 < 2^64)
    (hal : ∀ g ∈ rs, gcdType g ≠ none → efiPageSize ∣ g.baseAddress ∧ efiPageSize ∣ g.endAddress + 1) :
    Tidy (rs.filterMap gcdDescriptor) ∧ ∀ x type, Reports (rs.filterMap gcdDescriptor) x type ↔
        ∃ g ∈ rs, g.Covers x ∧ gcdType g = some type := by
  have hrange : ∀ g ∈ rs, ∀ d, gcdDescriptor g = some d →
      d.physicalStart = g.baseAddress ∧ d.stop = g.endAddress + 1 ∧ gcdType g = some d.type :=
    fun g hg d hd => gcdDescriptor_range hd (partitionFrom_mem hp g hg).2 (he g hg) (hal g hg)
  refine ⟨⟨?_, ?_, ?_⟩, ?_⟩
  · intro d hd
    obtain ⟨g, hg, hgd⟩ := mem_filterMap.mp hd
    obtain ⟨h1, h2, -⟩ := hrange g hg d hgd
    have := (partitionFrom_mem hp g hg).2
    exact pages_pos (by omega)
  · intro d hd
    obtain ⟨g, hg, hgd⟩ := mem_filterMap.mp hd
    obtain ⟨-, h2, -⟩ := hrange g hg d hgd
    rw [h2]
    exact he g hg
  · rw [pairwise_filterMap]
    refine (partitionFrom_pairwise hp).imp_of_mem ?_
    intro g g' hg hg' hlt d hd d' hd' x hx
    obtain ⟨h1, h2, -⟩ := hrange g hg d hd
    obtain ⟨h1', h2', -⟩ := hrange g' hg' d' hd'
    unfold MemoryDescriptor.Covers at hx
    omega
  · intro x type
    constructor
    · rintro ⟨d, hd, hx, rfl⟩
      obtain ⟨g, hg, hgd⟩ := mem_filterMap.mp hd
      obtain ⟨h1, h2, h3⟩ := hrange g hg d hgd
      unfold MemoryDescriptor.Covers at hx
      exact ⟨g, hg, ⟨by omega, by omega⟩, h3⟩
    · rintro ⟨g, hg, hx, ht⟩
      obtain ⟨d, hgd, hdt⟩ := Option.map_eq_some_iff.mp ht
      obtain ⟨h1, h2, -⟩ := hrange g hg d hgd
      unfold GcdMapEntry.Covers at hx
      exact ⟨d, mem_filterMap.mpr ⟨g, hg, hgd⟩, ⟨by omega, by omega⟩, hdt⟩

def sourceRuns (m : MapSource) : List GcdMapEntry :=
  match m.mGcdMemorySpaceMap with
  | [] => []
  | g :: gs => gcdRuns g gs

def rawDescriptors (m : MapSource) : List MemoryDescriptor :=
  m.gMemoryMap.map (entryDescriptor m.stats) ++ (sourceRuns m).filterMap gcdDescriptor

lemma ValidSource.runs (h : ValidSource m) :
    Tidy ((sourceRuns m).filterMap gcdDescriptor) ∧
      ∀ x type, Reports ((sourceRuns m).filterMap gcdDescriptor) x type ↔
        ∃ g ∈ m.mGcdMemorySpaceMap, g.Covers x ∧ gcdType g = some type := by
  have hp := h.gcd_partition
  have he := h.gcd_end_lt
  have hal := h.gcd_paged
  unfold sourceRuns
  cases hgcd : m.mGcdMemorySpaceMap with
  | nil =>
    rw [hgcd] at hp he hal
    exact tidy_gcd hp he hal
  | cons g gs =>
    rw [hgcd] at hp he hal
    obtain ⟨hbase, hg, hgs⟩ := hp
    have hend : ∀ x ∈ gcdRuns g gs, x.endAddress + 1 < 2^64 := by
      intro x hx
      obtain ⟨y, hy, hxy⟩ := gcdRuns_end x hx
      rw [hxy]
      exact he y hy
    obtain ⟨ht, hr⟩ := tidy_gcd (gcdRuns_partition hg hgs) hend (gcdRuns_aligned hal)
    exact ⟨ht, fun x type => (hr x type).trans (gcdRuns_reports hg hgs x (some type))⟩

lemma ValidSource.raw (h : ValidSource m) :
    Tidy (rawDescriptors m) ∧ ∀ x type, Reports (rawDescriptors m) x type ↔
      (∃ e ∈ m.gMemoryMap, e.Covers x ∧ reportedType m.stats e = type) ∨
      ∃ g ∈ m.mGcdMemorySpaceMap, g.Covers x ∧ gcdType g = some type := by
  obtain ⟨ht, hr⟩ := h.runs
  have hstop : ∀ e ∈ m.gMemoryMap, (entryDescriptor m.stats e).stop = e.end_ + 1 :=
    fun e he => entryDescriptor_stop (h.paged e he) (h.end_lt e he)
  have hcov : ∀ e ∈ m.gMemoryMap, ∀ x, (entryDescriptor m.stats e).Covers x ↔ e.Covers x := by
    intro e he x
    unfold MemoryDescriptor.Covers MemoryMapEntry.Covers
    rw [hstop e he, Nat.lt_succ_iff]
    rfl
  refine ⟨⟨?_, ?_, ?_⟩, ?_⟩
  · intro d hd
    rcases mem_append.mp hd with hd | hd
    · obtain ⟨e, he, rfl⟩ := mem_map.mp hd
      have hne := (h.paged e he).nonempty
      refine pages_pos ?_
      rw [hstop e he]
      exact Nat.lt_succ_of_le hne
    · exact ht.nonempty d hd
  · intro d hd
    rcases mem_append.mp hd with hd | hd
    · obtain ⟨e, he, rfl⟩ := mem_map.mp hd
      rw [hstop e he]
      exact h.end_lt e he
    · exact ht.stop_lt d hd
  · refine pairwise_append.mpr ⟨pairwise_map.mpr (h.disjoint.imp_of_mem ?_), ht.disjoint, ?_⟩
    · intro e f he hf hef x hx
      rw [hcov e he, hcov f hf] at hx
      unfold MemoryMapEntry.Covers at hx
      unfold DisjointEntries at hef
      omega
    · intro d hd d' hd' x hx
      obtain ⟨e, he, rfl⟩ := mem_map.mp hd
      obtain ⟨g, hg, hgx, hgt⟩ := (hr x d'.type).mp ⟨d', hd', hx.2, rfl⟩
      rw [hcov e he] at hx
      exact h.apart e he g hg (by rw [hgt]; exact Option.some_ne_none _) x ⟨hx.1, hgx⟩
  · intro x type
    rw [rawDescriptors, reports_append, hr]
    refine or_congr_left ?_
    constructor
    · rintro ⟨d, hd, hx, rfl⟩
      obtain ⟨e, he, rfl⟩ := mem_map.mp hd
      exact ⟨e, he, (hcov e he x).mp hx, rfl⟩
    · rintro ⟨e, he, hx, rfl⟩
      exact ⟨_, mem_map_of_mem he, (hcov e he x).mpr hx, rfl⟩

lemma gcdDescriptor_isSome (g : GcdMapEntry) :
    (gcdDescriptor g).isSome ↔ g.IsCounted ∨ g.gcdMemoryType = .unaccepted := by
  unfold gcdDescriptor GcdMapEntry.IsCounted
  by_cases h1 : g.gcdMemoryType = .reserved ∨ g.IsRuntimeMmio
  · rw [if_pos h1]
    exact iff_of_true rfl (.inl (.inr h1))
  by_cases h2 : g.gcdMemoryType = .persistent
  · rw [if_neg h1, if_pos h2]
    exact iff_of_true rfl (.inl (.inl h2))
  by_cases h3 : g.gcdMemoryType = .unaccepted
  · rw [if_neg h1, if_neg h2, if_pos h3]
    exact iff_of_true rfl (.inr h3)
  rw [if_neg h1, if_neg h2, if_neg h3]
  refine iff_of_false Bool.false_ne_true ?_
  rintro ((h | h) | h)
  · exact h2 h
  · exact h1 h
  · exact h3 h

lemma length_filterMap_gcd (gs : List GcdMapEntry) :
    (gs.filterMap gcdDescriptor).length =
      gs.countP (fun g => g.IsCounted) + gs.countP (fun g => g.gcdMemoryType = .unaccepted) := by
  have hcounted (g : GcdMapEntry) (h : g.gcdMemoryType = .unaccepted) : ¬ g.IsCounted := by
    unfold GcdMapEntry.IsCounted GcdMapEntry.IsRuntimeMmio
    rw [h]
    rintro (h | h | h)
    · cases h
    · cases h
    · cases h.1
  induction gs with
  | nil => rfl
  | cons g gs ih =>
    rw [List.countP_cons, List.countP_cons]
    have hsome := gcdDescriptor_isSome g
    have hdis := hcounted g
    rw [List.filterMap_cons]
    cases hg : gcdDescriptor g with
    | none =>
      rw [hg] at hsome
      have hn : ¬ (g.IsCounted ∨ g.gcdMemoryType = .unaccepted) := fun h => Bool.false_ne_true (hsome.mpr h)
      rw [not_or] at hn
      rw [if_neg (by rw [decide_eq_true_eq]; exact hn.1), if_neg (by rw [decide_eq_true_eq]; exact hn.2)]
      exact ih
    | some d =>
      rw [hg] at hsome
      rw [List.length_cons, ih]
      rcases hsome.mp rfl with h | h
      · have hu : ¬ g.gcdMemoryType = .unaccepted := fun hu => hdis hu h
        rw [if_pos (decide_eq_true h), if_neg (by rw [decide_eq_true_eq]; exact hu)]
        omega
      · rw [if_neg (by rw [decide_eq_true_eq]; exact hdis h), if_pos (decide_eq_true h)]
        omega

lemma length_raw_le (m : MapSource) (h : ∀ g ∈ m.mGcdMemorySpaceMap, g.gcdMemoryType ≠ .unaccepted) :
    (rawDescriptors m).length ≤ bufferEntries m := by
  have hle : ((sourceRuns m).filterMap gcdDescriptor).length ≤
      (m.mGcdMemorySpaceMap.filterMap gcdDescriptor).length := by
    unfold sourceRuns
    cases m.mGcdMemorySpaceMap with
    | nil => exact le_rfl
    | cons g gs => exact length_gcdRuns_le
  have hzero : m.mGcdMemorySpaceMap.countP (fun g => g.gcdMemoryType = .unaccepted) = 0 :=
    countP_eq_zero.mpr fun g hg => by
      rw [decide_eq_true_eq]
      exact h g hg
  rw [length_filterMap_gcd m.mGcdMemorySpaceMap, hzero] at hle
  rw [rawDescriptors, length_append, length_map, bufferEntries]
  omega

structure NothingMerges (m : MapSource) : Prop where
  gcd : sourceRuns m = m.mGcdMemorySpaceMap
  descriptors : (rawDescriptors m).Pairwise fun d e => mergedWith m.arch d e = none

lemma lt_length_raw (hm : NothingMerges m) (hg : g ∈ m.mGcdMemorySpaceMap)
    (hu : g.gcdMemoryType = .unaccepted) : bufferEntries m < (rawDescriptors m).length := by
  have hpos : 0 < m.mGcdMemorySpaceMap.countP (fun g => g.gcdMemoryType = .unaccepted) :=
    countP_pos_iff.mpr ⟨g, hg, decide_eq_true hu⟩
  rw [rawDescriptors, length_append, length_map, hm.gcd, length_filterMap_gcd, bufferEntries]
  omega

/-- the run succeeds in a buffer of just the size that is asked for, and returns the exact map -/
def MapContract (m : MapSource) (size memoryMapSize : Nat) (b : Slots MemoryDescriptor) : Prop :=
  ∃ n b', coreGetMemoryMap m size memoryMapSize b = (.ok ⟨none, size * n⟩, b') ∧
    n ≤ bufferEntries m ∧ ExactMap m (b'.firsts n)

variable {b : Slots MemoryDescriptor} {size memoryMapSize : Nat}

/-- the passes over the two maps are one pass over all the descriptors -/
lemma wp_coreGetMemoryMap {P : GetMapResult → Slots MemoryDescriptor → Prop}
    {E : SlotFault → Slots MemoryDescriptor → Prop} (h : ValidSource m)
    (hsize : size * bufferEntries m ≤ memoryMapSize) (hall : wp (addAll m.arch (rawDescriptors m) 0)
      (fun next => wp (clearAccess next >>= fun _ => mergeMemoryMap next) (fun n => P ⟨none, size * n⟩) E) E b) :
    wp (coreGetMemoryMap m size memoryMapSize) P E b := by
  have hgcd (next : Nat) (b : Slots MemoryDescriptor) (Q : Nat → Slots MemoryDescriptor → Prop) :
      wp (writeGcd m.arch m.mGcdMemorySpaceMap zeroGcd next) Q E b ↔
        wp (addAll m.arch ((sourceRuns m).filterMap gcdDescriptor) next) Q E b := by
    have hp := h.gcd_partition
    unfold sourceRuns
    cases hgs : m.mGcdMemorySpaceMap with
    | nil => exact Iff.rfl
    | cons g gs =>
      rw [hgs] at hp
      rw [writeGcd_zero g gs _ hp.1]
      exact wp_writeGcd_iff g gs next
  unfold coreGetMemoryMap
  rw [if_neg (not_lt.mpr hsize), writeEntries_eq, wp_bind]
  rw [rawDescriptors, addAll, wp_forEach_append] at hall
  refine wp_post hall ?_
  intro next b1 hnext
  rw [wp_bind, hgcd]
  refine wp_post hnext ?_
  intro next b2 hnext
  rw [wp_bind] at hnext ⊢
  refine wp_post hnext ?_
  intro _ b3 hmerge
  rw [wp_bind]
  exact hmerge

lemma mapContract_of_accepted (h : ValidSource m) (hacc : ∀ g ∈ m.mGcdMemorySpaceMap, g.gcdMemoryType ≠ .unaccepted)
    (hsize : size * bufferEntries m ≤ memoryMapSize) (hb : b.size = bufferEntries m)
    (hu : b.unread ≤ 0) : MapContract m size memoryMapSize b := by
  obtain ⟨htidy, hreports⟩ := h.raw
  have hraw := length_raw_le m hacc
  have hlen : (insertAll m.arch [] (rawDescriptors m)).length ≤ 0 + (rawDescriptors m).length := length_insertAll [] _
  have hstart : Holds (bufferEntries m) [] b := ⟨hb, hu, .nil _ _⟩
  suffices hwp : wp (coreGetMemoryMap m size memoryMapSize)
      (fun r b' => ∃ n, r = ⟨none, size * n⟩ ∧ n ≤ bufferEntries m ∧ ExactMap m (b'.firsts n))
      (fun _ _ => False) b by
    obtain ⟨r, b', hrun, n, rfl, hn, hexact⟩ := wp_returns hwp
    exact ⟨n, b', hrun, hn, hexact⟩
  refine wp_coreGetMemoryMap h hsize (wp_post (wp_addAll _ hstart ?_) ?_)
  · rw [length_nil, Nat.zero_add]
    exact hraw
  rintro next b1 ⟨rfl, hb1⟩
  refine wp_seq (wp_clearAccess hb1 (by omega)) ?_
  intro _ b2 hb2
  have hmerge := wp_mergeMemoryMap (E := fun _ _ => False) hb2 (by
    rw [length_map]
    omega)
  rw [length_map] at hmerge
  refine wp_post hmerge ?_
  rintro n b3 ⟨l, rfl, hb3, hsame, hle⟩
  have hmap : SameMap (rawDescriptors m) l := ((insertAll_sameMap [] _).trans (sameMap_cleared _)).trans hsame
  obtain ⟨ht, hr⟩ := hmap htidy
  refine ⟨l.length, rfl, by omega, ?_⟩
  rw [hb3.slots.firsts]
  exact ⟨ht.disjoint, fun a type => (hr a type).trans (hreports a type)⟩

lemma accepted_of_mapContract (h : ValidSource m) (hm : NothingMerges m)
    (hsize : size * bufferEntries m ≤ memoryMapSize) (hb : b.size = bufferEntries m)
    (hu : b.unread ≤ 0) (hc : MapContract m size memoryMapSize b) :
    ∀ g ∈ m.mGcdMemorySpaceMap, g.gcdMemoryType ≠ .unaccepted := by
  intro g hg hgu
  obtain ⟨n, b', hrun, -, -⟩ := hc
  have hstart : Holds (bufferEntries m) [] b := ⟨hb, hu, .nil _ _⟩
  have hover := wp_addAll_overflow (l := []) (rawDescriptors m) hm.descriptors hstart (Nat.zero_le _)
    (by rw [length_nil, Nat.zero_add]; exact lt_length_raw hm hg hgu)
  have hwp : wp (coreGetMemoryMap m size memoryMapSize) (fun _ _ => False) (fun e _ => e = .outside) b :=
    wp_coreGetMemoryMap h hsize (wp_post hover (fun _ _ h => False.elim h))
  exact wp_ok hwp hrun

/-- **`CoreGetMemoryMap`** asks for a buffer of `bufferEntries` descriptors.  It returns the exact map in
such a buffer if no GCD range is unaccepted, and only then if no descriptors can be merged. -/
theorem coreGetMemoryMap_contract (h : ValidSource m) (hsize : size * bufferEntries m ≤ memoryMapSize)
    (hb : b.size = bufferEntries m) (hu : b.unread ≤ 0) : (∀ k < size * bufferEntries m,
      coreGetMemoryMap m size k b = (.ok ⟨some .bufferTooSmall, size * bufferEntries m⟩, b)) ∧
    ((∀ g ∈ m.mGcdMemorySpaceMap, g.gcdMemoryType ≠ .unaccepted) → MapContract m size memoryMapSize b) ∧
    (NothingMerges m → MapContract m size memoryMapSize b →
      ∀ g ∈ m.mGcdMemorySpaceMap, g.gcdMemoryType ≠ .unaccepted) := by
  refine ⟨fun k hk => ?_, fun hacc => mapContract_of_accepted h hacc hsize hb hu,
    fun hm hc => accepted_of_mapContract h hm hsize hb hu hc⟩
  unfold coreGetMemoryMap
  rw [if_pos hk]
  rfl

end

/-- a page of free memory, and a page that only the GCD map has -/
def mixedSource (type : GcdMemoryType) : MapSource where
  arch := .x64
  stats := fun _ => ⟨0, 0, 0, 0, 0, false, false⟩
  gMemoryMap := [⟨efiConventionalMemory, 0x1000, 0x1fff, 0, 0xf⟩]
  mGcdMemorySpaceMap := [⟨0, 0x1fff, 0xf, 0, .systemMemory, .nonExistent⟩,
    ⟨0x2000, 0x2fff, 0xf, 0, type, .nonExistent⟩]

def oneSlot : Slots MemoryDescriptor := ⟨fun _ => ⟨0, 0, 0, 0, 0⟩, 1, 0⟩

lemma mixedSource_valid (type : GcdMemoryType) : ValidSource (mixedSource type) where
  paged := by
    intro e he
    rw [mem_singleton.mp he]
    exact ⟨by decide, by decide, by decide⟩
  end_lt := by
    intro e he
    rw [mem_singleton.mp he]
    decide
  disjoint := pairwise_singleton _ _
  gcd_partition := ⟨rfl, by decide, rfl, Nat.le_of_ble_eq_true rfl, trivial⟩
  gcd_end_lt := by
    intro g hg
    rcases mem_pair.mp hg with rfl | rfl
    · exact Nat.le_of_ble_eq_true rfl
    · exact Nat.le_of_ble_eq_true rfl
  gcd_paged := by
    intro g hg _
    rcases mem_pair.mp hg with rfl | rfl
    · exact ⟨⟨0, rfl⟩, ⟨2, rfl⟩⟩
    · exact ⟨⟨2, rfl⟩, ⟨3, rfl⟩⟩
  apart := by
    intro e he g hg hne a ⟨hea, hga⟩
    rw [mem_singleton.mp he] at hea
    rcases mem_pair.mp hg with rfl | rfl
    · exact hne rfl
    · have h1 : a ≤ 0x1fff := hea.2
      have h2 : 0x2000 ≤ a := hga.1
      omega

/-- the descriptor of an unaccepted page is written behind the buffer -/
theorem unacceptedSource_overflow : ValidSource (mixedSource .unaccepted) ∧
    bufferEntries (mixedSource .unaccepted) = oneSlot.size ∧
    (coreGetMemoryMap (mixedSource .unaccepted) 48 48 oneSlot).1 = .error .outside :=
  ⟨mixedSource_valid _, by decide +kernel, by decide +kernel⟩

def twoSlots : Slots MemoryDescriptor := ⟨fun _ => ⟨0, 0, 0, 0, 0⟩, 2, 0⟩

theorem reservedSource_contract : MapContract (mixedSource .reserved) 48 96 twoSlots :=
  (coreGetMemoryMap_contract (mixedSource_valid _) (by decide +kernel) (by decide +kernel) (le_refl 0)).2.1
    (by decide +kernel)

end Audk.Mem
