import Audk.ImageProperties.SplitRecord

/-!
# `SplitTable` separates the image segments of a memory map

The map is expanded from its last descriptor to its first one; the slots behind `IndexNew` hold the
pieces of the descriptors already read and the unused slots (`TableInv`).  Every image lies in at
most one descriptor, so the spare slots suffice (`sum_slotsFor_le`).  Unused slots get the address
`MAX_ADDRESS`, are sorted behind the pieces and cut off; that works if no descriptor starts above
`MAX_ADDRESS`.

* `splitTable_spec`: the run, and the list that it sorts and cuts;
* `splitTable_separates_iff`: the new map is the separated one if and only if `CanSeparate` holds.
-/

namespace Audk.ImageProperties

open Prog Slots Runs List Nat

/-! ## the inserted records -/

section
variable {arch : Arch} {r : ImageRecord} {rs records : List ImageRecord}

lemma insertRecord_perm (r : ImageRecord) (rs : List ImageRecord) : (insertRecord r rs).Perm (r :: rs) := by
  induction rs with
  | nil => exact List.Perm.refl _
  | cons x rs ih =>
    rw [insertRecord]
    split_ifs
    · exact List.Perm.refl _
    · exact (ih.cons x).trans (List.Perm.swap r x rs)

lemma insertRecord_sorted (h : rs.Pairwise (·.startAddress ≤ ·.startAddress)) :
    (insertRecord r rs).Pairwise (·.startAddress ≤ ·.startAddress) := by
  induction rs with
  | nil => exact pairwise_singleton _ _
  | cons x rs ih =>
    obtain ⟨hx, hrs⟩ := pairwise_cons.mp h
    rw [insertRecord]
    split_ifs with hlt
    · refine pairwise_cons.mpr ⟨fun y hy => ?_, h⟩
      rcases mem_cons.mp hy with rfl | hy
      · exact hlt.le
      · exact hlt.le.trans (hx y hy)
    · refine pairwise_cons.mpr ⟨fun y hy => ?_, ih hrs⟩
      rcases mem_cons.mp ((insertRecord_perm r rs).mem_iff.mp hy) with rfl | hy
      · exact Nat.le_of_not_lt hlt
      · exact hx y hy

/-- the record list after some insertions -/
structure Inserted (records : List ImageRecord) (p : ImagePropertiesPrivateData) : Prop where
  perm : p.imageRecordList.Perm records
  sorted : p.imageRecordList.Pairwise (·.startAddress ≤ ·.startAddress)
  count : p.imageRecordCount = records.length
  max : ∀ r ∈ records, r.numSegments ≤ p.sectionCountMax

variable {p : ImagePropertiesPrivateData} {k v : Nat}

lemma Inserted.insert (h : Inserted records p) (r : ImageRecord) :
    Inserted (records ++ [r]) (insertSortImageRecord p r) where
  perm := (insertRecord_perm r _).trans ((h.perm.cons r).trans (perm_append_singleton r records).symm)
  sorted := insertRecord_sorted h.sorted
  count := by
    rw [length_append, length_singleton, ← h.count]
    rfl
  max := by
    intro x hx
    show x.numSegments ≤ if p.sectionCountMax < r.numSegments then r.numSegments else p.sectionCountMax
    rcases mem_append.mp hx with hx | hx
    · have := h.max x hx
      split_ifs <;> omega
    · rw [mem_singleton.mp hx]
      split_ifs <;> omega

lemma insertImageRecords_inserted (records : List ImageRecord) : Inserted records (insertImageRecords records) := by
  induction records using List.reverseRecOn with
  | nil =>
    exact ⟨List.Perm.refl _, List.Pairwise.nil, rfl, fun r hr => absurd hr not_mem_nil⟩
  | append_singleton records r ih =>
    rw [insertImageRecords, foldl_append]
    exact ih.insert r

/-- the images of the records a platform has inserted -/
structure ValidRecords (arch : Arch) (records : List ImageRecord) : Prop where
  valid : ∀ r ∈ records, ValidRecord arch r
  disjoint : records.Pairwise DisjointRecords

lemma DisjointRecords.symm {r s : ImageRecord} (h : DisjointRecords r s) : DisjointRecords s r := Or.symm h

lemma ValidRecords.list (h : ValidRecords arch records)
    (hp : Inserted records p) : ValidList arch p.imageRecordList where
  valid := fun r hr => h.valid r (hp.perm.mem_iff.mp hr)
  ascending := by
    have hdis : p.imageRecordList.Pairwise DisjointRecords := hp.perm.symm.pairwise h.disjoint fun hd => hd.symm
    refine (hp.sorted.and hdis).imp_of_mem ?_
    rintro r s hr hs ⟨hle, hd⟩
    have h1 := (h.valid r (hp.perm.mem_iff.mp hr)).nonempty
    have h2 := (h.valid s (hp.perm.mem_iff.mp hs)).nonempty
    unfold DisjointRecords at hd
    omega

lemma ValidRecords.unique (h : ValidRecords arch records) {r s : ImageRecord} (hr : r ∈ records)
    (hs : s ∈ records) {a : Nat} (hra : InImage r a) (hsa : InImage s a) : r = s := by
  by_contra hne
  have hsymm : Std.Symm DisjointRecords := ⟨fun _ _ hd => hd.symm⟩
  have hd : DisjointRecords r s := h.disjoint.forall hr hs hne
  unfold DisjointRecords InImage at *
  omega

lemma Inserted.slotsFor_le (h : Inserted records p) :
    slotsFor p.imageRecordList ≤ additionalRecordCount p := by
  have hsum : slotsFor p.imageRecordList ≤ p.imageRecordList.length * (p.sectionCountMax + 1) := by
    have hmax : ∀ r ∈ p.imageRecordList, r.numSegments ≤ p.sectionCountMax :=
      fun r hr => h.max r (h.perm.mem_iff.mp hr)
    generalize p.imageRecordList = l at hmax ⊢
    induction l with
    | nil => exact zero_le _
    | cons x xs ih =>
      have hx := hmax x mem_cons_self
      have hxs := ih fun r hr => hmax r (mem_cons_of_mem x hr)
      rw [slotsFor_cons, length_cons, succ_mul]
      omega
  rw [additionalRecordCount, mul_comm, h.count, ← h.perm.length_eq]
  exact hsum

/-! ## descriptors and their images -/

/-- a memory map of aligned, disjoint ranges of the address space -/
structure ValidMap (map : List MemoryDescriptor) : Prop where
  aligned : ∀ d ∈ map, efiPageSize ∣ d.physicalStart
  start_lt : ∀ d ∈ map, d.physicalStart < 2^64
  stop_le : ∀ d ∈ map, d.stop ≤ 2^64
  disjoint : map.Pairwise DisjointRanges

variable {d : MemoryDescriptor} {map : List MemoryDescriptor}

lemma physicalEnd_eq (h : d.stop < 2^64) : physicalEnd d = d.stop := by
  have hstop : d.stop = d.physicalStart + d.numberOfPages * efiPageSize := rfl
  unfold physicalEnd efiPagesToSize
  omega

lemma physicalEnd_wraps (h : d.stop = 2^64) : physicalEnd d = 0 := by
  have hstop : d.stop = d.physicalStart + d.numberOfPages * efiPageSize := rfl
  unfold physicalEnd efiPagesToSize
  omega

lemma covered_wraps (hrs : ∀ r ∈ rs, r.startAddress < r.endAddress) (h : d.stop = 2^64) : covered d rs = [] := by
  rw [covered, physicalEnd_wraps h]
  exact cover_empty hrs (zero_le _)

lemma covered_eq (h : d.stop < 2^64) : covered d rs = cover d.physicalStart d.stop rs := by
  rw [covered, physicalEnd_eq h]

lemma LiesIn.covers (hd : d.stop ≤ 2^64) (hr : r.startAddress < r.endAddress)
    (h : LiesIn d.physicalStart (physicalEnd d) r) : d.Covers r.startAddress := by
  obtain ⟨h1, h2⟩ := h
  refine ⟨h1, ?_⟩
  rcases hd.lt_or_eq with hlt | heq
  · rw [physicalEnd_eq hlt] at h2
    omega
  · rw [physicalEnd_wraps heq] at h2
    omega

/-- the slots for one image, if the descriptor contains it -/
def slotsIf (r : ImageRecord) (d : MemoryDescriptor) : Nat :=
  if LiesIn d.physicalStart (physicalEnd d) r then r.numSegments + 1 else 0

lemma slotsFor_covered_cons (r : ImageRecord) (rs : List ImageRecord) :
    slotsFor (covered d (r :: rs)) = slotsIf r d + slotsFor (covered d rs) := by
  unfold covered cover slotsIf
  by_cases h : LiesIn d.physicalStart (physicalEnd d) r
  · rw [filter_cons_of_pos (by simpa using h), slotsFor_cons, if_pos h]
  · rw [filter_cons_of_neg (by simpa using h), if_neg h, zero_add]

lemma sum_slotsIf_le (hd : ∀ d ∈ map, d.stop ≤ 2^64) (hdis : map.Pairwise DisjointRanges)
    (hr : r.startAddress < r.endAddress) : (map.map (slotsIf r)).sum ≤ r.numSegments + 1 := by
  induction map with
  | nil => exact zero_le _
  | cons d map ih =>
    obtain ⟨hne, hdis'⟩ := pairwise_cons.mp hdis
    have hmap := fun x hx => hd x (mem_cons_of_mem d hx)
    rw [map_cons, sum_cons]
    by_cases h : LiesIn d.physicalStart (physicalEnd d) r
    · have hzero : (map.map (slotsIf r)).sum = 0 := by
        rw [List.sum_eq_zero_iff_forall_eq_nat]
        intro n hn
        obtain ⟨x, hx, rfl⟩ := mem_map.mp hn
        apply if_neg
        intro hxr
        exact hne x hx _ ⟨h.covers (hd d mem_cons_self) hr, hxr.covers (hmap x hx) hr⟩
      rw [hzero, slotsIf, if_pos h, add_zero]
    · rw [slotsIf, if_neg h, zero_add]
      exact ih hmap hdis'

lemma sum_slotsFor_le (hd : ∀ d ∈ map, d.stop ≤ 2^64) (hdis : map.Pairwise DisjointRanges)
    (hrs : ∀ r ∈ rs, r.startAddress < r.endAddress) :
    (map.map fun d => slotsFor (covered d rs)).sum ≤ slotsFor rs := by
  induction rs with
  | nil =>
    have hzero : (map.map fun d => slotsFor (covered d [])) = map.map fun _ => 0 := rfl
    rw [hzero, map_const', sum_replicate, smul_zero]
    exact zero_le _
  | cons r rs ih =>
    have hsplit : (map.map fun d => slotsFor (covered d (r :: rs))) =
        map.map fun d => slotsIf r d + slotsFor (covered d rs) :=
      map_congr_left fun d _ => slotsFor_covered_cons r rs
    have hone := sum_slotsIf_le hd hdis (hrs r mem_cons_self)
    have hrest := ih fun x hx => hrs x (mem_cons_of_mem r hx)
    rw [hsplit, sum_map_add, slotsFor_cons]
    exact Nat.add_le_add hone hrest

lemma length_recordPieces (rs : List ImageRecord) (d : MemoryDescriptor) :
    (recordPieces rs d).length ≤ slotsFor (covered d rs) + 1 := by
  unfold recordPieces
  split_ifs
  · exact succ_le_succ (zero_le _)
  · exact length_splitPieces_le

lemma ValidRecord.segments_pos {r : ImageRecord} (h : ValidRecord arch r) : 0 < r.numSegments := by
  rw [ImageRecord.numSegments, length_pos_iff]
  intro hnil
  have htotal := h.total
  have hne := h.nonempty
  rw [hnil, total_nil] at htotal
  omega

lemma length_recordPieces_pos (hrs : ValidList arch rs) (d : MemoryDescriptor) : 0 < (recordPieces rs d).length := by
  unfold recordPieces
  split_ifs with h
  · exact one_pos
  cases hc : covered d rs with
  | nil => exact absurd hc h
  | cons r cs =>
    have hr : r ∈ rs := (mem_cover.mp (by rw [← covered, hc]; exact mem_cons_self)).1
    have hseg := (hrs.valid r hr).segments_pos
    rw [length_splitPieces]
    omega

/-! ## the run -/

variable {b0 b : Slots MemoryDescriptor} {E : SlotFault → Slots MemoryDescriptor → Prop}

def tableSlots (rs : List ImageRecord) (ds : List MemoryDescriptor) : Nat :=
  (ds.map fun d => slotsFor (covered d rs) + 1).sum

lemma tableSlots_cons (d : MemoryDescriptor) (ds : List MemoryDescriptor) :
    tableSlots rs (d :: ds) = slotsFor (covered d rs) + 1 + tableSlots rs ds := rfl

lemma tableSlots_eq (ds : List MemoryDescriptor) :
    tableSlots rs ds = (ds.map fun d => slotsFor (covered d rs)).sum + ds.length := by
  induction ds with
  | nil => rfl
  | cons d ds ih =>
    rw [tableSlots_cons, ih, map_cons, sum_cons, length_cons]
    omega

lemma tableSlots_append (ds es : List MemoryDescriptor) :
    tableSlots rs (ds ++ es) = tableSlots rs ds + tableSlots rs es := by
  unfold tableSlots
  rw [map_append, sum_append]

/-- the contents `S` of the slots for the descriptors `ds`: their pieces, and unused slots `P` -/
structure Expanded (arch : Arch) (rs : List ImageRecord) (ds S P : List MemoryDescriptor) : Prop where
  length : S.length = tableSlots rs ds
  perm : S.Perm (ds.flatMap (recordPieces rs) ++ P)
  unused : ∀ x ∈ P, x.physicalStart = arch.maxAddress

lemma Expanded.cons {ds S P Z : List MemoryDescriptor} {d : MemoryDescriptor}
    (h : Expanded arch rs ds S P) (hZ : ∀ x ∈ Z, x.physicalStart = arch.maxAddress)
    (hlen : (recordPieces rs d).length + Z.length = slotsFor (covered d rs) + 1) :
    Expanded arch rs (d :: ds) (recordPieces rs d ++ (Z ++ S)) (Z ++ P) where
  length := by
    rw [tableSlots_cons, length_append, length_append, h.length]
    omega
  perm := by
    rw [flatMap_cons, append_assoc]
    refine List.Perm.append_left _ ?_
    -- the unused slots of `d` are moved behind the pieces of the other descriptors
    calc (Z ++ S).Perm (Z ++ (ds.flatMap (recordPieces rs) ++ P)) := List.Perm.append_left _ h.perm
      _ = (Z ++ ds.flatMap (recordPieces rs)) ++ P := (append_assoc _ _ _).symm
      List.Perm _ ((ds.flatMap (recordPieces rs) ++ Z) ++ P) := List.Perm.append_right _ perm_append_comm
      _ = ds.flatMap (recordPieces rs) ++ (Z ++ P) := append_assoc _ _ _
  unused := by
    intro x hx
    exact (mem_append.mp hx).elim (hZ x) (h.unused x)

/-- `i` descriptors, the last ones of the map, have been expanded -/
structure TableInv (arch : Arch) (rs : List ImageRecord) (map : List MemoryDescriptor) (extra : Nat)
    (b0 : Slots MemoryDescriptor) (i : Nat) (s : Int × Nat) (b : Slots MemoryDescriptor) : Prop where
  size : b.size = b0.size
  unread : b.unread = (map.length : Int) - i
  old : ∀ k (h : k < map.length), k < map.length - i → b.slot k = map[k]
  new : ∃ base S P, s.1 + 1 = ((base : Nat) : Int) ∧ base + S.length = map.length + extra ∧
    HoldsFrom b.slot base S ∧ Expanded arch rs (map.drop (map.length - i)) S P ∧ s.2 = P.length

lemma wp_markUnused {Q : Unit → Slots MemoryDescriptor → Prop} {i k n : Nat}
    (hroom : i + k + n < b.size) (hu : b.unread ≤ i)
    (h : ∀ Z : List MemoryDescriptor, Z.length = n → (∀ x ∈ Z, x.physicalStart = arch.maxAddress) →
      Q () { b with slot := overlay b.slot (i + k + 1) Z }) :
    wp (loop (fun j _ => markUnused arch ((i : Int) + j + 1)) k n ()) Q E b := by
  induction n generalizing k b with
  | zero => exact h [] rfl fun x hx => absurd hx not_mem_nil
  | succ n ih =>
    have hcast : (i : Int) + k + 1 = ((i + k + 1 : Nat) : Int) := by omega
    rw [loop, wp_bind, hcast]
    refine wp_change (by omega) (by omega) (ih (by show _ < b.size; omega) hu ?_)
    intro Z hlen hZ
    have hcons := h ({ b.slot (i + k + 1) with physicalStart := arch.maxAddress } :: Z)
      (by rw [length_cons, hlen]) (by
        intro x hx
        rcases mem_cons.mp hx with rfl | hx
        · rfl
        · exact hZ x hx)
    exact hcons

lemma wp_splitEntry {fuel extra i : Nat} {s : Int × Nat} (hrs : ValidList arch rs)
    (hmap : ValidMap map) (hfuel : rs.length + 2 ≤ fuel) (hroom : map.length + extra ≤ b0.size)
    (hextra : (map.map fun d => slotsFor (covered d rs)).sum ≤ extra) (hi : i < map.length)
    (h : TableInv arch rs map extra b0 i s b) :
    wp (splitEntry arch fuel rs ((map.length : Int) - 1 - i) s) (TableInv arch rs map extra b0 (i+1)) E b := by
  obtain ⟨hsize, hunread, hold, base, S, P, hbase, hend, hS, hexp, hskip⟩ := h
  obtain ⟨o, ho⟩ : ∃ o, o = map.length - (i+1) := ⟨_, rfl⟩
  have hol : o < map.length := by omega
  have hdrop : map.drop o = map[o] :: map.drop (map.length - i) := by
    rw [drop_eq_getElem_cons hol]
    congr 2
    omega
  have hcast : (map.length : Int) - 1 - i = (o : Int) := by omega
  -- the slots of this descriptor and of the later ones lie behind `o`
  have hslots : base + tableSlots rs (map.drop (map.length - i)) = map.length + extra := by
    rw [← hexp.length]
    exact hend
  have hbelow : o + slotsFor (covered map[o] rs) + 1 ≤ base := by
    have htotal : tableSlots rs (map.take o ++ map.drop o) = _ := tableSlots_append _ _
    have htake : tableSlots rs (map.take o) = _ := tableSlots_eq _
    rw [take_append_drop, tableSlots_eq, hdrop, tableSlots_cons] at htotal
    rw [length_take, min_eq_left hol.le] at htake
    omega
  obtain ⟨ni, hni⟩ : ∃ ni, ni + (slotsFor (covered map[o] rs) + 1) = base :=
    ⟨base - (slotsFor (covered map[o] rs) + 1), by omega⟩
  have hdm : map[o] ∈ map := getElem_mem hol
  have hlen := length_recordPieces rs map[o]
  have hpos := length_recordPieces_pos hrs map[o]
  unfold splitEntry
  rw [wp_bind, hcast]
  refine wp_peek (by omega) ?_
  rw [hold o hol (by omega), wp_bind]
  refine wp_getMaxSplitRecordCount hrs (hmap.start_lt _ hdm) hfuel ?_
  have hindex : s.1 - (slotsFor (covered map[o] rs) : Int) = (ni : Int) := by omega
  rw [hindex, wp_bind]
  refine wp_splitRecord hrs (hold o hol (by omega)) (hmap.start_lt _ hdm) hfuel (by omega) (by omega) ?_
  rw [wp_bind]
  refine wp_markUnused (by show _ < b.size; omega) (by show (o : Int) ≤ ni; omega) ?_
  intro Z hZlen hZ
  have hpieces : ni + ((recordPieces rs map[o]).length - 1) + 1 = ni + (recordPieces rs map[o]).length := by
    omega
  have hover : overlay (overlay b.slot ni (recordPieces rs map[o]))
      (ni + (recordPieces rs map[o]).length) Z = overlay b.slot ni (recordPieces rs map[o] ++ Z) :=
    (overlay_append _ _ _ _).symm
  have hboth : ni + (recordPieces rs map[o] ++ Z).length = base := by
    rw [length_append]
    omega
  show TableInv arch rs map extra b0 (i+1) _
    { slot := overlay (overlay b.slot ni (recordPieces rs map[o]))
        (ni + ((recordPieces rs map[o]).length - 1) + 1) Z, size := b.size, unread := (o : Int) }
  rw [hpieces, hover]
  refine ⟨hsize, by show (o : Int) = _; omega, ?_, ni, recordPieces rs map[o] ++ (Z ++ S), Z ++ P,
    by show (ni : Int) - 1 + 1 = _; omega, ?_, ?_, ?_, ?_⟩
  · intro k hk hki
    exact (overlay_outside _ (.inl (by omega))).trans (hold k hk (by omega))
  · rw [← append_assoc, length_append, ← add_assoc, hboth]
    exact hend
  · rw [← append_assoc]
    refine (HoldsFrom.overlay _ _ _).append (HoldsFrom.of_eq (f := b.slot) ?_ ?_)
    · rw [hboth]
      exact hS
    · intro k hk _
      exact overlay_outside _ (.inr hk)
  · rw [← ho, hdrop]
    exact hexp.cons hZ (by omega)
  · show s.2 + (slotsFor (covered map[o] rs) - ((recordPieces rs map[o]).length - 1)) = _
    rw [length_append, hZlen, hskip]
    omega

/-- **`SplitTable`**: no access goes wrong, and the new map is the list of all pieces and unused slots,
sorted and cut -/
theorem splitTable_spec {fuel extra : Nat} (hrs : ValidList arch rs) (hmap : ValidMap map)
    (hfuel : rs.length + 2 ≤ fuel) (hroom : map.length + extra ≤ b.size)
    (hextra : (map.map fun d => slotsFor (covered d rs)).sum ≤ extra)
    (hb : HoldsFrom b.slot 0 map) (hu : b.unread = map.length) :
    ∃ n b' S P, splitTable arch fuel map.length rs extra b = (.ok n, b') ∧
      Expanded arch rs map S P ∧ S.Pairwise (·.physicalStart ≤ ·.physicalStart) ∧
      b'.firsts n = S.take (map.flatMap (recordPieces rs)).length := by
  suffices h : wp (splitTable arch fuel map.length rs extra)
      (fun n b' => ∃ S P, Expanded arch rs map S P ∧
        S.Pairwise (·.physicalStart ≤ ·.physicalStart) ∧
        b'.firsts n = S.take (map.flatMap (recordPieces rs)).length) (fun _ _ => False) b by
    obtain ⟨n, b', hrun, S, P, h⟩ := wp_returns h
    exact ⟨n, b', S, P, hrun, h⟩
  have hstart : TableInv arch rs map extra b 0 ((map.length : Int) - 1 + extra, 0) b := by
    refine ⟨rfl, by rw [hu]; omega, fun k hk _ => ?_, map.length + extra, [], [], by push_cast; omega,
      rfl, .nil _ _, ?_, rfl⟩
    · have := hb k hk
      rwa [zero_add] at this
    · rw [Nat.sub_zero, List.drop_length]
      exact ⟨rfl, List.Perm.refl _, fun x hx => absurd hx not_mem_nil⟩
  have hloop := wp_loop (E := fun _ _ => False)
    (fun i => splitEntry arch fuel rs ((map.length : Int) - 1 - i)) (TableInv arch rs map extra b)
    0 map.length _ hstart
    (fun i s b' _ hi hinv => wp_splitEntry hrs hmap hfuel hroom hextra (by omega) hinv)
  refine wp_seq hloop ?_
  rintro s b1 ⟨hsize, hunread, -, base, S, P, hbase, hend, hS, hexp, hskip⟩
  rw [zero_add] at hunread hexp
  rw [Nat.sub_self, List.drop_zero] at hexp
  have hcount : ((map.length : Int) - 1 + extra - s.1).toNat = S.length := by omega
  rw [wp_bind, hcount, hbase]
  refine wp_moveDown (by omega) (by omega) ?_
  have hmoved : HoldsFrom (fun k => if k < S.length then b1.slot (base + k) else b1.slot k) 0 S := by
    intro k hk
    rw [zero_add]
    exact (if_pos hk).trans (hS k hk)
  refine wp_seq (wp_exchangeSort (by show S.length ≤ b1.size; omega) (by show b1.unread ≤ 0; omega)) ?_
  rintro _ b2 ⟨hperm, hsorted⟩
  have hfirsts := HoldsFrom.firsts (b := { b1 with
    slot := fun k => if k < S.length then b1.slot (base + k) else b1.slot k }) hmoved
  rw [hfirsts] at hperm
  have hlenA : S.length - s.2 = (map.flatMap (recordPieces rs)).length := by
    have := hexp.perm.length_eq
    rw [length_append] at this
    omega
  refine ⟨b2.firsts S.length, P, ⟨by rw [length_firsts, hexp.length], hperm.trans hexp.perm,
    hexp.unused⟩, hsorted, ?_⟩
  rw [hlenA, take_firsts _ (by omega)]

/-! ## the new map -/

/-- the map with the image segments separated -/
structure Separated (records : List ImageRecord) (map result : List MemoryDescriptor) : Prop where
  aligned : ∀ d ∈ result, efiPageSize ∣ d.physicalStart
  sorted : result.Pairwise (·.physicalStart ≤ ·.physicalStart)
  disjoint : result.Pairwise DisjointRanges
  describes : ∀ a type attr, Describes result a type attr ↔
    ∃ d ∈ map, d.Covers a ∧ d.type = type ∧ separatedAttr records d a = attr

def LooseIn (records : List ImageRecord) (d : MemoryDescriptor) : Prop :=
  ∀ r ∈ records, LiesIn d.physicalStart d.stop r →
    d.physicalStart < r.startAddress ∧ r.endAddress < d.stop ∧
      ∀ s ∈ records, LiesIn d.physicalStart d.stop s → s.endAddress ≠ r.startAddress

/-- the end of a descriptor that reaches the end of the address space wraps around, and its images are
not found; a descriptor above `MAX_ADDRESS` is sorted behind the unused slots, if there are any -/
structure CanSeparate (arch : Arch) (records : List ImageRecord) (map : List MemoryDescriptor) :
    Prop where
  top : ∀ d ∈ map, d.stop = 2^64 → ∀ a, d.Covers a → separatedAttr records d a = d.attr
  unused : (∀ d ∈ map, d.physicalStart < arch.maxAddress) ∨ ∀ d ∈ map, d.stop < 2^64 → LooseIn records d

variable {cs : List ImageRecord} {s e a : Nat}

lemma loose_iff (hasc : Ascending cs) (hne : ∀ r ∈ cs, r.startAddress < r.endAddress)
    (hin : ∀ r ∈ cs, LiesIn s e r) : Loose e s cs ↔ s < e ∧ ∀ r ∈ cs, s < r.startAddress ∧ r.endAddress < e ∧
      ∀ x ∈ cs, x.endAddress ≠ r.startAddress := by
  induction cs generalizing s with
  | nil =>
    exact ⟨fun h => ⟨h, fun r hr => absurd hr not_mem_nil⟩, fun h => h.1⟩
  | cons r cs ih =>
    obtain ⟨hlater, hasc'⟩ := pairwise_cons.mp hasc
    have hr := hne r mem_cons_self
    have hri := hin r mem_cons_self
    have hne' := fun x hx => hne x (mem_cons_of_mem r hx)
    rw [Loose, ih hasc' hne' fun x hx => ⟨hlater x hx, (hin x (mem_cons_of_mem r hx)).2⟩]
    constructor
    · rintro ⟨h1, h2, h3⟩
      refine ⟨by omega, fun x hx => ?_⟩
      rcases mem_cons.mp hx with rfl | hx
      · -- the later images end behind the first one
        refine ⟨h1, h2, fun y hy => ?_⟩
        rcases mem_cons.mp hy with rfl | hy
        · omega
        · have := hlater y hy
          have := hne' y hy
          omega
      · obtain ⟨h4, h5, h6⟩ := h3 x hx
        refine ⟨by omega, h5, fun y hy => ?_⟩
        rcases mem_cons.mp hy with rfl | hy
        · omega
        · exact h6 y hy
    · rintro ⟨h1, h2⟩
      obtain ⟨h3, h4, -⟩ := h2 r mem_cons_self
      refine ⟨h3, h4, fun x hx => ?_⟩
      obtain ⟨-, h5, h6⟩ := h2 x (mem_cons_of_mem r hx)
      have h7 := h6 r mem_cons_self
      have h8 := hlater x hx
      exact ⟨by omega, h5, fun y hy => h6 y (mem_cons_of_mem r hy)⟩

lemma length_recordPieces_eq_iff (hrs : ValidList arch rs) (hmem : ∀ r, r ∈ rs ↔ r ∈ records) (hd : d.stop ≤ 2^64) :
    (recordPieces rs d).length = slotsFor (covered d rs) + 1 ↔ (d.stop < 2^64 → LooseIn records d) := by
  unfold recordPieces
  by_cases hc : covered d rs = []
  · rw [if_pos hc, hc]
    refine ⟨fun _ hlt r hr hri => ?_, fun _ => rfl⟩
    rw [covered_eq hlt] at hc
    have hr' : r ∈ cover d.physicalStart d.stop rs := mem_cover.mpr ⟨(hmem r).mpr hr, hri⟩
    rw [hc] at hr'
    cases hr'
  · have hlt : d.stop < 2^64 := hd.lt_of_ne fun heq => hc (covered_wraps hrs.nonempty heq)
    have hin : ∀ r, r ∈ covered d rs ↔ r ∈ records ∧ LiesIn d.physicalStart d.stop r := by
      intro r
      rw [covered_eq hlt, mem_cover, hmem]
    have hne : ∀ r ∈ covered d rs, r.startAddress < r.endAddress :=
      fun r hr => hrs.nonempty r ((hmem r).mpr ((hin r).mp hr).1)
    have hasc : Ascending (covered d rs) := hrs.ascending.cover _ _
    rw [if_neg hc, length_splitPieces_eq_iff, physicalEnd_eq hlt, loose_iff hasc hne fun r hr => ((hin r).mp hr).2]
    constructor
    · rintro ⟨-, h⟩ _ r hr hri
      obtain ⟨h1, h2, h3⟩ := h r ((hin r).mpr ⟨hr, hri⟩)
      exact ⟨h1, h2, fun x hx hxi => h3 x ((hin x).mpr ⟨hx, hxi⟩)⟩
    · intro h
      obtain ⟨r, hr⟩ := exists_mem_of_ne_nil _ hc
      have hr' := (hin r).mp hr
      obtain ⟨h1, h2, -⟩ := h hlt r hr'.1 hr'.2
      have hrne := hne r hr
      refine ⟨by omega, fun x hx => ?_⟩
      obtain ⟨hx1, hx2⟩ := (hin x).mp hx
      obtain ⟨h3, h4, h5⟩ := h hlt x hx1 hx2
      exact ⟨h3, h4, fun y hy => h5 y ((hin y).mp hy).1 ((hin y).mp hy).2⟩

lemma length_flatMap_le (ds : List MemoryDescriptor) : (ds.flatMap (recordPieces rs)).length ≤ tableSlots rs ds := by
  induction ds with
  | nil => exact le_rfl
  | cons d ds ih =>
    have hd := length_recordPieces rs d
    rw [flatMap_cons, length_append, tableSlots_cons]
    omega

lemma length_flatMap_eq_iff (ds : List MemoryDescriptor) :
    (ds.flatMap (recordPieces rs)).length = tableSlots rs ds ↔
      ∀ d ∈ ds, (recordPieces rs d).length = slotsFor (covered d rs) + 1 := by
  induction ds with
  | nil => exact ⟨fun _ d hd => absurd hd not_mem_nil, fun _ => rfl⟩
  | cons d ds ih =>
    have hd := length_recordPieces rs d
    have hds : (ds.flatMap (recordPieces rs)).length ≤ tableSlots rs ds := length_flatMap_le ds
    rw [flatMap_cons, length_append, tableSlots_cons, forall_mem_cons, ← ih]
    omega

lemma Expanded.unused_eq_nil_iff {S P : List MemoryDescriptor} (h : Expanded arch rs map S P)
    (hrs : ValidList arch rs) (hmem : ∀ r, r ∈ rs ↔ r ∈ records) (hmap : ValidMap map) :
    P = [] ↔ ∀ d ∈ map, d.stop < 2^64 → LooseIn records d := by
  have hlen := h.perm.length_eq
  rw [h.length, length_append] at hlen
  have hall : (∀ d ∈ map, (recordPieces rs d).length = slotsFor (covered d rs) + 1) ↔
      ∀ d ∈ map, d.stop < 2^64 → LooseIn records d :=
    forall₂_congr fun d hd => length_recordPieces_eq_iff hrs hmem (hmap.stop_le d hd)
  rw [← hall, ← length_flatMap_eq_iff, ← length_eq_zero_iff]
  omega

/-! ### what the pieces describe -/

lemma separatedAttr_other (h : ∀ r ∈ records, LiesIn d.physicalStart d.stop r → ¬ InImage r a) :
    separatedAttr records d a = d.attr := by
  have hnone : (records.find? fun r => LiesIn d.physicalStart d.stop r ∧ InImage r a) = none := by
    rw [List.find?_eq_none]
    intro r hr
    rw [decide_eq_true_iff]
    exact fun hc => h r hr hc.1 hc.2
  rw [separatedAttr, hnone]

lemma separatedAttr_image (hv : ValidRecords arch records) {r : ImageRecord} (hr : r ∈ records)
    (hri : LiesIn d.physicalStart d.stop r) (hk : valueAt r.segments k = some v)
    (hlt : k < total r.segments) :
    separatedAttr records d (r.startAddress + k) = replaceAccess d.attr v := by
  have htotal := (hv.valid r hr).total
  have hin : InImage r (r.startAddress + k) := ⟨by omega, by omega⟩
  have hfind : (records.find? fun x => LiesIn d.physicalStart d.stop x ∧
      InImage x (r.startAddress + k)) = some r := by
    cases hc : records.find? fun x => LiesIn d.physicalStart d.stop x ∧ InImage x (r.startAddress + k) with
    | none =>
      have h := List.find?_eq_none.mp hc r hr
      rw [decide_eq_true_iff] at h
      exact absurd ⟨hri, hin⟩ h
    | some x =>
      have hx := List.find?_some hc
      rw [decide_eq_true_iff] at hx
      rw [hv.unique hr (mem_of_find?_eq_some hc) hin hx.2]
  rw [separatedAttr, hfind]
  show (valueAt r.segments (r.startAddress + k - r.startAddress)).elim _ _ = _
  rw [Nat.add_sub_cancel_left, hk]
  rfl

lemma lt_total_of_valueAt {ss : List RecordSegment} (h : valueAt ss k = some v) : k < total ss := by
  induction ss generalizing k with
  | nil => cases h
  | cons x ss ih =>
    rw [valueAt] at h
    rw [total_cons]
    split_ifs at h with hx
    · omega
    · have := ih h
      omega

lemma DescribesRange.self {f : Nat → Nat} (hd : efiPageSize ∣ d.physicalStart)
    (hf : ∀ a, d.Covers a → f a = d.attr) : DescribesRange d d.physicalStart d.stop f [d] where
  type := fun x hx => by rw [mem_singleton.mp hx]
  aligned := fun x hx => by rwa [mem_singleton.mp hx]
  within := fun x hx => by rw [mem_singleton.mp hx]; exact ⟨le_rfl, le_rfl⟩
  disjoint := pairwise_singleton _ _
  attr := fun x hx a ha => by
    rw [mem_singleton.mp hx] at ha ⊢
    exact (hf a ha).symm
  all := fun a h1 h2 => ⟨d, mem_singleton_self d, h1, h2⟩

lemma describes_recordPieces (hv : ValidRecords arch records) (hrs : ValidList arch rs)
    (hmem : ∀ r, r ∈ rs ↔ r ∈ records) (hal : efiPageSize ∣ d.physicalStart) (hd : d.stop ≤ 2^64)
    (htop : d.stop = 2^64 → ∀ a, d.Covers a → separatedAttr records d a = d.attr) :
    DescribesRange d d.physicalStart d.stop (separatedAttr records d) (recordPieces rs d) := by
  have hle : d.physicalStart ≤ d.stop := le_add_right _ _
  have halstop : efiPageSize ∣ d.stop := dvd_add hal (dvd_mul_left _ _)
  unfold recordPieces
  by_cases hc : covered d rs = []
  · rw [if_pos hc]
    refine .self hal fun a ha => ?_
    rcases hd.lt_or_eq with hlt | heq
    · rw [covered_eq hlt] at hc
      refine separatedAttr_other fun r hr hri => ?_
      have hr' : r ∈ cover d.physicalStart d.stop rs := mem_cover.mpr ⟨(hmem r).mpr hr, hri⟩
      rw [hc] at hr'
      cases hr'
    · exact htop heq a ha
  · have hlt : d.stop < 2^64 := hd.lt_of_ne fun heq => hc (covered_wraps hrs.nonempty heq)
    have hin : ∀ r, r ∈ covered d rs ↔ r ∈ records ∧ LiesIn d.physicalStart d.stop r := by
      intro r
      rw [covered_eq hlt, mem_cover, hmem]
    rw [if_neg hc, physicalEnd_eq hlt]
    refine describes_splitPieces (fun r hr => hv.valid r ((hin r).mp hr).1)
      (hrs.ascending.cover _ _) hal halstop hle (fun r hr => ((hin r).mp hr).2) ⟨?_, ?_⟩
    · intro r hr k v hk
      exact separatedAttr_image hv ((hin r).mp hr).1 ((hin r).mp hr).2 hk (lt_total_of_valueAt hk)
    · intro a _ _ hout
      exact separatedAttr_other fun r hr hri => hout r ((hin r).mpr ⟨hr, hri⟩)

lemma aligned_recordPieces (hv : ValidRecords arch records) (hrs : ValidList arch rs)
    (hmem : ∀ r, r ∈ rs ↔ r ∈ records) (hal : efiPageSize ∣ d.physicalStart) (hd : d.stop ≤ 2^64) :
    ∀ x ∈ recordPieces rs d, efiPageSize ∣ x.physicalStart := by
  rcases hd.lt_or_eq with hlt | heq
  · exact (describes_recordPieces hv hrs hmem hal hd fun heq => absurd heq hlt.ne).aligned
  · intro x hx
    rw [recordPieces, if_pos (covered_wraps hrs.nonempty heq), mem_singleton] at hx
    rw [hx]
    exact hal

lemma ValidMap.unique (h : ValidMap map) {x y : MemoryDescriptor} (hx : x ∈ map) (hy : y ∈ map)
    (hxa : x.Covers a) (hya : y.Covers a) : x = y := by
  by_contra hne
  have hsymm : Std.Symm DisjointRanges := ⟨fun _ _ => DisjointRanges.symm⟩
  exact h.disjoint.forall hx hy hne a ⟨hxa, hya⟩

lemma separated_of_perm {result : List MemoryDescriptor} (hmap : ValidMap map)
    (hdes : ∀ d ∈ map, DescribesRange d d.physicalStart d.stop (separatedAttr records d) (recordPieces rs d))
    (hperm : result.Perm (map.flatMap (recordPieces rs)))
    (hsorted : result.Pairwise (·.physicalStart ≤ ·.physicalStart)) : Separated records map result where
  aligned := by
    intro x hx
    obtain ⟨d, hd, hxd⟩ := mem_flatMap.mp (hperm.mem_iff.mp hx)
    exact (hdes d hd).aligned x hxd
  sorted := hsorted
  disjoint := by
    refine hperm.symm.pairwise ?_ DisjointRanges.symm
    rw [pairwise_flatMap]
    refine ⟨fun d hd => (hdes d hd).disjoint, hmap.disjoint.imp_of_mem ?_⟩
    rintro d e hd he hde x hx y hy a ⟨hxa, hya⟩
    have h1 := (hdes d hd).within x hx
    have h2 := (hdes e he).within y hy
    exact hde a ⟨⟨h1.1.trans hxa.1, hxa.2.trans_le h1.2⟩, ⟨h2.1.trans hya.1, hya.2.trans_le h2.2⟩⟩
  describes := by
    intro a type attr
    constructor
    · rintro ⟨x, hx, hxa, rfl, rfl⟩
      obtain ⟨d, hd, hxd⟩ := mem_flatMap.mp (hperm.mem_iff.mp hx)
      have hin := (hdes d hd).within x hxd
      exact ⟨d, hd, ⟨hin.1.trans hxa.1, hxa.2.trans_le hin.2⟩, ((hdes d hd).type x hxd).symm,
        ((hdes d hd).attr x hxd a hxa).symm⟩
    · rintro ⟨d, hd, hda, rfl, rfl⟩
      obtain ⟨x, hxd, hxa⟩ := (hdes d hd).all a hda.1 hda.2
      exact ⟨x, hperm.mem_iff.mpr (mem_flatMap.mpr ⟨d, hd, hxd⟩), hxa, (hdes d hd).type x hxd,
        (hdes d hd).attr x hxd a hxa⟩

/-! ### the cut -/

lemma start_le_of_mem_splitPieces {m : Nat} (hs : s ≤ m) (hcs : ∀ r ∈ cs, ValidRecord arch r)
    (hm : ∀ r ∈ cs, r.endAddress ≤ m) : ∀ x ∈ splitPieces d e s cs, x.physicalStart ≤ m := by
  have hseg : ∀ (ss : List RecordSegment) (a : Nat), ∀ x ∈ segmentPieces d a ss, x.physicalStart ≤ a + total ss := by
    intro ss
    induction ss with
    | nil => exact fun a x hx => absurd hx not_mem_nil
    | cons s ss ih =>
      intro a x hx
      rw [total_cons]
      rcases mem_cons.mp hx with rfl | hx
      · exact le_add_right _ _
      · have := ih (a + s.size) x hx
        omega
  have hgap : ∀ a e', ∀ x ∈ gapPieces d a e', x.physicalStart = a := by
    intro a e' x hx
    unfold gapPieces at hx
    split_ifs at hx
    · rw [mem_singleton.mp hx]
      rfl
    · cases hx
  induction cs generalizing s with
  | nil =>
    intro x hx
    rw [hgap s e x hx]
    exact hs
  | cons r cs ih =>
    have hr := hcs r mem_cons_self
    have hrm := hm r mem_cons_self
    have htotal := hr.total
    intro x hx
    rw [splitPieces, mem_append, mem_append] at hx
    rcases hx with (hx | hx) | hx
    · rw [hgap _ _ x hx]
      exact hs
    · have := hseg _ _ x hx
      omega
    · exact ih hrm (fun y hy => hcs y (mem_cons_of_mem r hy)) (fun y hy => hm y (mem_cons_of_mem r hy)) x hx

lemma start_lt_of_mem_recordPieces (hrs : ValidList arch rs) (hd : d.physicalStart < arch.maxAddress)
    {x : MemoryDescriptor} (hx : x ∈ recordPieces rs d) (hal : efiPageSize ∣ x.physicalStart) :
    x.physicalStart < arch.maxAddress := by
  have hle : x.physicalStart ≤ arch.maxAddress := by
    unfold recordPieces at hx
    split_ifs at hx with hc
    · rw [mem_singleton.mp hx]
      exact hd.le
    · have hin : ∀ r ∈ covered d rs, r ∈ rs := fun r hr => (mem_cover.mp hr).1
      exact start_le_of_mem_splitPieces hd.le (fun r hr => hrs.valid r (hin r hr))
        (fun r hr => (hrs.valid r (hin r hr)).fits) x hx
  refine hle.lt_of_ne fun heq => arch.maxAddress_not_aligned ?_
  rw [← heq]
  exact hal

lemma recordPieces_of_above (hrs : ValidList arch rs) (hd : arch.maxAddress ≤ d.physicalStart) :
    recordPieces rs d = [d] := by
  refine if_pos (filter_eq_nil_iff.mpr fun r hr => ?_)
  have hfits := (hrs.valid r hr).fits
  have hne := hrs.nonempty r hr
  rw [decide_eq_true_iff]
  unfold LiesIn
  omega

end

/-- **splitting the memory map**: the run is safe, and the new map separates the image segments if and
only if `CanSeparate` holds -/
theorem splitTable_separates_iff (arch : Arch) (records : List ImageRecord)
    (map : List MemoryDescriptor) (b : Slots MemoryDescriptor) (fuel : Nat)
    (hrecords : ValidRecords arch records) (hmap : ValidMap map)
    (hroom : map.length + additionalRecordCount (insertImageRecords records) ≤ b.size)
    (hb : HoldsFrom b.slot 0 map) (hu : b.unread = map.length) (hfuel : records.length + 2 ≤ fuel) :
    ∃ n b', splitTable arch fuel map.length (insertImageRecords records).imageRecordList
        (additionalRecordCount (insertImageRecords records)) b = (.ok n, b') ∧
      (Separated records map (b'.firsts n) ↔ CanSeparate arch records map) := by
  have hins := insertImageRecords_inserted records
  have hrs := hrecords.list hins
  have hmem : ∀ r, r ∈ (insertImageRecords records).imageRecordList ↔ r ∈ records := fun r => hins.perm.mem_iff
  have hextra := (sum_slotsFor_le hmap.stop_le hmap.disjoint hrs.nonempty).trans hins.slotsFor_le
  rw [← hins.perm.length_eq] at hfuel
  obtain ⟨n, b', S, P, hrun, hexp, hsorted, hfirsts⟩ :=
    splitTable_spec hrs hmap hfuel hroom hextra hb hu
  refine ⟨n, b', hrun, ?_⟩
  rw [hfirsts]
  generalize (insertImageRecords records).imageRecordList = rs at *
  have hnil := hexp.unused_eq_nil_iff hrs hmem hmap
  -- all the pieces are kept if there are no unused slots or these are sorted behind the pieces
  have haligned : ∀ x ∈ map.flatMap (recordPieces rs), efiPageSize ∣ x.physicalStart := by
    intro x hx
    obtain ⟨d, hd, hxd⟩ := mem_flatMap.mp hx
    exact aligned_recordPieces hrecords hrs hmem (hmap.aligned d hd) (hmap.stop_le d hd) x hxd
  have hkept (hcut : (∀ d ∈ map, d.physicalStart < arch.maxAddress) ∨ P = []) :
      (S.take (map.flatMap (recordPieces rs)).length).Perm (map.flatMap (recordPieces rs)) := by
    rcases hcut with hlow | rfl
    · refine take_of_sorted hsorted hexp.perm (fun x hx => ?_) hexp.unused
      obtain ⟨d, hd, hxd⟩ := mem_flatMap.mp hx
      exact start_lt_of_mem_recordPieces hrs (hlow d hd) hxd (haligned x hx)
    · have hperm := hexp.perm
      rw [append_nil] at hperm
      rw [← hperm.length_eq, take_length]
      exact hperm
  constructor
  · intro hsep
    have hcut : (∀ d ∈ map, d.physicalStart < arch.maxAddress) ∨ P = [] := by
      by_contra hno
      push Not at hno
      obtain ⟨⟨d, hd, habove⟩, hne⟩ := hno
      -- an unused slot stays in the map, and its address is not that of a page
      have hdmem : d ∈ map.flatMap (recordPieces rs) := by
        refine mem_flatMap.mpr ⟨d, hd, ?_⟩
        rw [recordPieces_of_above hrs habove]
        exact mem_singleton_self d
      have hgt : arch.maxAddress < d.physicalStart := by
        refine habove.lt_of_ne fun heq => arch.maxAddress_not_aligned ?_
        rw [heq]
        exact hmap.aligned d hd
      obtain ⟨x, hx, hstart⟩ := mem_take_of_sorted hsorted hexp.perm hexp.unused hne hdmem hgt
      refine arch.maxAddress_not_aligned ?_
      rw [← hstart]
      exact hsep.aligned x hx
    refine ⟨fun d hd heq a ha => ?_, hcut.imp_right hnil.mp⟩
    have hpieces : recordPieces rs d = [d] := if_pos (covered_wraps hrs.nonempty heq)
    have hdmem : d ∈ S.take (map.flatMap (recordPieces rs)).length := by
      refine (hkept hcut).mem_iff.mpr (mem_flatMap.mpr ⟨d, hd, ?_⟩)
      rw [hpieces]
      exact mem_singleton_self d
    obtain ⟨d', hd', ha', -, hattr⟩ := (hsep.describes a d.type d.attr).mp ⟨d, hdmem, ha, rfl, rfl⟩
    rwa [hmap.unique hd' hd ha' ha] at hattr
  · intro hcan
    refine separated_of_perm hmap (fun d hd => ?_) (hkept (hcan.unused.imp_right hnil.mpr))
      (hsorted.sublist (take_sublist _ _))
    exact describes_recordPieces hrecords hrs hmem (hmap.aligned d hd) (hmap.stop_le d hd) (hcan.top d hd)

/-! ## memory above 4 GiB on a 32-bit processor -/

/-- one image of a page that fills a descriptor, and a descriptor above 4 GiB -/
def highMap : List MemoryDescriptor := [⟨5, 0x1000, 0, 1, 0xF⟩, ⟨7, 0x100000000, 0, 1, 0xF⟩]

def pageImage : ImageRecord := ⟨1, [⟨0x1000, efiMemoryRo⟩], 0x1000, 0x2000⟩

def highTable : Slots MemoryDescriptor where
  slot := fun k => (highMap[k]?).getD ⟨0, 0, 0, 0, 0⟩
  size := 4
  unread := 2

lemma pageImage_valid (arch : Arch) : ValidRecords arch [pageImage] where
  valid := by
    intro r hr
    rw [mem_singleton.mp hr]
    exact ⟨by decide, by decide, by decide, by decide, by cases arch <;> decide, by decide, by decide⟩
  disjoint := pairwise_singleton _ _

lemma highMap_valid : ValidMap highMap where
  aligned := by decide
  start_lt := by decide
  stop_le := by decide
  disjoint := by
    refine pairwise_pair.mpr ?_
    rintro a ⟨⟨-, h1⟩, ⟨h2, -⟩⟩
    have h3 : a < 0x2000 := h1
    have h4 : 0x100000000 ≤ a := h2
    omega

lemma highTable_holds : HoldsFrom highTable.slot 0 highMap := by
  intro k hk
  rw [zero_add]
  show (highMap[k]?).getD _ = _
  rw [List.getElem?_eq_getElem hk]
  rfl

/-- the descriptor above 4 GiB is lost, and an unused slot stays in the map -/
theorem highTable_not_separated :
    ValidRecords .ia32 [pageImage] ∧ ValidMap highMap ∧
    ∃ b', splitTable .ia32 3 2 (insertImageRecords [pageImage]).imageRecordList
        (additionalRecordCount (insertImageRecords [pageImage])) highTable = (.ok 2, b') ∧
      (b'.firsts 2).map (·.physicalStart) = [0x1000, 0xFFFFFFFF] ∧
      ¬ Separated [pageImage] highMap (b'.firsts 2) := by
  obtain ⟨b', hb'⟩ : ∃ b', b' = (splitTable .ia32 3 2 (insertImageRecords [pageImage]).imageRecordList
      (additionalRecordCount (insertImageRecords [pageImage])) highTable).2 := ⟨_, rfl⟩
  have hok : (splitTable .ia32 3 2 (insertImageRecords [pageImage]).imageRecordList
      (additionalRecordCount (insertImageRecords [pageImage])) highTable).1 = .ok 2 := by
    decide +kernel
  have hstarts : (b'.firsts 2).map (·.physicalStart) = [0x1000, 0xFFFFFFFF] := by
    rw [hb']
    decide +kernel
  refine ⟨pageImage_valid _, highMap_valid, b', ?_, hstarts, ?_⟩
  · rw [hb', ← hok]
  · intro hsep
    have hmem : 0xFFFFFFFF ∈ (b'.firsts 2).map (·.physicalStart) := by
      rw [hstarts]
      decide
    obtain ⟨d, hd, hstart⟩ := mem_map.mp hmem
    have hal := hsep.aligned d hd
    rw [hstart] at hal
    revert hal
    decide

theorem highTable_separates : ∃ n b', splitTable .x64 3 2 (insertImageRecords [pageImage]).imageRecordList
        (additionalRecordCount (insertImageRecords [pageImage])) highTable = (.ok n, b') ∧
      Separated [pageImage] highMap (b'.firsts n) := by
  obtain ⟨n, b', hrun, hiff⟩ := splitTable_separates_iff .x64 [pageImage] highMap highTable 3
    (pageImage_valid _) highMap_valid (by decide) highTable_holds rfl (by decide)
  refine ⟨n, b', hrun, hiff.mpr ⟨?_, .inl (by decide)⟩⟩
  intro d hd heq
  exfalso
  revert d
  decide

end Audk.ImageProperties
