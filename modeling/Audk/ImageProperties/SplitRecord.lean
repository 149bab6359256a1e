import Audk.ImageProperties.Pieces

/-!
# `SplitRecord` writes the pieces of a descriptor

One turn of the loop writes the gap in front of the next image and the segments of that image; the
pieces written so far and the pieces of the rest make up the whole list (`SplitInv`).

* `wp_getMaxSplitRecordCount`: the slots reserved for a descriptor;
* `wp_splitRecord`: the descriptor is replaced by `recordPieces`.
-/

namespace Audk.ImageProperties

open Prog Slots Runs List Nat Bool

/-- the images that the code finds in a descriptor -/
def covered (d : MemoryDescriptor) (rs : List ImageRecord) : List ImageRecord :=
  cover d.physicalStart (physicalEnd d) rs

def recordPieces (rs : List ImageRecord) (d : MemoryDescriptor) : List MemoryDescriptor :=
  if covered d rs = [] then [d] else splitPieces d (physicalEnd d) d.physicalStart (covered d rs)

section
variable {arch : Arch} {d t : MemoryDescriptor} {b : Slots MemoryDescriptor} {i a : Nat}
  {E : SlotFault → Slots MemoryDescriptor → Prop}

lemma newRecord_congr (h : t.type = d.type) : newRecord t = newRecord d := by
  funext s size v
  simp only [newRecord, h]

lemma segmentPieces_congr (ht : t.type = d.type) (ha : t.attr = d.attr) (ss : List RecordSegment) :
    segmentPieces t a ss = segmentPieces d a ss := by
  induction ss generalizing a with
  | nil => rfl
  | cons s ss ih =>
    rw [segmentPieces, segmentPieces, ih, newRecord_congr ht, segmentAttribute, segmentAttribute, ha]

lemma wp_setSegments {Q : Int × Nat → Slots MemoryDescriptor → Prop} {ss : List RecordSegment}
    (hroom : i + ss.length ≤ b.size) (hu : b.unread ≤ i) (hfit : a + total ss ≤ arch.maxAddress)
    (h : ∀ j, Q j { b with slot := overlay b.slot i (segmentPieces d a ss) }) :
    wp (forEach (setSegment arch d) ss ((i : Int), a)) Q E b := by
  induction ss generalizing b i a with
  | nil => exact h _
  | cons s ss ih =>
    rw [length_cons] at hroom
    rw [total_cons] at hfit
    rw [forEach, wp_bind]
    unfold setSegment
    rw [wp_bind]
    refine wp_write (by omega) hu ?_
    rw [wp_pure]
    have hmod : (a + s.size) % (arch.maxAddress + 1) = a + s.size := mod_eq_of_lt (by omega)
    have hcast : (i : Int) + 1 = ((i + 1 : Nat) : Int) := by omega
    show wp (forEach _ ss ((i : Int) + 1, (a + s.size) % (arch.maxAddress + 1))) Q E _
    rw [hmod, hcast]
    refine ih (by show i + 1 + ss.length ≤ b.size; omega) (by show b.unread ≤ _; omega) (by omega) ?_
    exact h

variable {Q : Nat → Slots MemoryDescriptor → Prop} {s : SplitState} {r : ImageRecord}

lemma wp_setNewRecord
    (hr : ValidRecord arch r) (hd : r.startAddress ≤ d.physicalStart)
    (hroom : i + r.numSegments ≤ b.size) (hu : b.unread ≤ i)
    (h : Q r.numSegments { b with slot := overlay b.slot i (segmentPieces d r.startAddress r.segments) }) :
    wp (setNewRecord arch r i d) Q E b := by
  have htotal := hr.total
  have hfits := hr.fits
  have hmod : (0 + r.numSegments) % 2^32 = r.numSegments := by
    have := hr.few
    omega
  unfold setNewRecord setPrefix
  rw [wp_bind, if_neg (by omega), wp_pure, wp_bind]
  show wp (forEach (setSegment arch d) r.segments ((i : Int) + 0, r.startAddress)) _ E b
  rw [Int.add_zero]
  refine wp_setSegments hroom hu (by omega) fun j => ?_
  rw [wp_pure, hmod]
  exact h

/-! ## `GetMaxSplitRecordCount` -/

variable {rs : List ImageRecord}

lemma physicalEnd_lt (d : MemoryDescriptor) : physicalEnd d < 2^64 := mod_lt _ (by norm_num)

lemma ValidRecord.end_lt (hr : ValidRecord arch r) : r.endAddress < 2^64 :=
  hr.fits.trans_lt arch.maxAddress_lt

/-- the records of a list that the code walks through -/
structure ValidList (arch : Arch) (rs : List ImageRecord) : Prop where
  valid : ∀ r ∈ rs, ValidRecord arch r
  ascending : Ascending rs

lemma ValidList.nonempty (h : ValidList arch rs) : ∀ r ∈ rs, r.startAddress < r.endAddress :=
  fun r hr => (h.valid r hr).nonempty

/-- the count so far and the slots of the images still to be found make up the total -/
structure CountInv (e n : Nat) (rs : List ImageRecord) (k : Nat) (s : CountState) : Prop where
  start_lt : s.physicalStart < 2^64
  left : (cover s.physicalStart e rs).length = k
  count : s.splitRecordCount + slotsFor (cover s.physicalStart e rs) = n
  running : s.running = true

lemma wp_countTurn (hrs : ValidList arch rs) {e n k : Nat} {s : CountState} (he : e < 2^64)
    (hi : CountInv e n rs k s) :
    wp (countTurn e rs s) (fun s' b' => (¬ s'.running = true ∧ s'.splitRecordCount = n ∧ b' = b) ∨
      ∃ k', k' < k ∧ CountInv e n rs k' s' ∧ b' = b) E b := by
  unfold countTurn
  rw [getImageRecordByAddress_eq hi.start_lt he]
  have hcount := hi.count
  have hleft := hi.left
  cases hc : cover s.physicalStart e rs with
  | nil =>
    rw [hc, slotsFor_nil, add_zero] at hcount
    exact .inl ⟨false_ne_true, hcount, rfl⟩
  | cons r cs =>
    have hmem : r ∈ rs ∧ LiesIn s.physicalStart e r := mem_cover.mp (by rw [hc]; exact mem_cons_self)
    have hr := hrs.valid r hmem.1
    have hnext := cover_next hrs.ascending hrs.nonempty hc
    have hmod : (r.numSegments + 1) % 2^32 = r.numSegments + 1 := mod_eq_of_lt hr.few
    rw [hc, slotsFor_cons] at hcount
    rw [hc, length_cons] at hleft
    show wp (pure _) _ _ _
    rw [wp_pure, hmod]
    by_cases hlt : r.endAddress < e
    · refine .inr ⟨cs.length, by omega, ⟨hr.end_lt, ?_, ?_, decide_eq_true hlt⟩, rfl⟩
      · show (cover r.endAddress e rs).length = _
        rw [hnext]
      · show s.splitRecordCount + (r.numSegments + 1) + slotsFor (cover r.endAddress e rs) = n
        rw [hnext]
        omega
    · -- the image ends with the descriptor, so nothing is left
      have hempty := cover_empty (s := r.endAddress) (e := e) hrs.nonempty (by omega)
      rw [hnext] at hempty
      rw [hempty, slotsFor_nil] at hcount
      refine .inl ⟨?_, by show _ + (_ + 1) = _; omega, rfl⟩
      show ¬ decide (r.endAddress < e) = true
      simpa using hlt

lemma wp_getMaxSplitRecordCount {fuel : Nat}
    (hrs : ValidList arch rs) (hd : d.physicalStart < 2^64) (hfuel : rs.length + 2 ≤ fuel)
    (h : Q (slotsFor (covered d rs)) b) : wp (getMaxSplitRecordCount fuel d rs) Q E b := by
  have hk : (covered d rs).length ≤ rs.length := length_filter_le _ _
  obtain ⟨m, rfl⟩ : ∃ m, fuel = m + (covered d rs).length + 2 := ⟨fuel - (covered d rs).length - 2, by omega⟩
  unfold getMaxSplitRecordCount
  rw [wp_bind]
  refine wp_repeatWhile_measure
    (fun k s b' => CountInv (physicalEnd d) (slotsFor (covered d rs)) rs k s ∧ b' = b) ?_ m
    (covered d rs).length ⟨⟨hd, rfl, zero_add _, rfl⟩, rfl⟩
  rintro k s b' ⟨hi, rfl⟩
  refine ⟨hi.running, wp_post (wp_countTurn hrs (physicalEnd_lt d) hi) ?_⟩
  rintro s' b'' (⟨hn, hcount, rfl⟩ | ⟨k', hk', hi', rfl⟩)
  · refine .inl ⟨hn, ?_⟩
    rw [wp_pure, hcount]
    exact h
  · exact .inr ⟨k', hk', hi', rfl⟩

/-! ## `SplitRecord` -/

variable {b0 : Slots MemoryDescriptor} {e k : Nat} {whole done : List MemoryDescriptor}

/-- the slots from `i` on hold the pieces `done` -/
structure Written (b0 : Slots MemoryDescriptor) (d : MemoryDescriptor) (i : Nat)
    (done : List MemoryDescriptor) (s : SplitState) (b : Slots MemoryDescriptor) : Prop where
  type : s.tempRecord.type = d.type
  attr : s.tempRecord.attr = d.attr
  index : s.index = ((i + done.length : Nat) : Int)
  count : s.totalNewRecordCount = done.length
  slots : b = { b0 with slot := overlay b0.slot i done }

/-- the pieces written and the pieces of the rest make up the whole -/
structure SplitInv (b0 : Slots MemoryDescriptor) (d : MemoryDescriptor) (e i : Nat)
    (rs : List ImageRecord) (whole : List MemoryDescriptor) (k : Nat) (s : SplitState)
    (b : Slots MemoryDescriptor) : Prop where
  start_lt : s.physicalStart < 2^64
  temp_start : s.tempRecord.physicalStart = s.physicalStart
  left : (cover s.physicalStart e rs).length = k
  written : ∃ done, Written b0 d i done s b ∧
    done ++ splitPieces d e s.physicalStart (cover s.physicalStart e rs) = whole
  running : s.running = true

lemma Written.write {x : MemoryDescriptor}
    {Q : Unit → Slots MemoryDescriptor → Prop} (h : Written b0 d i done s b)
    (hroom : i + done.length < b0.size) (hu : b0.unread ≤ i)
    (hQ : Q () { b0 with slot := overlay b0.slot i (done ++ [x]) }) :
    wp (write s.index x) Q E b := by
  rw [h.index, h.slots]
  refine wp_write hroom (by show b0.unread ≤ _; omega) ?_
  rw [overlay_append] at hQ
  exact hQ

lemma wp_splitRest (h : Written b0 d i done s b) (he : e < 2^64)
    (hwhole : done ++ gapPieces d s.physicalStart e = whole) (hroom : i + whole.length ≤ b0.size)
    (hu : b0.unread ≤ i) :
    wp (splitRest e s) (fun s' b' => ¬ s'.running = true ∧ s'.totalNewRecordCount = whole.length ∧
      b' = { b0 with slot := overlay b0.slot i whole }) E b := by
  unfold splitRest
  rw [wp_ite]
  constructor
  · intro hgt
    have hsub : sub64 e s.physicalStart = e - s.physicalStart := by
      unfold sub64
      omega
    rw [gapPieces_pos hgt] at hwhole
    have hlen : whole.length = done.length + 1 := by rw [← hwhole, length_append]; rfl
    rw [wp_bind, hsub, newRecord_congr h.type, h.attr]
    refine h.write (by omega) hu ?_
    rw [wp_pure, hwhole]
    refine ⟨false_ne_true, ?_, rfl⟩
    show s.totalNewRecordCount + 1 = _
    rw [h.count, hlen]
  · intro hle
    rw [gapPieces_neg hle, append_nil] at hwhole
    subst hwhole
    exact ⟨false_ne_true, h.count, h.slots⟩

lemma wp_splitPrefix (h : Written b0 d i done s b)
    (hstart : s.tempRecord.physicalStart = s.physicalStart) (hr : s.physicalStart ≤ r.startAddress)
    (hroom : i + (done ++ gapPieces d s.physicalStart r.startAddress).length ≤ b0.size) (hu : b0.unread ≤ i) :
    wp (splitPrefix e r s) (fun s' b' => s'.tempRecord.physicalStart = r.startAddress ∧
      Written b0 d i (done ++ gapPieces d s.physicalStart r.startAddress) s' b') E b := by
  unfold splitPrefix
  rw [wp_ite, hstart]
  constructor
  · intro hlt
    rw [gapPieces_pos hlt, length_append, length_singleton] at *
    rw [wp_bind, newRecord_congr h.type, h.attr]
    refine h.write (by omega) hu ?_
    refine ⟨rfl, h.type, h.attr, ?_, ?_, rfl⟩
    · show s.index + 1 = _
      rw [h.index, length_append, length_singleton]
      omega
    · show s.totalNewRecordCount + 1 = _
      rw [h.count, length_append, length_singleton]
  · intro hle
    rw [gapPieces_neg hle, append_nil, wp_pure]
    exact ⟨by omega, h⟩

lemma wp_splitImage (h : Written b0 d i done s b)
    (hr : ValidRecord arch r) (hstart : s.tempRecord.physicalStart = r.startAddress)
    (hroom : i + (done ++ segmentPieces d r.startAddress r.segments).length ≤ b0.size) (hu : b0.unread ≤ i) :
    wp (splitImage arch e r s) (fun s' b' => s'.tempRecord.physicalStart = r.endAddress ∧
      s'.physicalStart = r.endAddress ∧ s'.running = decide (r.endAddress < e) ∧
      Written b0 d i (done ++ segmentPieces d r.startAddress r.segments) s' b') E b := by
  have hslots := h.slots
  have hlen : r.segments.length = r.numSegments := rfl
  rw [length_append, length_segmentPieces, hlen] at hroom
  unfold splitImage
  rw [wp_bind, h.index]
  subst hslots
  refine wp_setNewRecord hr hstart.ge (by show _ ≤ b0.size; omega) (by show b0.unread ≤ _; omega) ?_
  refine ⟨rfl, rfl, rfl, h.type, h.attr, ?_, ?_, ?_⟩
  · show ((i + done.length : Nat) : Int) + (r.numSegments : Int) = _
    rw [length_append, length_segmentPieces, hlen]
    omega
  · show s.totalNewRecordCount + r.numSegments = _
    rw [h.count, length_append, length_segmentPieces, hlen]
  · rw [overlay_append, segmentPieces_congr h.type h.attr]

lemma wp_splitTurn (hrs : ValidList arch rs) (he : e < 2^64)
    (hroom : i + whole.length ≤ b0.size) (hu : b0.unread ≤ i) (hi : SplitInv b0 d e i rs whole k s b) :
    wp (splitTurn arch e rs s) (fun s' b' => (¬ s'.running = true ∧
        s'.totalNewRecordCount = whole.length ∧ b' = { b0 with slot := overlay b0.slot i whole }) ∨
      ∃ k', k' < k ∧ SplitInv b0 d e i rs whole k' s' b') E b := by
  obtain ⟨hs, htemp, hleft, ⟨done, hwritten, hwhole⟩, -⟩ := hi
  unfold splitTurn
  rw [getImageRecordByAddress_eq hs he]
  cases hc : cover s.physicalStart e rs with
  | nil =>
    rw [hc, splitPieces] at hwhole
    exact wp_post (wp_splitRest hwritten he hwhole hroom hu) (fun _ _ h => .inl h)
  | cons r cs =>
    have hmem : r ∈ rs ∧ LiesIn s.physicalStart e r := mem_cover.mp (by rw [hc]; exact mem_cons_self)
    obtain ⟨hrmem, hrs1, hrs2⟩ := hmem
    have hr := hrs.valid r hrmem
    have hnext := cover_next hrs.ascending hrs.nonempty hc
    rw [hc, splitPieces, ← append_assoc, ← append_assoc] at hwhole
    rw [hc, length_cons] at hleft
    have hlen := congrArg List.length hwhole
    rw [length_append, length_append] at hlen
    show wp (splitPrefix e r s >>= _) _ _ _
    refine wp_seq (wp_splitPrefix hwritten htemp hrs1 (by omega) hu) ?_
    rintro s1 b1 ⟨hstart, hw1⟩
    refine wp_post (wp_splitImage hw1 hr hstart (by rw [length_append]; omega) hu) ?_
    rintro s2 b2 ⟨htemp2, hs2, hrun, hw2⟩
    by_cases hlt : r.endAddress < e
    · refine .inr ⟨cs.length, by omega, hs2 ▸ hr.end_lt, by rw [htemp2, hs2], by rw [hs2, hnext],
        ⟨_, hw2, by rw [hs2, hnext, hwhole]⟩, hrun.trans (decide_eq_true hlt)⟩
    have hempty := cover_empty (s := r.endAddress) (e := e) hrs.nonempty (by omega)
    rw [hnext] at hempty
    rw [hempty, splitPieces, gapPieces_neg hlt, append_nil] at hwhole
    rw [hwhole] at hw2
    refine .inl ⟨?_, hw2.count, hw2.slots⟩
    rw [hrun, decide_eq_true_iff]
    exact hlt

/-- **`SplitRecord`** writes the pieces of the descriptor -/
theorem wp_splitRecord {fuel old : Nat}
    (hrs : ValidList arch rs) (hold : b.slot old = d) (hd : d.physicalStart < 2^64)
    (hfuel : rs.length + 2 ≤ fuel) (hoi : old ≤ i) (hroom : i + slotsFor (covered d rs) < b.size)
    (h : Q ((recordPieces rs d).length - 1)
      { slot := overlay b.slot i (recordPieces rs d), size := b.size, unread := old }) :
    wp (splitRecord arch fuel old i (slotsFor (covered d rs)) rs) Q E b := by
  unfold splitRecord
  rw [wp_bind]
  refine wp_take (by omega) ?_
  rw [hold]
  unfold recordPieces at h
  by_cases hc : covered d rs = []
  · rw [if_pos hc] at h
    rw [hc, slotsFor_nil, if_pos rfl, wp_bind]
    exact wp_write (by show i < b.size; omega) (by show (old : Int) ≤ i; omega) h
  rw [if_neg hc] at h
  have hpos : slotsFor (covered d rs) ≠ 0 := by
    cases hc' : covered d rs with
    | nil => exact absurd hc' hc
    | cons r cs =>
      rw [slotsFor_cons]
      omega
  have hlen : (splitPieces d (physicalEnd d) d.physicalStart (covered d rs)).length ≤
      slotsFor (covered d rs) + 1 := length_splitPieces_le
  have hk : (covered d rs).length ≤ rs.length := length_filter_le _ _
  obtain ⟨m, rfl⟩ : ∃ m, fuel = m + (covered d rs).length + 2 := ⟨fuel - (covered d rs).length - 2, by omega⟩
  rw [if_neg hpos, wp_bind]
  refine wp_repeatWhile_measure (SplitInv { b with unread := old } d (physicalEnd d) i rs
    (splitPieces d (physicalEnd d) d.physicalStart (covered d rs))) ?_ m (covered d rs).length ?_
  · intro k s b' hi
    refine ⟨hi.running, wp_post (wp_splitTurn hrs (physicalEnd_lt d)
      (by show _ ≤ b.size; omega) (by show (old : Int) ≤ i; omega) hi) ?_⟩
    rintro s' b'' (⟨hn, hcount, rfl⟩ | ⟨k', hk', hi'⟩)
    · refine .inl ⟨hn, ?_⟩
      rw [wp_pure, hcount]
      exact h
    · exact .inr ⟨k', hk', hi'⟩
  · exact ⟨hd, rfl, rfl, ⟨[], ⟨rfl, rfl, rfl, rfl, rfl⟩, rfl⟩, rfl⟩

end

end Audk.ImageProperties
