import Audk.ImageProperties.Model

/-!
# The pieces of a descriptor

The images that lie in a descriptor are the records of `cover`; in a list that ascends, the search
for the next image takes them one after the other (`cover_next`).  `splitPieces` cuts the range of
the descriptor at these images.

* `describes_splitPieces`: the pieces describe the range with these attributes;
* `length_splitPieces_le`, `length_splitPieces_eq_iff`: how many pieces there are.
-/

namespace Audk.ImageProperties

open Prog Slots Runs List Nat

/-! ## records -/

structure ValidRecord (arch : Arch) (r : ImageRecord) : Prop where
  start_aligned : efiPageSize ∣ r.startAddress
  size_aligned : ∀ s ∈ r.segments, efiPageSize ∣ s.size
  total : r.startAddress + total r.segments = r.endAddress
  nonempty : r.startAddress < r.endAddress
  fits : r.endAddress ≤ arch.maxAddress
  few : r.numSegments + 1 < 2^32
  access : ∀ s ∈ r.segments, s.value &&& efiMemoryAccessMask = s.value

def DisjointRecords (r s : ImageRecord) : Prop := r.endAddress ≤ s.startAddress ∨ s.endAddress ≤ r.startAddress

def Ascending (rs : List ImageRecord) : Prop := rs.Pairwise fun r s => r.endAddress ≤ s.startAddress

def LiesIn (s e : Nat) (r : ImageRecord) : Prop := s ≤ r.startAddress ∧ r.endAddress ≤ e

instance (s e : Nat) (r : ImageRecord) : Decidable (LiesIn s e r) := inferInstanceAs (Decidable (_ ∧ _))

def cover (s e : Nat) (rs : List ImageRecord) : List ImageRecord := rs.filter (LiesIn s e)

section
variable {arch : Arch} {rs cs : List ImageRecord} {r : ImageRecord} {s e : Nat}

lemma mem_cover : r ∈ cover s e rs ↔ r ∈ rs ∧ LiesIn s e r := by
  rw [cover, mem_filter, decide_eq_true_iff]

lemma Ascending.cover (h : Ascending rs) (s e : Nat) : Ascending (cover s e rs) := List.Pairwise.filter _ h

lemma getImageRecordByAddress_eq (hs : s < 2^64) (he : e < 2^64) (rs : List ImageRecord) :
    getImageRecordByAddress s (sub64 e s) rs = (cover s e rs).head? := by
  have hsum : (s + sub64 e s) % 2^64 = e := by
    unfold sub64
    omega
  rw [cover, List.head?_filter, getImageRecordByAddress, hsum]
  rfl

lemma cover_next (h : Ascending rs) (hne : ∀ r ∈ rs, r.startAddress < r.endAddress)
    (hc : cover s e rs = r :: cs) : cover r.endAddress e rs = cs := by
  induction rs with
  | nil => cases hc
  | cons x rs ih =>
    have hx := hne x mem_cons_self
    have hlater := (pairwise_cons.mp h).1
    have hrs := fun y hy => hne y (mem_cons_of_mem x hy)
    unfold cover at hc ⊢
    by_cases hin : LiesIn s e x
    · rw [filter_cons_of_pos (by simpa using hin), List.cons.injEq] at hc
      obtain ⟨rfl, hc⟩ := hc
      have hout : ¬ LiesIn x.endAddress e x := fun h => by unfold LiesIn at h; omega
      rw [filter_cons_of_neg (by simpa using hout), ← hc]
      apply filter_congr
      intro y hy
      have hy' := hlater y hy
      rw [decide_eq_decide]
      unfold LiesIn at *
      omega
    · rw [filter_cons_of_neg (by simpa using hin)] at hc
      have hr : r ∈ rs := by
        have hmem : r ∈ rs.filter (LiesIn s e) := by rw [hc]; exact mem_cons_self
        exact (mem_filter.mp hmem).1
      have hout : ¬ LiesIn r.endAddress e x := by
        have h1 := hlater r hr
        have h2 := hrs r hr
        unfold LiesIn
        omega
      rw [filter_cons_of_neg (by simpa using hout)]
      exact ih (pairwise_cons.mp h).2 hrs hc

lemma cover_empty (hne : ∀ r ∈ rs, r.startAddress < r.endAddress) (hse : e ≤ s) : cover s e rs = [] := by
  rw [cover, filter_eq_nil_iff]
  intro r hr
  have hr' := hne r hr
  rw [decide_eq_true_eq]
  unfold LiesIn
  omega

/-! ## the pieces -/

def segmentPieces (d : MemoryDescriptor) : Nat → List RecordSegment → List MemoryDescriptor
  | _, [] => []
  | a, s :: ss =>
    newRecord d a s.size (segmentAttribute d s) :: segmentPieces d (a + s.size) ss

/-- a descriptor for the range from `s` to `e`, if it is not empty -/
def gapPieces (d : MemoryDescriptor) (s e : Nat) : List MemoryDescriptor :=
  if s < e then [newRecord d s (e - s) d.attr] else []

/-- the range from `s` to `e`, cut at the images -/
def splitPieces (d : MemoryDescriptor) (e : Nat) : Nat → List ImageRecord → List MemoryDescriptor
  | s, [] => gapPieces d s e
  | s, r :: rs =>
    gapPieces d s r.startAddress ++ segmentPieces d r.startAddress r.segments ++
      splitPieces d e r.endAddress rs

/-- the slots that the code reserves for the images besides the one of the descriptor -/
def slotsFor (rs : List ImageRecord) : Nat := (rs.map fun r => r.numSegments + 1).sum

variable {d : MemoryDescriptor} {a : Nat}

@[simp] lemma slotsFor_nil : slotsFor [] = 0 := rfl
@[simp] lemma slotsFor_cons (r : ImageRecord) (rs : List ImageRecord) :
    slotsFor (r :: rs) = r.numSegments + 1 + slotsFor rs := rfl

@[simp] lemma length_segmentPieces (ss : List RecordSegment) : (segmentPieces d a ss).length = ss.length := by
  induction ss generalizing a with
  | nil => rfl
  | cons s ss ih => rw [segmentPieces, length_cons, ih, length_cons]

lemma gapPieces_pos (h : s < e) : gapPieces d s e = [newRecord d s (e - s) d.attr] := if_pos h

lemma gapPieces_neg (h : ¬ s < e) : gapPieces d s e = [] := if_neg h

lemma length_gapPieces : (gapPieces d s e).length = if s < e then 1 else 0 := by
  unfold gapPieces
  split_ifs <;> rfl

lemma length_splitPieces (rs : List ImageRecord) (r : ImageRecord) :
    (splitPieces d e s (r :: rs)).length =
      (if s < r.startAddress then 1 else 0) + r.numSegments + (splitPieces d e r.endAddress rs).length := by
  rw [splitPieces, length_append, length_append, length_gapPieces, length_segmentPieces]
  rfl

lemma length_splitPieces_le : (splitPieces d e s rs).length ≤ slotsFor rs + 1 := by
  induction rs generalizing s with
  | nil =>
    rw [splitPieces, length_gapPieces, slotsFor_nil]
    split_ifs <;> omega
  | cons r rs ih =>
    have hrest := ih (s := r.endAddress)
    rw [length_splitPieces, slotsFor_cons]
    split_ifs <;> omega

/-- there is a gap before each image and behind the last one -/
def Loose (e : Nat) : Nat → List ImageRecord → Prop
  | s, [] => s < e
  | s, r :: rs => s < r.startAddress ∧ Loose e r.endAddress rs

lemma length_splitPieces_eq_iff : (splitPieces d e s rs).length = slotsFor rs + 1 ↔ Loose e s rs := by
  induction rs generalizing s with
  | nil =>
    rw [splitPieces, length_gapPieces, slotsFor_nil, Loose]
    split_ifs with h <;> simp [h]
  | cons r rs ih =>
    have hle : (splitPieces d e r.endAddress rs).length ≤ slotsFor rs + 1 := length_splitPieces_le
    rw [length_splitPieces, slotsFor_cons, Loose, ← ih]
    split_ifs with h <;> simp only [h, true_and, false_and, iff_false] <;> omega

/-! ## what the pieces describe -/

def InImage (r : ImageRecord) (a : Nat) : Prop := r.startAddress ≤ a ∧ a < r.endAddress

instance (r : ImageRecord) (a : Nat) : Decidable (InImage r a) := inferInstanceAs (Decidable (_ ∧ _))

def replaceAccess (attr v : Nat) : Nat := (attr &&& (2^64 - 1 - efiMemoryAccessMask)) ||| (v &&& efiMemoryAccessMask)

/-- the attributes of an address of the descriptor `d`: in an image that lies in `d`, the access bits
are those of the segment -/
def separatedAttr (rs : List ImageRecord) (d : MemoryDescriptor) (a : Nat) : Nat :=
  match rs.find? fun r => LiesIn d.physicalStart d.stop r ∧ InImage r a with
  | none => d.attr
  | some r => (valueAt r.segments (a - r.startAddress)).elim d.attr (replaceAccess d.attr)

/-- a list of descriptors describes exactly the range from `s` to `e`, with the type of `d` and the
attributes `f` -/
structure DescribesRange (d : MemoryDescriptor) (s e : Nat) (f : Nat → Nat)
    (l : List MemoryDescriptor) : Prop where
  type : ∀ x ∈ l, x.type = d.type
  aligned : ∀ x ∈ l, efiPageSize ∣ x.physicalStart
  within : ∀ x ∈ l, s ≤ x.physicalStart ∧ x.stop ≤ e
  disjoint : l.Pairwise DisjointRanges
  attr : ∀ x ∈ l, ∀ a, x.Covers a → x.attr = f a
  all : ∀ a, s ≤ a → a < e → ∃ x ∈ l, x.Covers a

variable {m : Nat} {f : Nat → Nat} {l l' : List MemoryDescriptor}

lemma DescribesRange.nil (d : MemoryDescriptor) (f : Nat → Nat) (s : Nat) : DescribesRange d s s f [] where
  type := fun _ hx => absurd hx not_mem_nil
  aligned := fun _ hx => absurd hx not_mem_nil
  within := fun _ hx => absurd hx not_mem_nil
  disjoint := List.Pairwise.nil
  attr := fun _ hx => absurd hx not_mem_nil
  all := fun _ h1 h2 => absurd (h1.trans_lt h2) (lt_irrefl s)

variable {ss : List RecordSegment} {size v : Nat}

lemma newRecord_stop (h : efiPageSize ∣ size) : (newRecord d s size v).stop = s + size := by
  show s + efiSizeToPages size * efiPageSize = _
  rw [efiSizeToPages_mul h]

lemma DescribesRange.single (hs : efiPageSize ∣ s) (hsize : efiPageSize ∣ size)
    (hf : ∀ a, s ≤ a → a < s + size → f a = v) : DescribesRange d s (s + size) f [newRecord d s size v] where
  type := by
    intro x hx
    rw [mem_singleton.mp hx]
    rfl
  aligned := by
    intro x hx
    rw [mem_singleton.mp hx]
    exact hs
  within := by
    intro x hx
    rw [mem_singleton.mp hx, newRecord_stop hsize]
    exact ⟨le_rfl, le_rfl⟩
  disjoint := pairwise_singleton _ _
  attr := by
    intro x hx a ha
    rw [mem_singleton] at hx
    subst hx
    obtain ⟨h1, h2⟩ := ha
    rw [newRecord_stop hsize] at h2
    exact (hf a h1 h2).symm
  all := by
    intro a h1 h2
    refine ⟨_, mem_singleton_self _, h1, ?_⟩
    rw [newRecord_stop hsize]
    exact h2

lemma DescribesRange.append (h : DescribesRange d s m f l) (h' : DescribesRange d m e f l')
    (hsm : s ≤ m) (hme : m ≤ e) : DescribesRange d s e f (l ++ l') where
  type := by
    intro x hx
    exact (mem_append.mp hx).elim (h.type x) (h'.type x)
  aligned := by
    intro x hx
    exact (mem_append.mp hx).elim (h.aligned x) (h'.aligned x)
  within := by
    intro x hx
    rcases mem_append.mp hx with hx | hx
    · have := h.within x hx
      omega
    · have := h'.within x hx
      omega
  disjoint := by
    refine pairwise_append.mpr ⟨h.disjoint, h'.disjoint, ?_⟩
    rintro x hx y hy a ⟨hxa, hya⟩
    have h1 := (h.within x hx).2
    have h2 := (h'.within y hy).1
    unfold MemoryDescriptor.Covers at hxa hya
    omega
  attr := by
    intro x hx
    exact (mem_append.mp hx).elim (h.attr x) (h'.attr x)
  all := by
    intro a h1 h2
    rcases lt_or_ge a m with hlt | hge
    · obtain ⟨x, hx, ha⟩ := h.all a h1 hlt
      exact ⟨x, mem_append_left _ hx, ha⟩
    · obtain ⟨x, hx, ha⟩ := h'.all a hge h2
      exact ⟨x, mem_append_right _ hx, ha⟩

lemma DescribesRange.gap (hs : efiPageSize ∣ s) (he : efiPageSize ∣ e) (hse : s ≤ e)
    (hf : ∀ a, s ≤ a → a < e → f a = d.attr) : DescribesRange d s e f (gapPieces d s e) := by
  rcases lt_or_ge s e with hlt | hge
  · have hsize : s + (e - s) = e := by omega
    rw [gapPieces_pos hlt]
    have h := DescribesRange.single (d := d) (v := d.attr) hs (dvd_sub he hs) (fun a h1 h2 => hf a h1 (by omega))
    rwa [hsize] at h
  · obtain rfl : s = e := by omega
    rw [gapPieces_neg (lt_irrefl s)]
    exact .nil d f s

lemma DescribesRange.segments (hs : efiPageSize ∣ s)
    (hsize : ∀ x ∈ ss, efiPageSize ∣ x.size) (hacc : ∀ x ∈ ss, x.value &&& efiMemoryAccessMask = x.value)
    (hf : ∀ k v, valueAt ss k = some v → f (s + k) = replaceAccess d.attr v) :
    DescribesRange d s (s + total ss) f (segmentPieces d s ss) := by
  induction ss generalizing s with
  | nil => exact .nil d f s
  | cons x ss ih =>
    have hx := hsize x mem_cons_self
    have hattr : segmentAttribute d x = replaceAccess d.attr x.value := by
      rw [segmentAttribute, replaceAccess, hacc x mem_cons_self]
    rw [segmentPieces, total_cons, ← add_assoc, hattr]
    refine DescribesRange.append (m := s + x.size) (l := [_]) (.single hs hx ?_) (ih ?_ ?_ ?_ ?_)
      (by omega) (by omega)
    · intro a h1 h2
      obtain ⟨k, rfl⟩ := Nat.exists_eq_add_of_le h1
      exact hf k x.value (by rw [valueAt, if_pos (by omega)])
    · exact dvd_add hs hx
    · exact fun y hy => hsize y (mem_cons_of_mem x hy)
    · exact fun y hy => hacc y (mem_cons_of_mem x hy)
    · intro k v hk
      rw [add_assoc]
      refine hf (x.size + k) v ?_
      rw [valueAt, if_neg (by omega), Nat.add_sub_cancel_left]
      exact hk

lemma dvd_total (h : ∀ x ∈ ss, efiPageSize ∣ x.size) : efiPageSize ∣ total ss := by
  induction ss with
  | nil => exact dvd_zero _
  | cons x ss ih =>
    exact dvd_add (h x mem_cons_self) (ih fun y hy => h y (mem_cons_of_mem x hy))

lemma ValidRecord.end_aligned {r : ImageRecord} (hr : ValidRecord arch r) : efiPageSize ∣ r.endAddress := by
  rw [← hr.total]
  exact dvd_add hr.start_aligned (dvd_total hr.size_aligned)

/-- the attributes `f` are those of the segments in the images, and those of `d` elsewhere -/
structure Separates (d : MemoryDescriptor) (f : Nat → Nat) (s e : Nat) (cs : List ImageRecord) :
    Prop where
  image : ∀ r ∈ cs, ∀ k v, valueAt r.segments k = some v → f (r.startAddress + k) = replaceAccess d.attr v
  other : ∀ a, s ≤ a → a < e → (∀ r ∈ cs, ¬ InImage r a) → f a = d.attr

lemma describes_splitPieces {f : Nat → Nat} (hv : ∀ r ∈ cs, ValidRecord arch r)
    (hasc : Ascending cs) (hs : efiPageSize ∣ s) (he : efiPageSize ∣ e) (hse : s ≤ e)
    (hin : ∀ r ∈ cs, LiesIn s e r) (hf : Separates d f s e cs) :
    DescribesRange d s e f (splitPieces d e s cs) := by
  induction cs generalizing s with
  | nil => exact .gap hs he hse fun a h1 h2 => hf.other a h1 h2 fun r hr => absurd hr not_mem_nil
  | cons r cs ih =>
    have hr := hv r mem_cons_self
    have hri := hin r mem_cons_self
    have hlater := (pairwise_cons.mp hasc).1
    have htail := fun x hx => hv x (mem_cons_of_mem r hx)
    have htotal := hr.total
    have hne := hr.nonempty
    unfold LiesIn at hri
    rw [splitPieces, append_assoc]
    refine DescribesRange.append (m := r.startAddress) ?_ (DescribesRange.append (m := r.endAddress)
      ?_ ?_ hne.le hri.2) hri.1 (by omega)
    · -- no image starts before the first one
      refine .gap hs hr.start_aligned hri.1 fun a h1 h2 => hf.other a h1 (by omega) ?_
      intro x hx
      unfold InImage
      rcases mem_cons.mp hx with rfl | hx
      · omega
      · have := hlater x hx
        omega
    · have h := DescribesRange.segments (f := f) (d := d) hr.start_aligned hr.size_aligned hr.access
        (hf.image r mem_cons_self)
      rwa [htotal] at h
    · refine ih htail (pairwise_cons.mp hasc).2 hr.end_aligned hri.2 ?_ ⟨?_, ?_⟩
      · exact fun x hx => ⟨hlater x hx, (hin x (mem_cons_of_mem r hx)).2⟩
      · exact fun x hx => hf.image x (mem_cons_of_mem r hx)
      · intro a h1 h2 hout
        refine hf.other a (by omega) h2 fun x hx => ?_
        rcases mem_cons.mp hx with rfl | hx
        · unfold InImage
          omega
        · exact hout x hx

end

end Audk.ImageProperties
