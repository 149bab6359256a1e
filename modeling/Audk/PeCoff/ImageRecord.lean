import Audk.Base.ImageRecord
import Audk.PeCoff.InitContract

/-!
# The permissions record of a PE image: `UefiImageLoaderGetImageRecordPe`

One pass over the section table keeps a current range of equal permissions and emits it as a record
segment once a section with other permissions follows.  The headers are the first range.

* `RangeInv`: the invariant of the loop;
* `uefiImageLoaderGetImageRecordPe_tiles_iff`: the record tiles the image unless the headers are
  followed by alignment padding that the strict policy never reports.
-/

namespace Audk.PeCoff

open Bytes Prog Arith Runs List Nat

/-! ## the code -/

/-- `EFI_MEMORY_XP | EFI_MEMORY_RO` -/
def readOnlyData : Nat := efiMemoryXp ||| efiMemoryRo

def internalCharacteristicsToAttributes (pcd : Pcd) (characteristics : Nat) : Nat :=
  let wx := scnMemExecute ||| scnMemWrite
  let c :=
    if pcd.imageLoaderRemoveXForWX = true ∧ characteristics &&& wx = wx then
      characteristics &&& (2^32 - 1 - scnMemExecute)
    else characteristics
  (if c &&& scnMemRead = 0 then efiMemoryRp else 0) |||
    (if c &&& scnMemExecute = 0 then efiMemoryXp else 0) |||
    (if c &&& scnMemWrite = 0 then efiMemoryRo else 0)

/-- `InternalInsertImageRecordSegmentPadding`: the segment with the padding behind it -/
def internalInsertImageRecordSegmentPadding (segment : RecordSegment)
    (endAddress nextAddress attributes : Nat) : List RecordSegment :=
  if nextAddress = endAddress then [segment]
  else if attributes = readOnlyData then
    [{ segment with size := add32 segment.size (sub32 nextAddress endAddress) }]
  else [segment, ⟨sub32 nextAddress endAddress, readOnlyData⟩]

/-- the current range, and the record segments emitted so far -/
structure Range where
  startAddress : Nat
  endAddress : Nat
  characteristics : Nat
  attributes : Nat
  segments : List RecordSegment

def Range.segment (r : Range) : RecordSegment := ⟨sub32 r.endAddress r.startAddress, r.attributes⟩

def SectionHeader.permissions (s : SectionHeader) : Nat :=
  s.characteristics &&& (scnMemExecute ||| scnMemRead ||| scnMemWrite)

/-- emit the range in front of a section at `address` -/
def Range.emit (pcd : Pcd) (address : Nat) (r : Range) : Range :=
  if address = r.startAddress then r
  else
    { r with
      startAddress := address
      segments := r.segments ++
        if pcd.contiguousSections = false then [r.segment]
        else internalInsertImageRecordSegmentPadding r.segment r.endAddress address r.attributes }

def recordSection (pcd : Pcd) (sectionAlignment : Nat) (s : SectionHeader) (r : Range) : Range :=
  if s.virtualSize = 0 then r
  else
    let endAddress := add32 s.virtualAddress (alignValue s.virtualSize sectionAlignment)
    if (pcd.contiguousSections = false ∨ s.virtualAddress = r.endAddress ∨
        r.characteristics = scnMemRead) ∧ s.permissions = r.characteristics then
      { r with endAddress := endAddress }
    else
      { r.emit pcd s.virtualAddress with
        endAddress := endAddress
        characteristics := s.permissions
        attributes := internalCharacteristicsToAttributes pcd s.permissions }

/-- the first `k` rounds of the loop; it starts with the range of the headers -/
def recordSections (pcd : Pcd) (f : File) (ctx : PeContext) : Nat → Range
  | 0 => ⟨0, ctx.sizeOfHeaders, scnMemRead, readOnlyData, []⟩
  | k+1 => recordSection pcd ctx.sectionAlignment (sectionAt f ctx.sectionsOffset k)
      (recordSections pcd f ctx k)

section
variable {pcd : Pcd} {s : SectionHeader} {align : Nat} {r : Range}

lemma recordSection_skip (h : s.virtualSize = 0) : recordSection pcd align s r = r := if_pos h

lemma recordSection_merge (h : s.virtualSize ≠ 0)
    (hm : pcd.contiguousSections = false ∨ s.virtualAddress = r.endAddress ∨
      r.characteristics = scnMemRead) (hp : s.permissions = r.characteristics) : recordSection pcd align s r =
      { r with endAddress := add32 s.virtualAddress (alignValue s.virtualSize align) } := by
  unfold recordSection
  rw [if_neg h]
  exact if_pos ⟨hm, hp⟩

lemma recordSection_emit (h : s.virtualSize ≠ 0)
    (hm : ¬ ((pcd.contiguousSections = false ∨ s.virtualAddress = r.endAddress ∨
      r.characteristics = scnMemRead) ∧ s.permissions = r.characteristics)) : recordSection pcd align s r =
      { r.emit pcd s.virtualAddress with
        endAddress := add32 s.virtualAddress (alignValue s.virtualSize align)
        characteristics := s.permissions
        attributes := internalCharacteristicsToAttributes pcd s.permissions } := by
  unfold recordSection
  rw [if_neg h]
  exact if_neg hm

end

def maxNumRecordSegments (pcd : Pcd) (ctx : PeContext) : Nat :=
  if pcd.contiguousSections = false then ctx.numberOfSections + 2 else ctx.numberOfSections * 2 + 1

/-- `UefiImageLoaderGetImageRecordPe`; `pool` says whether `AllocatePool` succeeds -/
def uefiImageLoaderGetImageRecordPe (pool : Bool) (pcd : Pcd) (f : File) (ctx : PeContext)
    (imageAddress : Nat) : Option ImageRecord :=
  if pool = true then
    let r := recordSections pcd f ctx ctx.numberOfSections
    some {
      slots := maxNumRecordSegments pcd ctx
      segments := r.segments ++
        internalInsertImageRecordSegmentPadding r.segment r.endAddress ctx.sizeOfImage r.attributes
      startAddress := imageAddress
      endAddress := imageAddress + ctx.sizeOfImage }
  else none

/-! ## what the record has to say -/

section
variable (pcd : Pcd) (f : File) (ctx : PeContext)

def sectionEnd (j : Nat) : Nat :=
  (sectionAt f ctx.sectionsOffset j).virtualAddress +
    roundUp (sectionAt f ctx.sectionsOffset j).virtualSize ctx.sectionAlignment

def InSection (j a : Nat) : Prop := (sectionAt f ctx.sectionsOffset j).virtualAddress ≤ a ∧ a < sectionEnd f ctx j

/-- `v` are the attributes of the section that contains the address, and read-only data outside
of the sections -/
def Permitted (a v : Nat) : Prop :=
  (∀ j, j < ctx.numberOfSections → InSection f ctx j a →
    v = internalCharacteristicsToAttributes pcd (sectionAt f ctx.sectionsOffset j).permissions) ∧
  ((∀ j, j < ctx.numberOfSections → ¬ InSection f ctx j a) → v = readOnlyData)

structure RecordTiles (record : ImageRecord) : Prop where
  slots : record.numSegments ≤ record.slots
  tiles : Tiles record.segments (Permitted pcd f ctx) ctx.sizeOfImage

/-- section `j` is the first one that is not empty -/
def FirstSection (j : Nat) : Prop :=
  j < ctx.numberOfSections ∧ (sectionAt f ctx.sectionsOffset j).virtualSize ≠ 0 ∧
    ∀ i, i < j → (sectionAt f ctx.sectionsOffset i).virtualSize = 0

/-- strict policy, headers that do not end at an alignment boundary, and behind them a section that
is not read-only data -/
def HeaderPadding : Prop :=
  pcd.contiguousSections = false ∧ (sectionAt f ctx.sectionsOffset 0).virtualAddress ≠ 0 ∧
    ¬ ctx.sectionAlignment ∣ ctx.sizeOfHeaders ∧
    ∃ j, FirstSection f ctx j ∧ (sectionAt f ctx.sectionsOffset j).permissions ≠ scnMemRead

end

/-! ## sections and the gaps between them -/

section
variable {pcd : Pcd} {f : File} {ctx : PeContext}

section
variable (h : Accepted pcd f ctx)
include h

lemma Accepted.sectionEnd_le {i j : Nat} (hij : i < j) (hj : j < ctx.numberOfSections) :
    sectionEnd f ctx i ≤ (sectionAt f ctx.sectionsOffset j).virtualAddress := by
  unfold sectionEnd
  rw [← roundUp_add _ (isPow2_pos h.pow2) (h.aligned i (hij.trans hj))]
  exact roundUp_le (isPow2_pos h.pow2) (h.aligned j hj) (h.sorted i j hij hj)

lemma Accepted.sectionEnd_le_size {j : Nat}
    (hj : j < ctx.numberOfSections) : sectionEnd f ctx j ≤ ctx.sizeOfImage := by
  unfold sectionEnd
  rw [← roundUp_add _ (isPow2_pos h.pow2) (h.aligned j hj)]
  exact roundUp_le (isPow2_pos h.pow2) (h.size_eq ▸ dvd_roundUp _ _) (h.top_le j hj)

lemma Accepted.align_lt : ctx.sectionAlignment < 2^32 := by
  have hdvd : ctx.sectionAlignment ∣ ctx.sizeOfImage := h.size_eq ▸ dvd_roundUp _ _
  exact lt_of_le_of_lt (le_of_dvd (zero_lt_of_lt h.entry) hdvd) h.size_lt

lemma Accepted.sectionEnd_computed {j : Nat} (hj : j < ctx.numberOfSections) :
    add32 (sectionAt f ctx.sectionsOffset j).virtualAddress
      (alignValue (sectionAt f ctx.sectionsOffset j).virtualSize ctx.sectionAlignment) =
      sectionEnd f ctx j := by
  have htop : sectionEnd f ctx j < 2^32 := lt_of_le_of_lt (h.sectionEnd_le_size hj) h.size_lt
  have hround := lt_of_le_of_lt (le_add_left _ _) htop
  have hsize : (sectionAt f ctx.sectionsOffset j).virtualSize < 2^32 := f.u32_lt _
  rw [alignValue_eq h.pow2 h.align_lt hsize hround]
  exact add32_eq htop

end

lemma sectionEnd_empty {j : Nat} (hj : (sectionAt f ctx.sectionsOffset j).virtualSize = 0)
    (ha : 0 < ctx.sectionAlignment) :
    sectionEnd f ctx j = (sectionAt f ctx.sectionsOffset j).virtualAddress := by
  unfold sectionEnd
  rw [hj, roundUp_eq_self ha (dvd_zero _), add_zero]

section
variable (h : Accepted pcd f ctx)
include h

lemma Accepted.lt_sectionEnd {j : Nat}
    (hj : (sectionAt f ctx.sectionsOffset j).virtualSize ≠ 0) :
    (sectionAt f ctx.sectionsOffset j).virtualAddress < sectionEnd f ctx j := by
  have := le_roundUp (sectionAt f ctx.sectionsOffset j).virtualSize (isPow2_pos h.pow2)
  unfold sectionEnd
  omega

/-- in the strict policy the next section starts where the aligned one ends -/
lemma Accepted.next_eq (hs : pcd.contiguousSections = false) {j : Nat}
    (hj : j + 1 < ctx.numberOfSections) :
    (sectionAt f ctx.sectionsOffset (j+1)).virtualAddress = sectionEnd f ctx j := by
  rw [(h.strict hs).2 j hj]
  exact roundUp_add _ (isPow2_pos h.pow2) (h.aligned j (by omega))

lemma Accepted.permitted_section {j a : Nat}
    (hj : j < ctx.numberOfSections) (ha : InSection f ctx j a) : Permitted pcd f ctx a
      (internalCharacteristicsToAttributes pcd (sectionAt f ctx.sectionsOffset j).permissions) := by
  refine ⟨fun i hi hia => ?_, fun hno => absurd ha (hno j hj)⟩
  rcases lt_trichotomy i j with hij | rfl | hji
  · exact absurd (hia.2.trans_le (h.sectionEnd_le hij hj)) (not_lt.mpr ha.1)
  · rfl
  · exact absurd (ha.2.trans_le (h.sectionEnd_le hji hi)) (not_lt.mpr hia.1)

/-- an address behind the first `k` sections and in front of the next one is read-only data -/
lemma Accepted.permitted_gap {k a : Nat}
    (hlow : ∀ j, j < k → (sectionAt f ctx.sectionsOffset j).virtualSize ≠ 0 → sectionEnd f ctx j ≤ a)
    (hhigh : k < ctx.numberOfSections → a < (sectionAt f ctx.sectionsOffset k).virtualAddress) :
    Permitted pcd f ctx a readOnlyData := by
  refine ⟨fun j hj hja => absurd hja ?_, fun _ => rfl⟩
  rintro ⟨hge, hlt⟩
  rcases lt_trichotomy j k with hjk | rfl | hkj
  · by_cases he : (sectionAt f ctx.sectionsOffset j).virtualSize = 0
    · rw [sectionEnd_empty he (isPow2_pos h.pow2)] at hlt
      omega
    · have := hlow j hjk he
      omega
  · have := hhigh hj
    omega
  · have h1 := hhigh (hkj.trans hj)
    have h2 := h.sectionEnd_le hkj hj
    unfold sectionEnd at h2
    omega

end

/-! ## padding -/

lemma attributes_read (pcd : Pcd) : internalCharacteristicsToAttributes pcd scnMemRead = readOnlyData := by
  have hwx : ¬ scnMemRead &&& (scnMemExecute ||| scnMemWrite) = scnMemExecute ||| scnMemWrite := by
    decide
  simp only [internalCharacteristicsToAttributes, hwx, and_false, if_false]
  decide

variable {segs : List RecordSegment} {P : Nat → Nat → Prop} {s e n v : Nat}

/-- padding of read-only data only moves the end of the range, even if that is downwards -/
lemma padding_readOnly (hs : s < 2^32) (he : e < 2^32) (hn : n < 2^32) :
    internalInsertImageRecordSegmentPadding ⟨sub32 e s, readOnlyData⟩ e n readOnlyData =
      [⟨sub32 n s, readOnlyData⟩] := by
  unfold internalInsertImageRecordSegmentPadding
  by_cases h : n = e
  · rw [if_pos h, h]
  · rw [if_neg h, if_pos rfl, add32_sub32 hs he hn]

lemma padding_total (hse : s ≤ e) (hen : e ≤ n) (hn : n < 2^32) :
    total (internalInsertImageRecordSegmentPadding ⟨sub32 e s, v⟩ e n v) = n - s := by
  by_cases hv : v = readOnlyData
  · rw [hv, padding_readOnly (by omega) (by omega) hn, total_cons, total_nil,
      sub32_eq (hse.trans hen) hn, add_zero]
  unfold internalInsertImageRecordSegmentPadding
  by_cases h : n = e
  · rw [if_pos h, total_cons, total_nil, sub32_eq hse (by omega), h, add_zero]
  · rw [if_neg h, if_neg hv, total_cons, total_cons, total_nil, sub32_eq hse (by omega), sub32_eq hen hn]
    show e - s + (n - e + 0) = n - s
    omega

lemma padding_tiles (ht : Tiles segs P s) (hse : s ≤ e) (hen : e ≤ n) (hn : n < 2^32)
    (hr : ∀ a, s ≤ a → a < e → P a v) (hp : ∀ a, e ≤ a → a < n → P a readOnlyData) :
    Tiles (segs ++ internalInsertImageRecordSegmentPadding ⟨sub32 e s, v⟩ e n v) P n := by
  have hsize : ∀ {x y}, x ≤ y → y ≤ n → x + sub32 y x = y := fun hxy hy => by
    rw [sub32_eq hxy (lt_of_le_of_lt hy hn), Nat.add_sub_cancel' hxy]
  by_cases hv : v = readOnlyData
  · rw [hv, padding_readOnly (by omega) (by omega) hn]
    refine ht.snoc (hsize (hse.trans hen) le_rfl) fun a h1 h2 => ?_
    rcases Nat.lt_or_ge a e with h | h
    · exact hv ▸ hr a h1 h
    · exact hp a h h2
  · unfold internalInsertImageRecordSegmentPadding
    by_cases h : n = e
    · rw [if_pos h, h]
      exact ht.snoc (hsize hse hen) hr
    · rw [if_neg h, if_neg hv]
      have h1 : Tiles (segs ++ [⟨sub32 e s, v⟩]) P e := ht.snoc (hsize hse hen) hr
      have h2 : Tiles ((segs ++ [⟨sub32 e s, v⟩]) ++ [⟨sub32 n e, readOnlyData⟩]) P n := h1.snoc (hsize hen le_rfl) hp
      rwa [append_assoc] at h2

lemma padding_length (seg : RecordSegment) : (internalInsertImageRecordSegmentPadding seg e n v).length ≤ 2 := by
  unfold internalInsertImageRecordSegmentPadding
  by_cases h : n = e
  · rw [if_pos h]
    exact le_succ 1
  rw [if_neg h]
  by_cases hv : v = readOnlyData
  · rw [if_pos hv]
    exact le_succ 1
  · rw [if_neg hv]
    exact le_rfl

end

/-! ## the loop -/

section
variable (pcd : Pcd) (f : File) (ctx : PeContext)

/-- how many segments `k` sections may have emitted; the last range is not among them -/
def rangeSlots (k : Nat) : Nat := if pcd.contiguousSections = false then k else 2 * k - 1

/-- no section was recorded yet: the range is that of the headers -/
structure HeaderRange (k : Nat) (r : Range) : Prop where
  range : r = recordSections pcd f ctx 0
  empty : ∀ j, j < k → (sectionAt f ctx.sectionsOffset j).virtualSize = 0
  adjacent : pcd.contiguousSections = false → k < ctx.numberOfSections →
    (sectionAt f ctx.sectionsOffset k).virtualAddress = (sectionAt f ctx.sectionsOffset 0).virtualAddress

/-- the range ends with a recorded section; the segments emitted so far are `d` bytes short -/
structure RangeInv (d k : Nat) (r : Range) : Prop where
  attributes : r.attributes = internalCharacteristicsToAttributes pcd r.characteristics
  start_lt : r.startAddress < r.endAddress
  last : ∃ i, i < k ∧ r.endAddress = sectionEnd f ctx i
  behind : ∀ j, j < k → (sectionAt f ctx.sectionsOffset j).virtualSize ≠ 0 →
    sectionEnd f ctx j ≤ r.endAddress
  adjacent : pcd.contiguousSections = false → k < ctx.numberOfSections →
    (sectionAt f ctx.sectionsOffset k).virtualAddress = r.endAddress
  range : ∀ a, r.startAddress ≤ a → a < r.endAddress → Permitted pcd f ctx a r.attributes
  sum : total r.segments + d = r.startAddress
  tiles : d = 0 → Tiles r.segments (Permitted pcd f ctx) r.startAddress
  count : r.segments.length ≤ rangeSlots pcd k

end

section
variable {pcd : Pcd} {f : File} {ctx : PeContext} {d k : Nat} {r : Range}

lemma rangeSlots_le_succ (pcd : Pcd) (k : Nat) : rangeSlots pcd k ≤ rangeSlots pcd (k+1) := by
  unfold rangeSlots
  by_cases hs : pcd.contiguousSections = false
  · rw [if_pos hs, if_pos hs]
    exact le_succ k
  · rw [if_neg hs, if_neg hs]
    omega

lemma HeaderRange.skip (hr : HeaderRange pcd f ctx k r) (h : Accepted pcd f ctx)
    (he : (sectionAt f ctx.sectionsOffset k).virtualSize = 0) : HeaderRange pcd f ctx (k+1) r where
  range := hr.range
  empty := by
    intro j hj
    rcases Nat.lt_succ_iff_lt_or_eq.mp hj with hj | rfl
    · exact hr.empty j hj
    · exact he
  adjacent := by
    intro hs hk
    rw [h.next_eq hs hk, sectionEnd_empty he (isPow2_pos h.pow2)]
    exact hr.adjacent hs (by omega)

lemma RangeInv.skip (hr : RangeInv pcd f ctx d k r) (h : Accepted pcd f ctx)
    (he : (sectionAt f ctx.sectionsOffset k).virtualSize = 0) :
    RangeInv pcd f ctx d (k+1) r := by
  refine { hr with last := ?_, behind := ?_, adjacent := ?_, count := ?_ }
  · obtain ⟨i, hi, hend⟩ := hr.last
    exact ⟨i, by omega, hend⟩
  · intro j hj hne
    rcases Nat.lt_succ_iff_lt_or_eq.mp hj with hj | rfl
    · exact hr.behind j hj hne
    · exact absurd he hne
  · intro hs hk
    rw [h.next_eq hs hk, sectionEnd_empty he (isPow2_pos h.pow2)]
    exact hr.adjacent hs (by omega)
  · exact hr.count.trans (rangeSlots_le_succ pcd k)

lemma Accepted.rangeInv_section (h : Accepted pcd f ctx) (hk : k < ctx.numberOfSections)
    (hne : (sectionAt f ctx.sectionsOffset k).virtualSize ≠ 0) (hend : r.endAddress = sectionEnd f ctx k)
    (hchars : r.characteristics = (sectionAt f ctx.sectionsOffset k).permissions)
    (hattr : r.attributes = internalCharacteristicsToAttributes pcd r.characteristics)
    (hstart : r.startAddress ≤ (sectionAt f ctx.sectionsOffset k).virtualAddress)
    (hgap : ∀ a, r.startAddress ≤ a → a < (sectionAt f ctx.sectionsOffset k).virtualAddress →
      Permitted pcd f ctx a r.attributes) (hsum : total r.segments + d = r.startAddress)
    (htiles : d = 0 → Tiles r.segments (Permitted pcd f ctx) r.startAddress)
    (hcount : r.segments.length ≤ rangeSlots pcd (k+1)) : RangeInv pcd f ctx d (k+1) r where
  attributes := hattr
  start_lt := by
    rw [hend]
    exact lt_of_le_of_lt hstart (h.lt_sectionEnd hne)
  last := ⟨k, lt_succ_self k, hend⟩
  behind := by
    intro j hj hj0
    rw [hend]
    rcases Nat.lt_succ_iff_lt_or_eq.mp hj with hj | rfl
    · exact (h.sectionEnd_le hj hk).trans (h.lt_sectionEnd hne).le
    · exact le_rfl
  adjacent := fun hs hk' => (h.next_eq hs hk').trans hend.symm
  range := by
    intro a h1 h2
    rcases lt_or_ge a (sectionAt f ctx.sectionsOffset k).virtualAddress with hlt | hge
    · exact hgap a h1 hlt
    · rw [hattr, hchars]
      exact h.permitted_section hk ⟨hge, hend ▸ h2⟩
  sum := hsum
  tiles := htiles
  count := hcount

lemma Accepted.rangeInv_start (h : Accepted pcd f ctx) (hk : k < ctx.numberOfSections)
    (hne : (sectionAt f ctx.sectionsOffset k).virtualSize ≠ 0) {segs : List RecordSegment}
    (hsum : total segs + d = (sectionAt f ctx.sectionsOffset k).virtualAddress) (htiles : d = 0 →
      Tiles segs (Permitted pcd f ctx) (sectionAt f ctx.sectionsOffset k).virtualAddress)
    (hcount : segs.length ≤ rangeSlots pcd (k+1)) : RangeInv pcd f ctx d (k+1)
      { startAddress := (sectionAt f ctx.sectionsOffset k).virtualAddress
        endAddress := sectionEnd f ctx k
        characteristics := (sectionAt f ctx.sectionsOffset k).permissions
        attributes := internalCharacteristicsToAttributes pcd (sectionAt f ctx.sectionsOffset k).permissions
        segments := segs } :=
  h.rangeInv_section hk hne rfl rfl rfl le_rfl (fun _ h1 h2 => absurd h1 (not_le.mpr h2)) hsum htiles hcount

section
variable (hr : RangeInv pcd f ctx d k r)
include hr

lemma RangeInv.extend (h : Accepted pcd f ctx) (hk : k < ctx.numberOfSections)
    (hne : (sectionAt f ctx.sectionsOffset k).virtualSize ≠ 0) (hmerge : pcd.contiguousSections = false ∨
      (sectionAt f ctx.sectionsOffset k).virtualAddress = r.endAddress ∨
      r.characteristics = scnMemRead) (hchars : (sectionAt f ctx.sectionsOffset k).permissions = r.characteristics) :
    RangeInv pcd f ctx d (k+1) { r with endAddress := sectionEnd f ctx k } := by
  obtain ⟨i, hi, hend⟩ := hr.last
  have hle : r.endAddress ≤ (sectionAt f ctx.sectionsOffset k).virtualAddress := hend ▸ h.sectionEnd_le hi hk
  refine h.rangeInv_section hk hne rfl hchars.symm hr.attributes (hr.start_lt.le.trans hle) ?_
    hr.sum hr.tiles (hr.count.trans (rangeSlots_le_succ pcd k))
  intro a h1 h2
  rcases lt_or_ge a r.endAddress with hlt | hge
  · exact hr.range a h1 hlt
  -- only a range of read-only data is extended over a gap
  rcases hmerge with hs | he | hc
  · rw [hr.adjacent hs hk] at h2
    omega
  · omega
  · show Permitted pcd f ctx a r.attributes
    rw [hr.attributes, hc, attributes_read]
    exact h.permitted_gap (fun j hj hj0 => (hr.behind j hj hj0).trans hge) fun _ => h2

lemma RangeInv.emit (h : Accepted pcd f ctx) (hk : k < ctx.numberOfSections)
    (hne : (sectionAt f ctx.sectionsOffset k).virtualSize ≠ 0) : RangeInv pcd f ctx d (k+1)
      { r.emit pcd (sectionAt f ctx.sectionsOffset k).virtualAddress with
        endAddress := sectionEnd f ctx k
        characteristics := (sectionAt f ctx.sectionsOffset k).permissions
        attributes := internalCharacteristicsToAttributes pcd (sectionAt f ctx.sectionsOffset k).permissions } := by
  obtain ⟨i, hi, hend⟩ := hr.last
  have hle : r.endAddress ≤ (sectionAt f ctx.sectionsOffset k).virtualAddress := hend ▸ h.sectionEnd_le hi hk
  have hlt : (sectionAt f ctx.sectionsOffset k).virtualAddress < 2^32 := f.u32_lt _
  have hstart := hr.start_lt
  have hsum := hr.sum
  have hcount := hr.count
  have hdiff : (sectionAt f ctx.sectionsOffset k).virtualAddress ≠ r.startAddress := by omega
  unfold Range.emit
  rw [if_neg hdiff]
  by_cases hs : pcd.contiguousSections = false
  · have hadj := hr.adjacent hs hk
    have hsize : sub32 r.endAddress r.startAddress = r.endAddress - r.startAddress := sub32_eq hstart.le (by omega)
    rw [if_pos hs]
    unfold rangeSlots at hcount
    rw [if_pos hs] at hcount
    refine h.rangeInv_start hk hne ?_ (fun hd => ?_) ?_
    · rw [total_append, total_cons, total_nil, Range.segment, hsize, hadj]
      show total r.segments + (r.endAddress - r.startAddress + 0) + d = r.endAddress
      omega
    · rw [hadj]
      refine (hr.tiles hd).snoc ?_ hr.range
      rw [Range.segment, hsize]
      exact Nat.add_sub_cancel' hstart.le
    · unfold rangeSlots
      rw [if_pos hs, length_append]
      exact succ_le_succ hcount
  · rw [if_neg hs]
    unfold rangeSlots at hcount
    rw [if_neg hs] at hcount
    refine h.rangeInv_start hk hne ?_ (fun hd => ?_) ?_
    · rw [total_append, Range.segment, padding_total hstart.le hle hlt]
      omega
    · refine padding_tiles (hr.tiles hd) hstart.le hle hlt hr.range fun a h1 h2 => ?_
      exact h.permitted_gap (fun j hj hj0 => (hr.behind j hj hj0).trans h1) fun _ => h2
    · have h2 := padding_length (e := r.endAddress) (v := r.attributes)
        (n := (sectionAt f ctx.sectionsOffset k).virtualAddress) r.segment
      unfold rangeSlots
      rw [if_neg hs, length_append]
      omega

lemma RangeInv.step (h : Accepted pcd f ctx) (hk : k < ctx.numberOfSections) :
    RangeInv pcd f ctx d (k+1) (recordSection pcd ctx.sectionAlignment (sectionAt f ctx.sectionsOffset k) r) := by
  by_cases he : (sectionAt f ctx.sectionsOffset k).virtualSize = 0
  · rw [recordSection_skip he]
    exact hr.skip h he
  by_cases hm : (pcd.contiguousSections = false ∨
      (sectionAt f ctx.sectionsOffset k).virtualAddress = r.endAddress ∨
      r.characteristics = scnMemRead) ∧
      (sectionAt f ctx.sectionsOffset k).permissions = r.characteristics
  · rw [recordSection_merge he hm.1 hm.2, h.sectionEnd_computed hk]
    exact hr.extend h hk he hm.1 hm.2
  · rw [recordSection_emit he hm, h.sectionEnd_computed hk]
    exact hr.emit h hk he

end

/-! ## the first section -/

lemma FirstSection.unique {i j : Nat} (hi : FirstSection f ctx i) (hj : FirstSection f ctx j) : i = j := by
  rcases lt_trichotomy i j with hlt | rfl | hlt
  · exact absurd (hj.2.2 i hlt) hi.2.1
  · rfl
  · exact absurd (hi.2.2 j hlt) hj.2.1

lemma Accepted.headers_lt (h : Accepted pcd f ctx) : ctx.sizeOfHeaders < 2^32 := lt_of_le_of_lt h.headers_le f.size_lt

lemma HeaderRange.permitted (hr : HeaderRange pcd f ctx k r) (h : Accepted pcd f ctx) {a : Nat}
    (ha : k < ctx.numberOfSections → a < (sectionAt f ctx.sectionsOffset k).virtualAddress) :
    Permitted pcd f ctx a readOnlyData :=
  h.permitted_gap (fun j hj hne => absurd (hr.empty j hj) hne) ha

/-- the headers and a first section of read-only data are one range -/
lemma HeaderRange.extend (hr : HeaderRange pcd f ctx k r) (h : Accepted pcd f ctx) (hk : k < ctx.numberOfSections)
    (hne : (sectionAt f ctx.sectionsOffset k).virtualSize ≠ 0)
    (hread : (sectionAt f ctx.sectionsOffset k).permissions = scnMemRead) :
    RangeInv pcd f ctx 0 (k+1) { r with endAddress := sectionEnd f ctx k } := by
  have e := hr.range
  subst e
  exact h.rangeInv_section hk hne rfl hread.symm (attributes_read pcd).symm (zero_le _)
    (fun a _ h2 => hr.permitted h fun _ => h2) rfl (fun _ => tiles_nil _) (zero_le _)

/-- how much the segment of the headers is short in front of section `k`: the strict policy does not
report the padding behind the headers -/
def shortage (pcd : Pcd) (f : File) (ctx : PeContext) (k : Nat) : Nat :=
  if pcd.contiguousSections = false ∧ (sectionAt f ctx.sectionsOffset k).virtualAddress ≠ 0
  then (sectionAt f ctx.sectionsOffset k).virtualAddress - ctx.sizeOfHeaders else 0

/-- the headers are emitted in front of a first section with other permissions -/
lemma HeaderRange.emit (hr : HeaderRange pcd f ctx k r) (h : Accepted pcd f ctx) (hk : k < ctx.numberOfSections)
    (hne : (sectionAt f ctx.sectionsOffset k).virtualSize ≠ 0) : RangeInv pcd f ctx (shortage pcd f ctx k) (k+1)
      { r.emit pcd (sectionAt f ctx.sectionsOffset k).virtualAddress with
        endAddress := sectionEnd f ctx k
        characteristics := (sectionAt f ctx.sectionsOffset k).permissions
        attributes := internalCharacteristicsToAttributes pcd (sectionAt f ctx.sectionsOffset k).permissions } := by
  have e := hr.range
  subst e
  have hva : (sectionAt f ctx.sectionsOffset k).virtualAddress < 2^32 := f.u32_lt _
  have hpermitted : ∀ a, 0 ≤ a → a < (sectionAt f ctx.sectionsOffset k).virtualAddress →
      Permitted pcd f ctx a readOnlyData := fun a _ ha => hr.permitted h fun _ => ha
  have hslots : 1 ≤ rangeSlots pcd (k+1) := by
    unfold rangeSlots
    split <;> omega
  unfold Range.emit shortage
  by_cases h0 : (sectionAt f ctx.sectionsOffset k).virtualAddress = 0
  · -- the section starts at the image base: the range of the headers is dropped
    have hstart : (sectionAt f ctx.sectionsOffset k).virtualAddress = (recordSections pcd f ctx 0).startAddress := h0
    have ht : Tiles [] (Permitted pcd f ctx) (sectionAt f ctx.sectionsOffset k).virtualAddress :=
      h0.symm ▸ tiles_nil _
    have hinv := h.rangeInv_start hk hne ((add_zero _).trans ht.sum) (fun _ => ht) (zero_le _)
    rw [if_neg fun hc => hc.2 h0, if_pos hstart]
    rwa [h0] at hinv
  · have hstart : ¬ (sectionAt f ctx.sectionsOffset k).virtualAddress =
        (recordSections pcd f ctx 0).startAddress := h0
    rw [if_neg hstart]
    by_cases hs : pcd.contiguousSections = false
    · have hle : ctx.sizeOfHeaders ≤ (sectionAt f ctx.sectionsOffset k).virtualAddress := by
        rw [hr.adjacent hs hk] at h0 ⊢
        exact h.first.resolve_left h0
      have hsize : sub32 ctx.sizeOfHeaders 0 = ctx.sizeOfHeaders := sub32_eq (zero_le _) h.headers_lt
      rw [if_pos ⟨hs, h0⟩, if_pos hs]
      refine h.rangeInv_start hk hne ?_ (fun hd => ?_) hslots
      · show sub32 ctx.sizeOfHeaders 0 + 0 + _ = (sectionAt f ctx.sectionsOffset k).virtualAddress
        omega
      · refine (tiles_nil _).snoc ?_ hpermitted
        show 0 + sub32 ctx.sizeOfHeaders 0 = (sectionAt f ctx.sectionsOffset k).virtualAddress
        omega
    · have hpad : internalInsertImageRecordSegmentPadding (recordSections pcd f ctx 0).segment
          ctx.sizeOfHeaders (sectionAt f ctx.sectionsOffset k).virtualAddress readOnlyData =
          [⟨sub32 (sectionAt f ctx.sectionsOffset k).virtualAddress 0, readOnlyData⟩] :=
        padding_readOnly (Nat.two_pow_pos 32) h.headers_lt hva
      rw [if_neg fun hc => hs hc.1, if_neg hs]
      change RangeInv pcd f ctx 0 (k+1) (Range.mk _ _ _ _
        (internalInsertImageRecordSegmentPadding (recordSections pcd f ctx 0).segment
          ctx.sizeOfHeaders (sectionAt f ctx.sectionsOffset k).virtualAddress readOnlyData))
      have ht : Tiles [⟨sub32 (sectionAt f ctx.sectionsOffset k).virtualAddress 0, readOnlyData⟩]
          (Permitted pcd f ctx) (sectionAt f ctx.sectionsOffset k).virtualAddress :=
        (tiles_nil _).snoc ((zero_add _).trans (sub32_eq (zero_le _) hva)) hpermitted
      rw [hpad]
      exact h.rangeInv_start hk hne ((add_zero _).trans ht.sum) (fun _ => ht) hslots

lemma shortage_eq_zero_iff (hr : HeaderRange pcd f ctx k r) (h : Accepted pcd f ctx) (hk : k < ctx.numberOfSections)
    (hne : (sectionAt f ctx.sectionsOffset k).virtualSize ≠ 0)
    (hread : (sectionAt f ctx.sectionsOffset k).permissions ≠ scnMemRead) :
    shortage pcd f ctx k = 0 ↔ ¬ HeaderPadding pcd f ctx := by
  have hfirst : FirstSection f ctx k := ⟨hk, hne, hr.empty⟩
  have hva : pcd.contiguousSections = false → (sectionAt f ctx.sectionsOffset k).virtualAddress =
      (sectionAt f ctx.sectionsOffset 0).virtualAddress := fun hs => hr.adjacent hs hk
  unfold shortage
  by_cases hc : pcd.contiguousSections = false ∧ (sectionAt f ctx.sectionsOffset k).virtualAddress ≠ 0
  · have h0 := hc.2
    rw [hva hc.1] at h0
    have hround := (h.strict hc.1).1.resolve_left h0
    rw [if_pos hc, hva hc.1, hround, Nat.sub_eq_zero_iff_le]
    constructor
    · rintro hle ⟨-, -, hdvd, -⟩
      have heq := le_antisymm hle (le_roundUp _ (isPow2_pos h.pow2))
      exact hdvd (heq ▸ dvd_roundUp _ _)
    · intro hno
      have hdvd : ctx.sectionAlignment ∣ ctx.sizeOfHeaders := by
        by_contra hdvd
        exact hno ⟨hc.1, h0, hdvd, k, hfirst, hread⟩
      exact (roundUp_eq_self (isPow2_pos h.pow2) hdvd).le
  · rw [if_neg hc]
    refine ⟨fun _ hp => hc ⟨hp.1, ?_⟩, fun _ => rfl⟩
    rw [hva hp.1]
    exact hp.2.1

lemma Accepted.recordSections_inv (h : Accepted pcd f ctx) (hk : k ≤ ctx.numberOfSections) :
    HeaderRange pcd f ctx k (recordSections pcd f ctx k) ∨
      ∃ d, (d = 0 ↔ ¬ HeaderPadding pcd f ctx) ∧ RangeInv pcd f ctx d k (recordSections pcd f ctx k) := by
  induction k with
  | zero => exact .inl ⟨rfl, fun j hj => absurd hj (not_lt_zero j), fun _ _ => rfl⟩
  | succ k ih =>
    rcases ih (by omega) with hr | ⟨d, hd, hr⟩
    · by_cases he : (sectionAt f ctx.sectionsOffset k).virtualSize = 0
      · rw [recordSections, recordSection_skip he]
        exact .inl (hr.skip h he)
      · have hchars : (recordSections pcd f ctx k).characteristics = scnMemRead := by
          rw [hr.range]
          rfl
        right
        by_cases hread : (sectionAt f ctx.sectionsOffset k).permissions = scnMemRead
        · rw [recordSections, recordSection_merge he (.inr (.inr hchars)) (hread.trans hchars.symm),
            h.sectionEnd_computed hk]
          refine ⟨0, ⟨fun _ => ?_, fun _ => rfl⟩, hr.extend h hk he hread⟩
          rintro ⟨-, -, -, j, hj, hne⟩
          exact hne (hj.unique ⟨hk, he, hr.empty⟩ ▸ hread)
        · rw [recordSections, recordSection_emit he fun hc => hread (hc.2.trans hchars), h.sectionEnd_computed hk]
          exact ⟨_, shortage_eq_zero_iff hr h hk he hread, hr.emit h hk he⟩
    · exact .inr ⟨d, hd, hr.step h hk⟩

/-! ## the record -/

lemma HeaderRange.final (hr : HeaderRange pcd f ctx ctx.numberOfSections r) (h : Accepted pcd f ctx) :
    r.segments ++ internalInsertImageRecordSegmentPadding r.segment r.endAddress ctx.sizeOfImage
      r.attributes = [⟨ctx.sizeOfImage, readOnlyData⟩] := by
  have e := hr.range
  subst e
  have hpad : internalInsertImageRecordSegmentPadding (recordSections pcd f ctx 0).segment
      ctx.sizeOfHeaders ctx.sizeOfImage readOnlyData = [⟨sub32 ctx.sizeOfImage 0, readOnlyData⟩] :=
    padding_readOnly (Nat.two_pow_pos 32) h.headers_lt h.size_lt
  rw [sub32_eq (zero_le _) h.size_lt] at hpad
  exact hpad

section
variable (hr : RangeInv pcd f ctx d ctx.numberOfSections r)
include hr

section
variable (h : Accepted pcd f ctx)
include h

lemma RangeInv.end_le :
    r.endAddress ≤ ctx.sizeOfImage := by
  obtain ⟨i, hi, hend⟩ := hr.last
  exact hend ▸ h.sectionEnd_le_size hi

lemma RangeInv.final (hd : d = 0) :
    Tiles (r.segments ++ internalInsertImageRecordSegmentPadding r.segment r.endAddress
      ctx.sizeOfImage r.attributes) (Permitted pcd f ctx) ctx.sizeOfImage := by
  refine padding_tiles (hr.tiles hd) hr.start_lt.le (hr.end_le h) h.size_lt hr.range fun a h1 h2 => ?_
  exact h.permitted_gap (fun j hj hj0 => (hr.behind j hj hj0).trans h1) fun hc => absurd hc (lt_irrefl _)

lemma RangeInv.final_total :
    total (r.segments ++ internalInsertImageRecordSegmentPadding r.segment r.endAddress
      ctx.sizeOfImage r.attributes) + d = ctx.sizeOfImage := by
  have h1 := hr.end_le h
  have h2 := hr.start_lt
  have h3 := hr.sum
  rw [total_append, Range.segment, padding_total h2.le h1 h.size_lt]
  omega

lemma RangeInv.final_slots :
    (r.segments ++ internalInsertImageRecordSegmentPadding r.segment r.endAddress
      ctx.sizeOfImage r.attributes).length ≤ maxNumRecordSegments pcd ctx := by
  have hpos := h.pos
  have hcount := hr.count
  have h2 := padding_length (e := r.endAddress) (n := ctx.sizeOfImage) (v := r.attributes) r.segment
  rw [length_append]
  unfold rangeSlots at hcount
  unfold maxNumRecordSegments
  by_cases hs : pcd.contiguousSections = false
  · rw [if_pos hs] at hcount ⊢
    omega
  · rw [if_neg hs] at hcount ⊢
    omega

end

end

/-- **the record of an accepted image tiles the image with the permissions of its sections, unless
the strict policy loses the padding behind the headers** -/
theorem uefiImageLoaderGetImageRecordPe_tiles_iff {arch : Arch} {origin : ImageOrigin}
    {log : List Span} {pool : Bool} {imageAddress : Nat} {record : ImageRecord}
    (hrun : peCoffInitializeContext pcd arch origin f [] = (.ok ctx, log))
    (hrec : uefiImageLoaderGetImageRecordPe pool pcd f ctx imageAddress = some record) :
    RecordTiles pcd f ctx record ↔ ¬ HeaderPadding pcd f ctx := by
  have h := (accepted_of_run hrun).2
  unfold uefiImageLoaderGetImageRecordPe at hrec
  by_cases hpool : pool = true
  · rw [if_pos hpool] at hrec
    cases hrec
    rcases h.recordSections_inv le_rfl with hr | ⟨d, hd, hr⟩
    · have hlist := hr.final h
      refine ⟨?_, fun _ => ⟨?_, ?_⟩⟩
      · rintro - ⟨-, -, -, j, hj, -⟩
        exact hj.2.1 (hr.empty j hj.1)
      · refine (congrArg List.length hlist).trans_le ?_
        show 1 ≤ maxNumRecordSegments pcd ctx
        unfold maxNumRecordSegments
        split <;> omega
      · show Tiles (_ ++ _) _ _
        rw [hlist]
        refine (tiles_nil _).snoc (zero_add _) fun a _ _ => ?_
        exact hr.permitted h fun hc => absurd hc (lt_irrefl _)
    · rw [← hd]
      refine ⟨fun ht => ?_, fun hd0 => ⟨hr.final_slots h, hr.final h hd0⟩⟩
      exact add_eq_left.mp ((hr.final_total h).trans ht.tiles.sum.symm)
  · rw [if_neg hpool] at hrec
    cases hrec

end

/-! ## two images -/

/-- the policy under which sections are contiguous -/
def strictPcd : Pcd := { Pcd.default with imageLoaderAlignmentPolicy := 0xFFFFFFFE }

def plainContext : PeContext := { gapContext with relocDirSize := 0 }

lemma plainImage_strict_run :
    (peCoffInitializeContext strictPcd .x64 .userImage plainImage []).1 = .ok plainContext := by
  decide +kernel

lemma plainImage_relaxed_run :
    (peCoffInitializeContext .default .x64 .userImage plainImage []).1 = .ok plainContext := by
  decide +kernel

theorem plainImage_record_tiles : RecordTiles .default plainImage plainContext
      ⟨3, [⟨0x1000, readOnlyData⟩, ⟨0x1000, efiMemoryRo⟩], 0x3000, 0x5000⟩ := by
  have hrec : uefiImageLoaderGetImageRecordPe true .default plainImage plainContext 0x3000 =
      some ⟨3, [⟨0x1000, readOnlyData⟩, ⟨0x1000, efiMemoryRo⟩], 0x3000, 0x5000⟩ := by decide +kernel
  refine (uefiImageLoaderGetImageRecordPe_tiles_iff (Prod.ext plainImage_relaxed_run rfl) hrec).mpr ?_
  intro hc
  exact absurd hc.1 (by decide)

/-- under the strict policy it ends at `0x10D0` although the image has `0x2000` bytes -/
theorem plainImage_record_short :
    (peCoffInitializeContext strictPcd .x64 .userImage plainImage []).1 = .ok plainContext ∧
    ∃ record, uefiImageLoaderGetImageRecordPe true strictPcd plainImage plainContext 0x3000 =
      some record ∧ total record.segments = 0x10D0 ∧
      ¬ RecordTiles strictPcd plainImage plainContext record := by
  refine ⟨plainImage_strict_run, _, rfl, by decide +kernel, fun ht => ?_⟩
  have hsum := ht.tiles.sum
  revert hsum
  decide +kernel

end Audk.PeCoff
