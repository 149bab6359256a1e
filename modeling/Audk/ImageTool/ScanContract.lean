import Audk.ImageTool.UeScan
import Audk.Ue.Accesses

/-!
# The two decoders of UE relocation tables

`UeRelocateImage` and the scan of `ImageTool` go through the same table.  The loader takes the image for one piece, and
for an XIP image as larger than its segments by the size of the headers.  The tool wants every link of a chain in one
segment, and every other fixup in front of the end of the last one.

* `rootStep_follows`: the tool follows the loader as long as the fixups are `Good`;
* `ueRelocateImage_scan_iff`: accesses, termination, and when both find the same fixups.
-/

namespace Audk.ImageTool

open Bytes Prog Arith Ue List Nat

/-! ## segments -/

def InSegment (f : File) (target width : Nat) : Prop :=
  ∃ i, i < numSegments f ∧ segmentAddress f i ≤ target ∧ target + width ≤ segmentAddress f (i+1)

section
variable {f : File} {address : Nat}

lemma scanSegments_eq {n : Nat} (hlt : segmentAddress f n < 2^32) {k : Nat} (hk : k ≤ n) :
    scanSegments f k =
      (segmentAddress f k, (List.range k).map fun i => ⟨segmentAddress f i, (segmentAt f i).size⟩) := by
  induction k with
  | zero => rfl
  | succ k ih =>
    have hmono := segmentAddress_mono f hk
    have hadd : add32 (segmentAddress f k) (segmentAt f k).size = segmentAddress f (k+1) := by
      refine add32_eq ?_
      show segmentAddress f (k+1) < 2^32
      omega
    rw [scanSegments, ih (by omega), range_succ, map_append]
    show (add32 (segmentAddress f k) (segmentAt f k).size, _) = _
    rw [hadd]
    rfl

lemma getSegment_some {segments : List ToolSegment} {s : ToolSegment} {o r : Nat}
    (h : imageGetSegmentByAddress address segments = some (s, o, r)) :
    s ∈ segments ∧ s.imageAddress ≤ address ∧ address < add32 s.imageAddress s.imageSize ∧
      o = sub32 address s.imageAddress ∧ r = sub32 s.imageSize (sub32 address s.imageAddress) := by
  induction segments with
  | nil => cases h
  | cons a segments ih =>
    rw [imageGetSegmentByAddress] at h
    by_cases hc : a.imageAddress ≤ address ∧ address < add32 a.imageAddress a.imageSize
    · rw [if_pos hc] at h
      cases h
      exact ⟨mem_cons_self, hc.1, hc.2, rfl, rfl⟩
    · rw [if_neg hc] at h
      obtain ⟨hmem, hrest⟩ := ih h
      exact ⟨mem_cons_of_mem _ hmem, hrest⟩

lemma getSegment_none {segments : List ToolSegment} (h : imageGetSegmentByAddress address segments = none)
    {s : ToolSegment} (hs : s ∈ segments) :
    ¬ (s.imageAddress ≤ address ∧ address < add32 s.imageAddress s.imageSize) := by
  induction segments with
  | nil => exact absurd hs not_mem_nil
  | cons a segments ih =>
    rw [imageGetSegmentByAddress] at h
    by_cases hc : a.imageAddress ≤ address ∧ address < add32 a.imageAddress a.imageSize
    · rw [if_pos hc] at h
      cases h
    · rw [if_neg hc] at h
      rcases mem_cons.mp hs with rfl | hs
      · exact hc
      · exact ih h hs

structure SegmentsOf (f : File) (segments : List ToolSegment) : Prop where
  address_lt : segmentAddress f (numSegments f) < 2^32
  mem : ∀ s, s ∈ segments ↔ ∃ i, i < numSegments f ∧ s = ⟨segmentAddress f i, (segmentAt f i).size⟩
  segmentsEnd : segmentsEnd segments = segmentAddress f (numSegments f)

lemma segmentsOf_scan {ctx : UeContext} {w : Bool} (h : Initialized f ctx w) :
    SegmentsOf f (scanUeGetSegmentInfo f ctx) := by
  have hn : ctx.lastSegmentIndex + 1 = numSegments f := by
    rw [h.lastIndex]
    rfl
  have hlt := h.address_lt
  unfold scanUeGetSegmentInfo
  rw [hn, scanSegments_eq hlt le_rfl]
  refine ⟨hlt, fun s => ?_, ?_⟩
  · rw [mem_map]
    simp only [mem_range]
    constructor
    · rintro ⟨i, hi, rfl⟩
      exact ⟨i, hi, rfl⟩
    · rintro ⟨i, hi, rfl⟩
      exact ⟨i, hi, rfl⟩
  · have hlast : ∀ k, segmentAddress f (k+1) < 2^32 → segmentsEnd ((List.range (k+1)).map fun i =>
        (⟨segmentAddress f i, (segmentAt f i).size⟩ : ToolSegment)) = segmentAddress f (k+1) := by
      intro k hk
      unfold segmentsEnd
      rw [range_succ, map_append, map_singleton, List.getLast?_concat]
      exact add32_eq hk
    exact hlast _ hlt

lemma SegmentsOf.lookup {segments : List ToolSegment} (h : SegmentsOf f segments) (address : Nat) :
    (∃ s o r i, imageGetSegmentByAddress address segments = some (s, o, r) ∧ s.imageAddress + o = address ∧
        i < numSegments f ∧ segmentAddress f i ≤ address ∧ address < segmentAddress f (i+1) ∧
        r = segmentAddress f (i+1) - address) ∨
      (imageGetSegmentByAddress address segments = none ∧ ∀ width, 0 < width → ¬ InSegment f address width) := by
  have hend : ∀ i, i < numSegments f → segmentAddress f i + (segmentAt f i).size = segmentAddress f (i+1) ∧
      segmentAddress f (i+1) < 2^32 := by
    intro i hi
    exact ⟨rfl, lt_of_le_of_lt (segmentAddress_mono f hi) h.address_lt⟩
  cases hget : imageGetSegmentByAddress address segments with
  | none =>
    refine .inr ⟨rfl, ?_⟩
    rintro width hw ⟨i, hi, hlo, hhi⟩
    obtain ⟨hsum, hlt⟩ := hend i hi
    refine getSegment_none hget ((h.mem _).mpr ⟨i, hi, rfl⟩) ⟨hlo, ?_⟩
    show address < add32 (segmentAddress f i) (segmentAt f i).size
    rw [add32_eq (by omega)]
    omega
  | some x =>
    obtain ⟨s, o, r⟩ := x
    obtain ⟨hs, hlo, hhi, rfl, rfl⟩ := getSegment_some hget
    obtain ⟨i, hi, rfl⟩ := (h.mem s).mp hs
    obtain ⟨hsum, hlt⟩ := hend i hi
    have hhi' : address < add32 (segmentAddress f i) (segmentAt f i).size := hhi
    have hlo' : segmentAddress f i ≤ address := hlo
    rw [add32_eq (by omega)] at hhi'
    have hsub : sub32 address (segmentAddress f i) = address - segmentAddress f i := sub32_eq hlo' (by omega)
    refine .inl ⟨_, _, _, i, rfl, ?_, hi, hlo', by omega, ?_⟩
    · show segmentAddress f i + sub32 address (segmentAddress f i) = address
      rw [hsub]
      omega
    · show sub32 (segmentAt f i).size (sub32 address (segmentAddress f i)) = _
      rw [hsub, sub32_eq (by omega) (by omega)]
      omega

lemma inSegment_iff {i : Nat} (width : Nat) (hi : i < numSegments f) (hlo : segmentAddress f i ≤ address)
    (hhi : address < segmentAddress f (i+1)) :
    InSegment f address width ↔ address + width ≤ segmentAddress f (i+1) := by
  constructor
  · rintro ⟨j, hj, hlo', hhi'⟩
    rcases lt_trichotomy i j with hij | rfl | hij
    · have := segmentAddress_mono f (show i + 1 ≤ j from hij)
      omega
    · exact hhi'
    · have := segmentAddress_mono f (show j + 1 ≤ i from hij)
      omega
  · intro h
    exact ⟨i, hi, hlo, h⟩

/-! ## the buffer -/

def relocLimit : Nat := 2^29 - 2^9

structure BufferOk (b : DynamicBuffer ToolReloc) : Prop where
  data : b.dataSize = 8 * b.memory.length
  fits : b.dataSize ≤ b.allocatedSize
  aligned : 2^12 ∣ b.allocatedSize
  lt : b.allocatedSize < 2^32

lemma bufferOk_init : BufferOk .init := ⟨rfl, le_rfl, dvd_zero _, by norm_num [DynamicBuffer.init]⟩

variable {b : DynamicBuffer ToolReloc} {r : ToolReloc}

lemma expand_full {size grow : Nat} (hup : baseOverflowAlignUpU32 size imageToolDynamicBufferGrowth = (false, grow))
    (h : sub32 b.allocatedSize b.dataSize < size) : (grow + b.allocatedSize < 2^32 → imageToolBufferExpand b size =
      (b.dataSize, { b with allocatedSize := grow + b.allocatedSize, dataSize := add32 b.dataSize size })) ∧
    (¬ grow + b.allocatedSize < 2^32 → imageToolBufferExpand b size = (maxUint32, b)) := by
  unfold imageToolBufferExpand
  rw [if_pos h, hup]
  rcases hp : baseOverflowAddU32 grow b.allocatedSize with ⟨ov, n⟩
  have hfst : ov = (baseOverflowAddU32 grow b.allocatedSize).1 := by rw [hp]
  have hsnd : n = (baseOverflowAddU32 grow b.allocatedSize).2 := by rw [hp]
  constructor
  · intro hsum
    rw [baseOverflowAddU32_fst.mpr hsum] at hfst
    rw [baseOverflowAddU32_snd (baseOverflowAddU32_fst.mpr hsum)] at hsnd
    subst hfst hsnd
    simp only [hp]
  · intro hsum
    cases ov with
    | true => simp only [hp]
    | false => exact absurd (baseOverflowAddU32_fst.mp hfst.symm) hsum

lemma growth_eq : baseOverflowAlignUpU32 8 imageToolDynamicBufferGrowth = (false, 2^12) := by
  have hpow : isPow2 imageToolDynamicBufferGrowth := isPow2_iff.mpr ⟨12, rfl⟩
  have hgrow : imageToolDynamicBufferGrowth = 2^12 := rfl
  have hup : (baseOverflowAlignUpU32 8 imageToolDynamicBufferGrowth).1 = false :=
    (alignUp_fst hpow (by rw [hgrow]; norm_num)).mpr (by rw [hgrow]; norm_num)
  have hround : roundUp 8 (2^12) = 2^12 := by norm_num [roundUp]
  have hup' : (baseOverflowAlignUpU32 8 imageToolDynamicBufferGrowth).2 = 2^12 :=
    (alignUp_ok hpow (by rw [hgrow]; norm_num) hup).trans hround
  rw [← hup, ← hup']

variable {chaining : Bool} {b' : DynamicBuffer ToolReloc} {u u' : TableState} {c : ChainState} {table : RelocTable}

lemma append_of_expand {size offset : Nat}
    (h : imageToolBufferExpand b size = (offset, b')) : imageToolBufferAppend b r size =
      if offset ≠ maxUint32 then (offset, { b' with memory := b'.memory ++ [r] }) else (offset, b') := by
  unfold imageToolBufferAppend appendExpanded
  rw [h]

lemma append_cases (h : BufferOk b) :
    (b.memory.length < relocLimit ∧ ∃ b', imageToolBufferAppend b r 8 = (b.dataSize, b') ∧ BufferOk b' ∧
      b'.memory = b.memory ++ [r]) ∨
    (¬ b.memory.length < relocLimit ∧ imageToolBufferAppend b r 8 = (maxUint32, b)) := by
  obtain ⟨hdata, hfits, haligned, hlt⟩ := h
  have hlimit : relocLimit = 2^29 - 2^9 := rfl
  have hmax := maxUint32_eq
  have hne : b.dataSize ≠ maxUint32 := by omega
  have hsub := sub32_eq hfits hlt
  have hlen : 8 * (b.memory ++ [r]).length = b.dataSize + 8 := by
    rw [length_append, length_singleton]
    omega
  by_cases hroom : sub32 b.allocatedSize b.dataSize < 8
  · have hexp := expand_full growth_eq hroom
    rw [hsub] at hroom
    by_cases hsum : 2^12 + b.allocatedSize < 2^32
    · replace hexp := hexp.1 hsum
      have hadd : add32 b.dataSize 8 = b.dataSize + 8 := add32_eq (by omega)
      rw [append_of_expand hexp, if_pos hne]
      refine .inl ⟨by omega, _, rfl, ⟨?_, ?_, ?_, hsum⟩, rfl⟩
      · exact hadd.trans hlen.symm
      · show add32 b.dataSize 8 ≤ 2^12 + b.allocatedSize
        omega
      · exact (Nat.dvd_add_right (dvd_refl _)).mpr haligned
    · replace hexp := hexp.2 hsum
      rw [append_of_expand hexp, if_neg fun hc => hc rfl]
      exact .inr ⟨by omega, rfl⟩
  · have hexp : imageToolBufferExpand b 8 = (b.dataSize, { b with dataSize := add32 b.dataSize 8 }) := by
      unfold imageToolBufferExpand
      rw [if_neg hroom]
    rw [hsub] at hroom
    have hadd : add32 b.dataSize 8 = b.dataSize + 8 := add32_eq (by omega)
    rw [append_of_expand hexp, if_pos hne]
    refine .inl ⟨by omega, _, rfl, ⟨?_, ?_, haligned, hlt⟩, rfl⟩
    · exact hadd.trans hlen.symm
    · show add32 b.dataSize 8 ≤ b.allocatedSize
      omega

lemma appendReloc_spec {t : ScanState} (h : BufferOk t.buffer) {Q : Unit → ScanState → Prop}
    {E : Status → ScanState → Prop} (hfull : ¬ t.buffer.memory.length < relocLimit → ∀ e t', E e t')
    (hok : t.buffer.memory.length < relocLimit → ∀ b', BufferOk b' → b'.memory = t.buffer.memory ++ [r] →
      Q () { t with buffer := b' }) : wp (appendReloc r) Q E t := by
  have h8 : sizeofToolReloc = 8 := rfl
  have hmax := maxUint32_eq
  have hlimit : relocLimit = 2^29 - 2^9 := rfl
  unfold appendReloc
  rw [wp_bind, wp_gets, wp_bind, wp_modify, wp_stopIf, h8]
  rcases append_cases h with ⟨hlen, b', happ, hb', hmem⟩ | ⟨hlen, happ⟩
  · rw [happ]
    refine ⟨fun hc => absurd hc ?_, fun _ => hok hlen b' hb' hmem⟩
    have hdata := h.data
    show t.buffer.dataSize ≠ maxUint32
    omega
  · rw [happ]
    exact ⟨fun _ => hfull hlen _ _, fun hc => absurd rfl hc⟩

/-! ## the fixups that the tool lists -/

/-- a link of a chain has to lie in a segment, another fixup in front of the end of the last one -/
def ToolAccepts (f : File) (x : Nat × Nat) : Prop :=
  if ueHeaderChainedFixups f = true ∧ x.1 ≠ ueReloc32NoMeta then InSegment f x.2 (spotWidth x)
  else x.2 + spotWidth x ≤ segmentAddress f (numSegments f)

/-- the tool can list the fixups -/
structure Good (f : File) (xs : List (Nat × Nat)) : Prop where
  accepted : ∀ x ∈ xs, ToolAccepts f x
  few : xs.length ≤ relocLimit

def toolReloc (x : Nat × Nat) : ToolReloc := ⟨toolRelocType x.1, x.2⟩

variable {xs : List (Nat × Nat)} {x : Nat × Nat}

lemma Good.concat (h : Good f xs) (hx : ToolAccepts f x) (hlen : xs.length < relocLimit) : Good f (xs ++ [x]) := by
  refine ⟨forall_mem_concat h.accepted hx, ?_⟩
  rw [length_append]
  exact hlen

lemma Good.of_concat (h : Good f (xs ++ [x])) : Good f xs ∧ ToolAccepts f x ∧ xs.length < relocLimit := by
  have hlen := h.few
  rw [length_append] at hlen
  exact ⟨⟨fun y hy => h.accepted y (mem_append_left _ hy), le_trans (le_succ _) hlen⟩,
    h.accepted x (mem_append_right _ (mem_singleton_self x)), hlen⟩

lemma not_good_concat (xs : List (Nat × Nat)) (x : Nat × Nat) (h : ¬ Good f xs) : ¬ Good f (xs ++ [x]) :=
  fun hc => h hc.of_concat.1

/-! ## one fixup in the tool -/

variable {segments : List ToolSegment} {t : ScanState} {E : Status → ScanState → Prop}

lemma chainStep_spec (hs : SegmentsOf f segments) {l : Link}
    (hl : link t.data c.relocType c.relocTarget = some l) (hb : BufferOk t.buffer) {Q : ChainState → ScanState → Prop}
    (hout : ¬ InSegment f c.relocTarget l.width → ∀ e t', E e t')
    (hfull : ¬ t.buffer.memory.length < relocLimit → ∀ e t', E e t')
    (hok : InSegment f c.relocTarget l.width → t.buffer.memory.length < relocLimit → ∀ b', BufferOk b' →
      b'.memory = t.buffer.memory ++ [toolReloc (c.relocType, c.relocTarget)] →
      Q (if l.nextOffset = ueFixupOffsetEnd then ⟨c.relocType, add32 c.relocTarget l.width, true⟩
          else ⟨l.nextType, add32 (add32 c.relocTarget l.width) l.nextOffset, false⟩)
        ⟨put t.data c.relocTarget l.width l.value, b'⟩) :
    wp (chainStep segments c) Q E t := by
  obtain ⟨hlw, hrw, -, -⟩ := link_spec hl
  have hpos : 0 < l.width := by
    rcases relocWidth_cases hrw with h | h <;> omega
  unfold chainStep
  rcases hs.lookup c.relocTarget with ⟨s, o, r, i, hget, hplace, hi, hlo, hhi, hr⟩ | ⟨hget, hno⟩
  · rw [hget]
    show wp (stopIf _ _ >>= _) _ _ t
    refine wp_stopIf_bind (fun hc => ?_) fun _ => ?_
    · have hnone : link t.data c.relocType c.relocTarget = none := by
        unfold link
        rw [if_neg hc.1, if_neg hc.2]
      rw [hnone] at hl
      cases hl
    rw [wp_bind, wp_stopIf, ← hlw, hr]
    have hiff := inSegment_iff l.width hi hlo hhi
    refine ⟨fun hc => hout (fun hin => ?_) _ _, fun hc => ?_⟩
    · have := hiff.mp hin
      omega
    have hin : InSegment f c.relocTarget l.width := hiff.mpr (by omega)
    rw [wp_bind, wp_gets, hplace, hl]
    show wp (modify _ >>= _) _ _ t
    rw [wp_bind, wp_modify, wp_bind]
    refine appendReloc_spec (t := ⟨put t.data c.relocTarget l.width l.value, t.buffer⟩) hb hfull
      fun hlen b' hb' hmem => ?_
    have hQ := hok hin hlen b' hb' hmem
    rw [wp_ite]
    refine ⟨fun hend => ?_, fun hend => ?_⟩
    · rw [if_pos hend] at hQ
      exact hQ
    · rw [if_neg hend] at hQ
      exact hQ
  · rw [hget]
    exact hout (hno _ hpos) _ _

lemma internalApplyRelocation_spec (hs : SegmentsOf f segments) {type target width : Nat}
    (hw : relocWidth type = some width) (hlt : target + width < 2^32) (hb : BufferOk t.buffer)
    {Q : Nat → ScanState → Prop} (hout : ¬ target + width ≤ segmentAddress f (numSegments f) → ∀ e t', E e t')
    (hfull : ¬ t.buffer.memory.length < relocLimit → ∀ e t', E e t')
    (hok : target + width ≤ segmentAddress f (numSegments f) → t.buffer.memory.length < relocLimit → ∀ b',
      BufferOk b' → b'.memory = t.buffer.memory ++ [toolReloc (type, target)] →
      Q (target + width) { t with buffer := b' }) :
    wp (internalApplyRelocation segments type target) Q E t := by
  have hlt' := hs.address_lt
  unfold internalApplyRelocation
  rw [hs.segmentsEnd, wp_bind, wp_stopIf, hw]
  refine ⟨fun hc => hout (fun hle => ?_) _ _, fun hov => ?_⟩
  · rw [baseOverflowSubU32_fst.mpr (by omega)] at hc
    exact Bool.noConfusion hc
  have hov' : (baseOverflowSubU32 (segmentAddress f (numSegments f)) target).1 = false := by simpa using hov
  have hle := baseOverflowSubU32_fst.mp hov'
  show wp (stopIf _ _ >>= _) _ _ t
  rw [baseOverflowSubU32_snd hlt' hov', wp_bind, wp_stopIf]
  refine ⟨fun hc => hout (by omega) _ _, fun hc => ?_⟩
  rw [wp_bind]
  refine appendReloc_spec hb hfull fun hlen b' hb' hmem => ?_
  rw [wp_pure, add32_eq hlt]
  exact hok (by omega) hlen b' hb' hmem

/-! ## both decoders -/

/-- the loader and the tool at the same target; the tool does not relocate what it writes back -/
structure ScanRel (f : File) (target : Nat) (s : TracedState) (t : ScanState) : Prop where
  data : ∀ hi, SameOn s.reloc.image t.data target hi
  buffer : BufferOk t.buffer
  relocs : t.buffer.memory = s.trace.fixups.map toolReloc
  good : Good f s.trace.fixups

/-- the loader has visited a fixup that the tool does not list -/
def Refused (f : File) (s : TracedState) : Prop := ¬ Good f s.trace.fixups

variable {imageSize adjust target : Nat} {s : TracedState}

lemma ScanRel.move (h : ScanRel f target s t) {u : Nat} (hu : target ≤ u) : ScanRel f u s t :=
  { h with data := fun hi => (h.data hi).mono hu le_rfl }

lemma ScanRel.length (h : ScanRel f target s t) : t.buffer.memory.length = s.trace.fixups.length := by
  rw [h.relocs, length_map]

lemma ScanRel.concat (h : ScanRel f target s t) {type w : Nat} {s' : TracedState}
    (hx : ToolAccepts f (type, target)) (hlen : t.buffer.memory.length < relocLimit) (hb : BufferOk b')
    (hmem : b'.memory = t.buffer.memory ++ [toolReloc (type, target)])
    (himg : ∀ hi, SameOn s'.reloc.image s.reloc.image (target + w) hi)
    {data : Mem} (hdata : ∀ hi, SameOn t.data data (target + w) hi)
    (hfix : s'.trace.fixups = s.trace.fixups ++ [(type, target)]) : ScanRel f (target + w) s' ⟨data, b'⟩ where
  data hi := ((himg hi).trans ((h.data hi).mono (le_add_right _ _) le_rfl)).trans (hdata hi)
  buffer := hb
  relocs := by
    show b'.memory = _
    rw [hmem, h.relocs, hfix, map_append]
    rfl
  good := by
    rw [hfix]
    exact h.good.concat hx (h.length ▸ hlen)

lemma follows_onReloc_gets {α β γ : Type} {g : RelocState → γ} {k : γ → TracedReloc α} {y : Scan β}
    {Q : α → β → TracedState → ScanState → Prop} {Bad : TracedState → Prop}
    (h : Follows (k (g s.reloc)) y Q Bad s t) : Follows (onReloc (gets g) >>= k) y Q Bad s t := h

lemma follows_onReloc_modify {α β : Type} {g : RelocState → RelocState} {k : Unit → TracedReloc α} {y : Scan β}
    {Q : α → β → TracedState → ScanState → Prop} {Bad : TracedState → Prop}
    (h : Follows (k ()) y Q Bad { s with reloc := g s.reloc } t) :
    Follows (onReloc (modify g) >>= k) y Q Bad s t := h

lemma follows_onReloc_unchain {α β : Type} {update : RuntimeContext → RuntimeContext} {k : Unit → TracedReloc α}
    {y : Scan β} {Q : α → β → TracedState → ScanState → Prop} {Bad : TracedState → Prop}
    (h : ∀ context, Follows (k ()) y Q Bad { s with reloc := ⟨s.reloc.image, context⟩ } t) :
    Follows (onReloc (unchainReloc false update) >>= k) y Q Bad s t := h _

lemma spotWidth_eq {type width : Nat} (hw : relocWidth type = some width) (target : Nat) :
    spotWidth (type, target) = width := by
  show (relocWidth type).getD 0 = width
  rw [hw]
  rfl

lemma chainStep_follows (hs : SegmentsOf f segments) (himage : imageSize + 2^12 ≤ 2^32)
    (hchain : ueHeaderChainedFixups f = true) (h : ScanRel f c.relocTarget s t) :
    Follows (tracedChainStep imageSize adjust c) (chainStep segments c)
      (fun c c' s t => c = c' ∧ (c.finished = true → c.relocTarget ≤ imageSize) ∧ ScanRel f c.relocTarget s t)
      (Refused f) s t := by
  unfold tracedChainStep
  refine follows_stopIf fun hov => follows_stopIf fun htype => follows_stopIf fun hrem => follows_modify
    (follows_modify (follows_onReloc_gets ?_))
  have hov' : (baseOverflowSubU32 imageSize c.relocTarget).1 = false := by simpa using hov
  have hle := baseOverflowSubU32_fst.mp hov'
  rw [baseOverflowSubU32_snd (by omega) hov'] at hrem
  dsimp only
  cases hl : link s.reloc.image c.relocType c.relocTarget with
  | none => exact follows_fail _ _
  | some l =>
    obtain ⟨hlw, hrw, hoff, -⟩ := link_spec hl
    have hl' : link t.data c.relocType c.relocTarget = some l := (link_congr (h.data _)).symm.trans hl
    have hfits : c.relocTarget + l.width ≤ imageSize := by omega
    have hadd : add32 c.relocTarget l.width = c.relocTarget + l.width := add32_eq (by omega)
    have hnometa : c.relocType ≠ ueReloc32NoMeta := by
      intro hc
      rw [hc] at htype
      exact htype ⟨by decide, by decide⟩
    have haccepts : ToolAccepts f (c.relocType, c.relocTarget) ↔ InSegment f c.relocTarget l.width := by
      unfold ToolAccepts
      rw [if_pos ⟨hchain, hnometa⟩, spotWidth_eq hrw]
    refine follows_modify (follows_onReloc_modify (follows_onReloc_unchain fun context => follows_modify ?_))
    rw [hadd]
    have hrel : ∀ (s' : TracedState) (b' : DynamicBuffer ToolReloc), InSegment f c.relocTarget l.width →
        t.buffer.memory.length < relocLimit → BufferOk b' →
        b'.memory = t.buffer.memory ++ [toolReloc (c.relocType, c.relocTarget)] →
        s'.reloc.image = put s.reloc.image c.relocTarget l.width ((l.value + adjust) % 256^l.width) →
        s'.trace.fixups = s.trace.fixups ++ [(c.relocType, c.relocTarget)] →
        ScanRel f (c.relocTarget + l.width) s' ⟨put t.data c.relocTarget l.width l.value, b'⟩ := by
      intro s' b' hin hlen hb' hmem himg hfix
      refine h.concat (haccepts.mpr hin) hlen hb' hmem (fun hi => ?_) (fun hi => ?_) hfix
      · rw [himg]
        exact sameOn_put (.inr le_rfl)
      · exact (sameOn_put (.inr le_rfl)).symm
    have hout : ∀ s' : TracedState, s'.trace.fixups = s.trace.fixups ++ [(c.relocType, c.relocTarget)] →
        ¬ InSegment f c.relocTarget l.width ∨ ¬ t.buffer.memory.length < relocLimit → Refused f s' := by
      intro s' hfix hno hgood
      rw [hfix] at hgood
      obtain ⟨-, hx, hlen⟩ := hgood.of_concat
      rcases hno with hno | hno
      · exact hno (haccepts.mp hx)
      · exact hno (h.length ▸ hlen)
    by_cases hend : l.nextOffset = ueFixupOffsetEnd
    · rw [if_pos hend]
      refine follows_pure (chainStep_spec hs hl' h.buffer (fun hno _ _ => hout _ rfl (.inl hno))
        (fun hno _ _ => hout _ rfl (.inr hno)) fun hin hlen b' hb' hmem => ?_)
      rw [if_pos hend, hadd]
      exact ⟨rfl, fun _ => hfits, hrel _ _ hin hlen hb' hmem rfl rfl⟩
    · rw [if_neg hend]
      refine follows_modify (follows_pure (chainStep_spec hs hl' h.buffer (fun hno _ _ => hout _ rfl (.inl hno))
        (fun hno _ _ => hout _ rfl (.inr hno)) fun hin hlen b' hb' hmem => ?_))
      have hnext : add32 (c.relocTarget + l.width) l.nextOffset = c.relocTarget + l.width + l.nextOffset :=
        add32_eq (by omega)
      rw [if_neg hend, hadd, hnext]
      exact ⟨rfl, fun hc => Bool.noConfusion hc, (hrel _ _ hin hlen hb' hmem rfl rfl).move (le_add_right _ _)⟩

lemma tracedChainStep_refused (c : ChainState) (h : Refused f s) :
    wp (tracedChainStep imageSize adjust c) (fun _ => Refused f) (fun _ _ => True) s :=
  tracedChainStep_keeps (P := fun xs => ¬ Good f xs) not_good_concat c h

lemma relocChain_follows (hs : SegmentsOf f segments) (himage : imageSize + 2^12 ≤ 2^32)
    (hchain : ueHeaderChainedFixups f = true) {type bound : Nat} (hbound : imageSize ≤ bound)
    (h : ScanRel f target s t) :
    Follows (tracedRelocChain imageSize type target adjust) (internalProcessRelocChain segments bound type target)
      (fun u u' s t => u = u' ∧ u ≤ imageSize ∧ ScanRel f u s t) (Refused f) s t := by
  unfold tracedRelocChain internalProcessRelocChain
  refine follows_bind (follows_repeatWhile
    (fun c c' s t => c = c' ∧ (c.finished = true → c.relocTarget ≤ imageSize) ∧ ScanRel f c.relocTarget s t)
    (fun c c' s t hc => by rw [hc.1]) (fun c c' s t hc _ => ?_) (fun c s hc => tracedChainStep_refused c hc)
    (Nat.add_le_add_right hbound 2) ⟨rfl, fun hc => Bool.noConfusion hc, h⟩) (fun c c' s t hc => ?_)
    (fun c s hc => (wp_pure _).mpr hc)
  · obtain ⟨rfl, -, hrel⟩ := hc
    exact chainStep_follows hs himage hchain hrel
  · obtain ⟨⟨rfl, hle, hrel⟩, hfin⟩ := hc
    exact follows_pure ((wp_pure _).mpr ⟨rfl, hle (by simpa using hfin), hrel⟩)

lemma applyRelocation_follows (hs : SegmentsOf f segments) (himage : imageSize + 2^12 ≤ 2^32) {type data : Nat}
    (hplain : ¬ (ueHeaderChainedFixups f = true ∧ type ≠ ueReloc32NoMeta)) (h : ScanRel f target s t) :
    Follows (tracedApplyRelocation imageSize type target adjust data) (internalApplyRelocation segments type target)
      (fun r u s t => r.1 = u ∧ u ≤ imageSize ∧ ScanRel f u s t) (Refused f) s t := by
  unfold tracedApplyRelocation
  refine follows_stopIf fun hov => ?_
  have hov' : (baseOverflowSubU32 imageSize target).1 = false := by simpa using hov
  have hle := baseOverflowSubU32_fst.mp hov'
  rw [baseOverflowSubU32_snd (by omega) hov']
  cases hw : relocWidth type with
  | none => exact follows_fail _ _
  | some width =>
    refine follows_stopIf fun hrem => follows_modify (follows_modify (follows_onReloc_gets (follows_modify
      (follows_onReloc_modify (follows_modify ?_)))))
    have hfits : target + width ≤ imageSize := by omega
    have haccepts : ToolAccepts f (type, target) ↔ target + width ≤ segmentAddress f (numSegments f) := by
      unfold ToolAccepts
      rw [if_neg hplain, spotWidth_eq hw]
    have hout : ∀ s' : TracedState, s'.trace.fixups = s.trace.fixups ++ [(type, target)] →
        ¬ target + width ≤ segmentAddress f (numSegments f) ∨ ¬ t.buffer.memory.length < relocLimit →
        Refused f s' := by
      intro s' hfix hno hgood
      rw [hfix] at hgood
      obtain ⟨-, hx, hlen⟩ := hgood.of_concat
      rcases hno with hno | hno
      · exact hno (haccepts.mp hx)
      · exact hno (h.length ▸ hlen)
    have hadd : add32 target width = target + width := add32_eq (by omega)
    rw [hadd]
    refine follows_pure (internalApplyRelocation_spec hs hw (by omega) h.buffer
      (fun hno _ _ => hout _ rfl (.inl hno)) (fun hno _ _ => hout _ rfl (.inr hno)) fun hin hlen b' hb' hmem => ?_)
    exact ⟨rfl, hfits, h.concat (haccepts.mpr hin) hlen hb' hmem (fun hi => sameOn_put (.inr le_rfl))
      (fun hi => SameOn.refl _ _ _) rfl⟩

/-! ## the table -/

/-- the locals of both loops; the tool counts from the start of the file -/
structure SameLocals (start : Nat) (t t' : TableState) : Prop where
  offset : t'.tableOffset = start + t.tableOffset
  target : t'.relocTarget = t.relocTarget
  finished : t'.finished = t.finished

structure HeadRel (f : File) (start tableSize : Nat) (u u' : TableState) (s : TracedState) (t : ScanState) : Prop where
  same : SameLocals start u u'
  upper : u.tableOffset + (if u.finished = true then 0 else 2) ≤ tableSize
  rel : ScanRel f u.relocTarget s t

variable {ctx : UeContext} {bound : Nat}

lemma headFixups_follows (hs : SegmentsOf f segments) (himage : ctx.imageSize + 2^12 ≤ 2^32)
    (hbound : ctx.imageSize ≤ bound) {info start : Nat} (hsame : SameLocals start u u')
    (h : ScanRel f u.relocTarget s t) :
    Follows (tracedHeadFixups ctx.imageSize (ueHeaderChainedFixups f) adjust info u)
      (headFixups segments bound (ueHeaderChainedFixups f) info u')
      (fun v v' s t => SameLocals start v v' ∧ v.tableOffset = u.tableOffset ∧ v.finished = u.finished ∧
        v.relocTarget ≤ ctx.imageSize ∧ ScanRel f v.relocTarget s t) (Refused f) s t := by
  unfold tracedHeadFixups headFixups
  rw [hsame.target]
  by_cases hc : ueHeaderChainedFixups f = true ∧ info % 2^4 ≠ ueReloc32NoMeta
  · rw [if_pos hc, if_pos hc]
    refine follows_bind (relocChain_follows hs himage hc.1 hbound h) (fun v v' s t hv => ?_)
      (fun v s hv => (wp_pure _).mpr hv)
    obtain ⟨rfl, hle, hrel⟩ := hv
    exact follows_pure ((wp_pure _).mpr ⟨⟨hsame.offset, rfl, hsame.finished⟩, rfl, rfl, hle, hrel⟩)
  · rw [if_neg hc, if_neg hc]
    refine follows_bind (applyRelocation_follows hs himage hc h) (fun r v s t hv => ?_) (fun r s hv => ?_)
    · obtain ⟨rfl, hle, hrel⟩ := hv
      refine follows_onReloc_unchain fun context => follows_pure ((wp_pure _).mpr ?_)
      exact ⟨⟨hsame.offset, rfl, hsame.finished⟩, rfl, rfl, hle, { hrel with }⟩
    · rw [wp_bind]
      exact wp_onReloc_unchain fun _ => hv

lemma tracedHeadStep_refused {imageSize : Nat} (u : TableState)
    (h : Refused f s) :
    wp (tracedHeadStep imageSize table chaining adjust u) (fun _ => Refused f) (fun _ _ => True) s :=
  tracedHeadStep_keeps (P := fun xs => ¬ Good f xs) not_good_concat u h

lemma headStep_follows (hs : SegmentsOf f segments) (himage : ctx.imageSize + 2^12 ≤ 2^32)
    (hbound : ctx.imageSize ≤ bound) (hlt : ctx.loadTablesFileOffset + ctx.relocTableSize < 2^32)
    (hfin : u.finished = false) (h : HeadRel f ctx.loadTablesFileOffset ctx.relocTableSize u u' s t) :
    Follows (tracedHeadStep ctx.imageSize (relocTable f ctx) (ueHeaderChainedFixups f) adjust u)
      (headStep f segments (ctx.loadTablesFileOffset + ctx.relocTableSize) bound (ueHeaderChainedFixups f) u')
      (HeadRel f ctx.loadTablesFileOffset ctx.relocTableSize) (Refused f) s t := by
  obtain ⟨hsame, hup, hrel⟩ := h
  rw [if_neg (by simp [hfin])] at hup
  have h2 : sizeofUeHead = 2 := rfl
  have hread : le f.bytes u'.tableOffset 2 = le (relocTable f ctx).bytes u.tableOffset 2 := by
    rw [hsame.offset]
    exact le_eq_of_bytes fun i hi => congrArg f.bytes (add_assoc _ _ _)
  have hoff : add32 u.tableOffset sizeofUeHead = u.tableOffset + 2 :=
    add32_eq (show u.tableOffset + 2 < 2^32 by omega)
  have hoff' : add32 u'.tableOffset sizeofUeHead = u'.tableOffset + 2 := by
    have := hsame.offset
    exact add32_eq (show u'.tableOffset + 2 < 2^32 by omega)
  have hinfo : le (relocTable f ctx).bytes u.tableOffset 2 < 2^16 := le_lt _ _ _
  unfold tracedHeadStep headStep
  rw [hread, hoff, hoff']
  generalize le (relocTable f ctx).bytes u.tableOffset 2 = info at hinfo
  have hsame' : SameLocals ctx.loadTablesFileOffset { u with tableOffset := u.tableOffset + 2 }
      { u' with tableOffset := u'.tableOffset + 2 } :=
    ⟨(congrArg (· + 2) hsame.offset).trans (add_assoc _ _ _), hsame.target, hsame.finished⟩
  refine follows_modify (follows_bind (headFixups_follows hs himage hbound hsame' { hrel with })
    (fun v v' s t hv => ?_) (fun v s hv => ?_))
  · obtain ⟨hsv, hov, hfv, hle, hrelv⟩ := hv
    have hov' : v.tableOffset = u.tableOffset + 2 := hov
    have hfv' : ¬ v.finished = true := by
      rw [hfv]
      simp [hfin]
    refine follows_onReloc_unchain fun context => ?_
    unfold tracedNextHead
    by_cases hend : info / 2^4 = ueFixupOffsetEnd
    · rw [if_pos hend, if_pos hend]
      refine follows_pure ((wp_pure _).mpr ⟨⟨hsv.offset, hsv.target, rfl⟩, ?_, { hrelv with }⟩)
      show v.tableOffset + 0 ≤ ctx.relocTableSize
      omega
    rw [if_neg hend, if_neg hend]
    have hmax : sub32 (ctx.loadTablesFileOffset + ctx.relocTableSize) sizeofUeHead =
        ctx.loadTablesFileOffset + (ctx.relocTableSize - 2) := by
      rw [h2, sub32_eq (by omega) hlt]
      omega
    have hmax' : sub32 (relocTable f ctx).size sizeofUeHead = ctx.relocTableSize - 2 :=
      sub32_eq (show 2 ≤ ctx.relocTableSize by omega) (show ctx.relocTableSize < 2^32 by omega)
    refine follows_modify (follows_stopIf_both (fun hc => ?_) fun hc => follows_pure ((wp_pure _).mpr ?_))
    · have := hsv.offset
      rw [hmax] at hc
      rw [hmax']
      omega
    · rw [hmax'] at hc
      have hadd : add32 v.relocTarget (info / 2^4) = v.relocTarget + info / 2^4 := add32_eq (by omega)
      rw [hsv.target, hadd]
      refine ⟨⟨hsv.offset, rfl, hsv.finished⟩, ?_, { hrelv.move (le_add_right _ (info / 2^4)) with }⟩
      show v.tableOffset + (if v.finished = true then 0 else 2) ≤ ctx.relocTableSize
      rw [if_neg hfv']
      omega
  · rw [wp_bind]
    refine wp_onReloc_unchain fun r => ?_
    unfold tracedNextHead
    rw [wp_ite]
    refine ⟨fun _ => hv, fun _ => ?_⟩
    rw [wp_bind, noteSum, wp_modify, wp_bind, wp_stopIf]
    exact ⟨fun _ => trivial, fun _ => hv⟩

structure RootRel (f : File) (start tableSize : Nat) (u u' : TableState) (s : TracedState) (t : ScanState) : Prop where
  same : SameLocals start u u'
  aligned : 4 ∣ u.tableOffset
  upper : u.tableOffset ≤ tableSize
  rel : ScanRel f u.relocTarget s t

lemma tracedRootStep_refused {imageSize : Nat} (u : TableState)
    (h : Refused f s) :
    wp (tracedRootStep table (tracedHeadStep imageSize table chaining adjust) u) (fun _ => Refused f)
      (fun _ _ => True) s :=
  tracedRootStep_keeps (P := fun xs => ¬ Good f xs) not_good_concat u h

lemma rootStep_follows (hs : SegmentsOf f segments) (himage : ctx.imageSize + 2^12 ≤ 2^32)
    (hbound : ctx.imageSize ≤ bound) (hstart : 4 ∣ ctx.loadTablesFileOffset) (h8 : 8 ∣ ctx.relocTableSize)
    (hlt : ctx.loadTablesFileOffset + ctx.relocTableSize < 2^32)
    (hin : u.tableOffset + 6 ≤ ctx.relocTableSize)
    (h : RootRel f ctx.loadTablesFileOffset ctx.relocTableSize u u' s t) : Follows (tracedRootStep (relocTable f ctx)
        (tracedHeadStep ctx.imageSize (relocTable f ctx) (ueHeaderChainedFixups f) adjust) u)
      (rootStep f (headStep f segments (ctx.loadTablesFileOffset + ctx.relocTableSize) bound (ueHeaderChainedFixups f))
        ctx.relocTableSize u')
      (RootRel f ctx.loadTablesFileOffset ctx.relocTableSize) (Refused f) s t := by
  obtain ⟨hsame, halign, hup, hrel⟩ := h
  have hoffset := hsame.offset
  have h4 : sizeofUeFixupRoot = 4 := rfl
  have hread : le f.bytes u'.tableOffset 4 = le (relocTable f ctx).bytes u.tableOffset 4 := by
    rw [hsame.offset]
    exact le_eq_of_bytes fun i hi => congrArg f.bytes (add_assoc _ _ _)
  have hoff : add32 u.tableOffset sizeofUeFixupRoot = u.tableOffset + 4 :=
    add32_eq (show u.tableOffset + 4 < 2^32 by omega)
  have hoff' : add32 u'.tableOffset sizeofUeFixupRoot = u'.tableOffset + 4 :=
    add32_eq (show u'.tableOffset + 4 < 2^32 by omega)
  unfold tracedRootStep rootStep
  rw [hread, hsame.target, hoff, hoff']
  refine follows_modify (follows_stopIf_both id fun hov => ?_)
  have hov' : (baseOverflowAddU32 u.relocTarget (le (relocTable f ctx).bytes u.tableOffset 4)).1 = false := by
    simpa using hov
  rw [baseOverflowAddU32_snd hov']
  generalize le (relocTable f ctx).bytes u.tableOffset 4 = first
  refine follows_modify (follows_onReloc_unchain fun context => ?_)
  have hsame' : SameLocals ctx.loadTablesFileOffset
      { u with tableOffset := u.tableOffset + 4, relocTarget := u.relocTarget + first, finished := false }
      { u' with tableOffset := u'.tableOffset + 4, relocTarget := u.relocTarget + first, finished := false } :=
    ⟨(congrArg (· + 4) hsame.offset).trans (add_assoc _ _ _), rfl, rfl⟩
  have hup' : u.tableOffset + 4 + 2 ≤ ctx.relocTableSize := by omega
  refine follows_bind (follows_repeatWhile (HeadRel f ctx.loadTablesFileOffset ctx.relocTableSize)
    (fun v v' s t hv => by rw [hv.same.finished])
    (fun v v' s t hv hfin => headStep_follows hs himage hbound hlt hfin hv)
    (fun v s hv => tracedHeadStep_refused v hv) le_rfl
    ⟨hsame', hup', { hrel.move (le_add_right _ first) with }⟩) (fun v v' s t hv => ?_)
    (fun v s hv => (wp_pure _).mpr hv)
  obtain ⟨⟨hsv, hupv, hrelv⟩, hfin⟩ := hv
  have hfin' : v.finished = true := by simpa using hfin
  rw [if_pos hfin', add_zero] at hupv
  have hround := le_roundUp v.tableOffset (show 0 < 4 by decide)
  have hle : roundUp v.tableOffset 4 ≤ ctx.relocTableSize := roundUp_le (by decide) (dvd_trans (by decide) h8) hupv
  have hround' : roundUp (ctx.loadTablesFileOffset + v.tableOffset) 4 = ctx.loadTablesFileOffset + roundUp v.tableOffset 4 :=
    roundUp_add _ (by decide) hstart
  have ha : alignValue v.tableOffset sizeofUeFixupRoot = roundUp v.tableOffset 4 :=
    alignValue_eq (by decide) (by decide) (by omega) (show roundUp v.tableOffset 4 < 2^32 by omega)
  have ha' : alignValue v'.tableOffset sizeofUeFixupRoot = ctx.loadTablesFileOffset + roundUp v.tableOffset 4 := by
    rw [hsv.offset, ← hround']
    refine alignValue_eq (by decide) (by decide) (by omega) ?_
    show roundUp (ctx.loadTablesFileOffset + v.tableOffset) 4 < 2^32
    omega
  refine follows_pure ((wp_pure _).mpr ?_)
  rw [ha, ha']
  exact ⟨⟨rfl, hsv.target, hsv.finished⟩, dvd_roundUp _ _, hle, hrelv⟩

/-! ## a scan lists something -/

/-- no memory has been allocated as long as the buffer is empty -/
def Listed (t : ScanState) : Prop := BufferOk t.buffer ∧ (t.buffer.memory = [] → t.buffer.allocatedSize = 0)

lemma appendReloc_listed {r : ToolReloc} (h : Listed t) :
    wp (appendReloc r) (fun _ => Listed) (fun _ _ => True) t := by
  refine appendReloc_spec h.1 (fun _ _ _ => trivial) fun _ b' hb' hmem => ⟨hb', fun hnil => ?_⟩
  have hnil' : b'.memory = [] := hnil
  rw [hmem] at hnil'
  exact absurd hnil' (append_ne_nil_of_right_ne_nil _ (cons_ne_nil _ _))

lemma chainStep_listed (h : Listed t) :
    wp (chainStep segments c) (fun _ => Listed) (fun _ _ => True) t := by
  unfold chainStep
  cases imageGetSegmentByAddress c.relocTarget segments with
  | none => exact trivial
  | some x =>
    obtain ⟨s, o, r⟩ := x
    show wp (stopIf _ _ >>= _) _ _ t
    refine wp_stopIf_bind (fun _ => trivial) fun _ => ?_
    refine wp_stopIf_bind (fun _ => trivial) fun _ => ?_
    rw [wp_bind, wp_gets]
    cases link t.data c.relocType (s.imageAddress + o) with
    | none => exact trivial
    | some l =>
      show wp (modify _ >>= _) _ _ t
      rw [wp_bind, wp_modify]
      refine wp_seq (appendReloc_listed (t := ⟨put t.data (s.imageAddress + o) l.width l.value, t.buffer⟩) h)
        (fun _ t' h' => ?_)
      rw [wp_ite]
      exact ⟨fun _ => h', fun _ => h'⟩

lemma headFixups_listed {bound info : Nat} {u : TableState} (h : Listed t) :
    wp (headFixups segments bound chaining info u) (fun _ => Listed) (fun _ _ => True) t := by
  unfold headFixups
  rw [wp_ite]
  refine ⟨fun _ => ?_, fun _ => ?_⟩
  · unfold internalProcessRelocChain
    rw [wp_bind, wp_bind]
    exact wp_post (wp_repeatWhile (fun _ => Listed) (fun c t h _ => chainStep_listed h) (fun _ => trivial) _ h)
      (fun _ _ h => h)
  · have happly : wp (internalApplyRelocation segments (info % 2^4) u.relocTarget) (fun _ => Listed)
        (fun _ _ => True) t := by
      unfold internalApplyRelocation
      refine wp_stopIf_bind (fun _ => trivial) fun _ => ?_
      cases relocWidth (info % 2^4) with
      | none => exact trivial
      | some width =>
        show wp (stopIf _ _ >>= _) _ _ t
        refine wp_stopIf_bind (fun _ => trivial) fun _ => ?_
        rw [wp_bind]
        exact wp_post (appendReloc_listed h) (fun _ _ h => h)
    rw [wp_bind]
    exact wp_post happly (fun _ _ h => h)

lemma rootStep_listed {endOfTable bound size : Nat} {u : TableState} (h : Listed t) :
    wp (rootStep f (headStep f segments endOfTable bound chaining) size u) (fun _ => Listed) (fun _ _ => True) t := by
  have hhead : ∀ (v : TableState) (t : ScanState), Listed t →
      wp (headStep f segments endOfTable bound chaining v) (fun _ => Listed) (fun _ _ => True) t := by
    intro v t h
    unfold headStep
    refine wp_seq (headFixups_listed h) (fun v' t' h' => ?_)
    rw [wp_ite]
    refine ⟨fun _ => h', fun _ => ?_⟩
    rw [wp_bind, wp_stopIf]
    exact ⟨fun _ => trivial, fun _ => h'⟩
  unfold rootStep
  refine wp_stopIf_bind (fun _ => trivial) fun _ => ?_
  rw [wp_bind]
  exact wp_post (wp_repeatWhile (fun _ => Listed) (fun v t h _ => hhead v t h) (fun _ => trivial) _ h)
    (fun _ _ h => h)

lemma scan_ne_nil {ctx : UeContext} (hpos : ctx.relocTableSize ≠ 0) (image : Mem) :
    listedRelocs f ctx image ≠ .ok [] := by
  have hscan : wp (scanUeGetRelocInfo f ctx (scanUeGetSegmentInfo f ctx)) (fun relocs _ => relocs ≠ [])
      (fun _ _ => True) ⟨image, .init⟩ := by
    unfold scanUeGetRelocInfo
    rw [if_neg hpos]
    refine wp_seq (wp_repeatWhile (fun _ => Listed) (fun u t h _ => rootStep_listed h) (fun _ => trivial) _
      ⟨bufferOk_init, fun _ => rfl⟩) (fun u t h => ?_)
    rw [wp_bind, wp_gets, wp_bind, wp_stopIf]
    exact ⟨fun _ => trivial, fun hne hnil => hne (h.2 hnil)⟩
  intro hnil
  unfold listedRelocs at hnil
  exact wp_ok hscan (Prod.ext hnil rfl) rfl

/-! ## the start of the load tables -/

lemma dvd_alignValue {v : Nat} (hv : v < 2^32) : 8 ∣ alignValue v 8 := by
  have hround : 8 ∣ v + alignValueAddend v 8 := by
    rw [add_alignValueAddend (by decide) (by decide) hv]
    exact dvd_roundUp _ _
  unfold alignValue add32
  omega

lemma loadTables_dvd {f : File} {ctx : UeContext} {w : Bool} (hrun : ueInitializeContext f false = (.ok ctx, w)) :
    8 ∣ ctx.loadTablesFileOffset := by
  have hsegments : ∀ (ctx : UeContext) (w : Bool), ctx.segmentsFileOffset < 2^32 →
      wp (internalVerifySegments f ctx) (fun ctx' _ => 8 ∣ ctx'.loadTablesFileOffset) (fun _ _ => True) w := by
    intro ctx w hoff
    unfold internalVerifySegments
    refine wp_seq (wp_loop _ (fun _ e _ => e.fileOffset < 2^32) 0 _ _ hoff fun j e w _ _ he => ?_) (fun e w he => ?_)
    · unfold verifySegment
      refine wp_stopIf_bind (fun _ => trivial) fun _ => ?_
      refine wp_stopIf_bind (fun _ => trivial) fun _ => ?_
      refine wp_stopIf_bind (fun _ => trivial) fun _ => ?_
      rw [wp_bind, wp_addU32, wp_pure]
      exact add32_lt _ _
    · have hdvd : 8 ∣ alignValue e.fileOffset ueLoadTableAlignment := dvd_alignValue he
      rw [wp_bind, wp_alignU32, wp_bind, wp_stopIf]
      refine ⟨fun _ => trivial, fun _ => ?_⟩
      rw [wp_ite]
      exact ⟨fun _ => hdvd, fun _ => hdvd⟩
  have hinit : wp (ueInitializeContext f) (fun ctx _ => 8 ∣ ctx.loadTablesFileOffset) (fun _ _ => True) false := by
    unfold ueInitializeContext ueInitializeContextPreHash
    rw [wp_bind, wp_bind, wp_stopIf]
    refine ⟨fun _ => trivial, fun _ => ?_⟩
    refine wp_stopIf_bind (fun _ => trivial) fun _ => ?_
    rw [wp_pure]
    unfold ueInitializeContextPostHash
    rw [wp_bind]
    refine postHashHeaderSize_spec rfl ?_
    refine wp_stopIf_bind (fun _ => trivial) fun hsize => ?_
    have hlt := f.size_lt
    have hsize' : ¬ f.size < headerSize f := hsize
    refine wp_stopIf_bind (fun _ => trivial) fun _ => ?_
    refine wp_seq (hsegments _ _ (show headerSize f < 2^32 by omega)) (fun ctx w h => ?_)
    unfold internalInitializeContextLate
    refine wp_stopIf_bind (fun _ => trivial) fun _ => ?_
    refine wp_post internalVerifyLoadTables_spec (fun ctx' w' h' => ?_)
    obtain ⟨-, -, size, rfl⟩ := h'
    exact h
  have hdvd := wp_ok hinit hrun
  exact hdvd

/-! ## the relocation and the scan -/

variable {w : Bool} {base fixupData : Nat}

lemma loadTables_add_lt (hinit : Initialized f ctx w) (hpos : ctx.relocTableSize ≠ 0) :
    ctx.loadTablesFileOffset + ctx.relocTableSize < 2^32 := by
  have hsize := f.size_lt
  have hend := hinit.tablesEnd
  have hfile := hinit.fileSize
  have hmono : ∀ n, 0 < n → loadTableOffset f ctx.loadTablesFileOffset 1 ≤
      loadTableOffset f ctx.loadTablesFileOffset n := by
    intro n hn
    induction n with
    | zero => exact absurd hn (lt_irrefl 0)
    | succ n ih =>
      rcases Nat.eq_zero_or_pos n with rfl | hn'
      · exact le_rfl
      · exact (ih hn').trans (le_add_right _ _)
  have hle := hmono _ (hinit.hasTable hpos)
  have hone : loadTableOffset f ctx.loadTablesFileOffset 1 =
    ctx.loadTablesFileOffset + ueLoadTableSize (loadTableAt f 0) := rfl
  rcases hinit.relocTable with h0 | h0
  · exact absurd h0 hpos
  · omega

lemma scan_follows (hrun : ueInitializeContext f false = (.ok ctx, w)) (hpos : ctx.relocTableSize ≠ 0)
    (adjust fixupData : Nat) (image : Mem) (context : Option RuntimeContext) :
    Follows (tracedRelocateRoots (relocTable f ctx)
        (tracedHeadStep ctx.imageSize (relocTable f ctx) (ueHeaderChainedFixups f) adjust) fixupData)
      (scanUeGetRelocInfo f ctx (scanUeGetSegmentInfo f ctx))
      (fun _ relocs s _ => relocs = s.trace.fixups.map toolReloc ∧ Good f s.trace.fixups) (Refused f)
      ⟨⟨image, context⟩, .empty⟩ ⟨image, .init⟩ := by
  have hinit := initialized_of_run hrun
  have hok := relocatable_of_run hrun
  have hs := segmentsOf_scan hinit
  have hlt := loadTables_add_lt hinit hpos
  have h8 := hok.table_dvd
  have hstart : 4 ∣ ctx.loadTablesFileOffset := dvd_trans (by decide) (loadTables_dvd hrun)
  have hmax : sub32 (relocTable f ctx).size minSizeOfUeFixupRoot = ctx.relocTableSize - 6 :=
    sub32_eq (show 6 ≤ ctx.relocTableSize by omega) hok.table_lt
  have hmax' : sub32 (ctx.loadTablesFileOffset + ctx.relocTableSize) minSizeOfUeFixupRoot =
      ctx.loadTablesFileOffset + (ctx.relocTableSize - 6) := by
    have h6 : minSizeOfUeFixupRoot = 6 := rfl
    rw [h6, sub32_eq (by omega) hlt]
    omega
  have h0 : RootRel f ctx.loadTablesFileOffset ctx.relocTableSize ⟨0, 0, fixupData, true⟩
      ⟨ctx.loadTablesFileOffset, 0, 0, true⟩ ⟨⟨image, context⟩, .empty⟩ ⟨image, .init⟩ := {
    same := ⟨rfl, rfl, rfl⟩
    aligned := dvd_zero 4
    upper := zero_le _
    rel := {
      data := fun hi => SameOn.refl _ _ _
      buffer := bufferOk_init
      relocs := rfl
      good := ⟨fun x hx => absurd hx not_mem_nil, zero_le _⟩ } }
  unfold tracedRelocateRoots scanUeGetRelocInfo
  rw [if_neg hpos, add32_eq hlt]
  -- behind the first root there is a fixup, and the tool has allocated memory
  refine follows_bind (follows_repeatWhile
    (fun u u' s t => RootRel f ctx.loadTablesFileOffset ctx.relocTableSize u u' s t ∧
      (u.tableOffset ≠ 0 → s.trace.fixups ≠ []))
    (fun u u' s t h => ?_) (fun u u' s t h hin => ?_) (fun u s h => tracedRootStep_refused u h) le_rfl
    ⟨h0, fun hne => absurd rfl hne⟩) (fun u u' s t h => ?_) (fun u s h => (wp_pure _).mpr h)
  · have hoff := h.1.same.offset
    rw [hmax, hmax']
    omega
  · rw [hmax] at hin
    refine follows_mono (follows_and
      (rootStep_follows hs hok.image (le_add_right _ _) hstart h8 hlt (by omega) h.1)
      (tracedRootStep_visits (P := fun xs => xs ≠ []) (fun xs x _ => ?_) u fun x => ?_))
      (fun a b s' t' h => ⟨h.1, fun _ => h.2⟩)
    · exact append_ne_nil_of_right_ne_nil xs (cons_ne_nil x [])
    · exact append_ne_nil_of_right_ne_nil _ (cons_ne_nil x [])
  · obtain ⟨⟨⟨hsame, -, -, hrel⟩, hne⟩, hend⟩ := h
    rw [hmax] at hend
    refine follows_pure ?_
    rw [wp_bind, wp_gets, wp_bind, wp_stopIf]
    refine ⟨fun hzero => ?_, fun _ => (wp_pure _).mpr ⟨hrel.relocs, hrel.good⟩⟩
    have hdata := hrel.buffer.data
    have hfits := hrel.buffer.fits
    have hmem : t.buffer.memory = [] := eq_nil_of_length_eq_zero (by omega)
    rw [hrel.relocs] at hmem
    exact absurd (map_eq_nil_iff.mp hmem) (hne (by omega))

/-- **the first phase with its trace**: it comes to its end, its accesses are inside the table and the image, no sum
wraps, and the fixups are in ascending order and apart; if it succeeds, then the tool lists these fixups if and only
if the table is empty, or is not left at once and has no fixup that the tool refuses -/
theorem ueRelocateImage_scan_iff (hrun : ueInitializeContext f false = (.ok ctx, w)) {base fixupData : Nat}
    (hbase : base < 2^64) {image : Mem} {context : Option RuntimeContext} {result : Except Status Unit}
    {s : TracedState} (htrace : tracedRelocateImage f ctx base fixupData ⟨⟨image, context⟩, .empty⟩ = (result, s)) :
    ueRelocateImage f ctx base fixupData ⟨image, context⟩ = (result, s.reloc) ∧ result ≠ .error .aborted ∧
      (∃ t, TraceOk ctx.relocTableSize ctx.imageSize t s.trace) ∧
      (result = .ok () → (listedRelocs f ctx image = .ok (s.trace.fixups.map toolReloc) ↔
        ctx.relocTableSize = 0 ∨ (¬ LeavesEarly f ctx base ∧ Good f s.trace.fixups))) := by
  have hok := relocatable_of_run hrun
  have herase := tracedRelocateImage_erases f ctx base fixupData ⟨⟨image, context⟩, .empty⟩
  have htraceOk := tracedRelocateImage_ok hok base fixupData ⟨image, context⟩
  rw [htrace] at herase
  refine ⟨herase, ?_, ?_, ?_⟩
  · rintro rfl
    exact (wp_error htraceOk htrace).1 rfl
  · cases result with
    | ok _ =>
      have h := wp_ok htraceOk htrace
      exact h
    | error e => exact (wp_error htraceOk htrace).2
  · rintro rfl
    by_cases hzero : ctx.relocTableSize = 0
    · have hs : s.trace = .empty := by
        unfold tracedRelocateImage at htrace
        rw [if_pos (.inl hzero)] at htrace
        exact congrArg (fun r => r.2.trace) htrace.symm
      rw [hs]
      unfold listedRelocs scanUeGetRelocInfo
      rw [if_pos hzero]
      exact ⟨fun _ => .inl hzero, fun _ => rfl⟩
    by_cases hearly : LeavesEarly f ctx base
    · have hs : s.trace = .empty := by
        unfold tracedRelocateImage at htrace
        rw [if_pos (.inr ⟨(sub64_eq_zero hbase hok.linked).mpr hearly.1, hearly.2⟩)] at htrace
        exact congrArg (fun r => r.2.trace) htrace.symm
      rw [hs]
      refine ⟨fun h => absurd h (scan_ne_nil hzero image), ?_⟩
      rintro (h | h)
      · exact absurd h hzero
      · exact absurd hearly h.1
    · unfold tracedRelocateImage at htrace
      rw [if_neg ?_] at htrace
      · have hfollows := scan_follows hrun hzero (sub64 base (linkedAddress ctx)) fixupData image context
        unfold listedRelocs
        rcases follows_ok hfollows htrace with ⟨relocs, t', hscan, hrelocs, hgood⟩ | ⟨hfail, hbad⟩
        · rw [hscan, hrelocs]
          exact ⟨fun _ => .inr ⟨hearly, hgood⟩, fun _ => rfl⟩
        · refine ⟨fun h => (hfail _ _ (Prod.ext h rfl)).elim, ?_⟩
          rintro (h | h)
          · exact absurd h hzero
          · exact absurd h.2 hbad
      · rintro (h | ⟨h, hchain⟩)
        · exact hzero h
        · exact hearly ⟨(sub64_eq_zero hbase hok.linked).mp h, hchain⟩

end

theorem chainedImage_listed : ∃ s, tracedRelocateImage (fixupImage true) fixupContext 0x10000 0
      ⟨⟨fixupMem true, none⟩, .empty⟩ = (.ok (), s) ∧
    listedRelocs (fixupImage true) fixupContext (fixupMem true) = .ok (s.trace.fixups.map toolReloc) := by
  have hfirst : (tracedRelocateImage (fixupImage true) fixupContext 0x10000 0 ⟨⟨fixupMem true, none⟩, .empty⟩).1 =
    .ok () := by decide +kernel
  have hfixups : (tracedRelocateImage (fixupImage true) fixupContext 0x10000 0
    ⟨⟨fixupMem true, none⟩, .empty⟩).2.trace.fixups = [(0, 0)] := by decide +kernel
  refine ⟨_, Prod.ext hfirst rfl, ?_⟩
  refine ((ueRelocateImage_scan_iff (fixupImage_run true) (by norm_num) (Prod.ext hfirst rfl)).2.2.2 rfl).mpr (.inr ⟨?_, ?_, ?_⟩)
  · exact fun h => absurd h.1 (by decide +kernel)
  · rw [hfixups]
    intro x hx
    rw [mem_singleton.mp hx]
    unfold ToolAccepts
    rw [if_pos (by decide +kernel)]
    exact ⟨0, by decide +kernel⟩
  · rw [hfixups]
    decide

/-- a chained image with two segments; the first of two links is on their common border -/
def straddleImage : File where
  bytes := ofFields [(0, 2, ueHeaderMagic), (3, 1, 9), (8, 8, 2^59), (16, 4, 0x100001), (24, 4, 0x100001), (28, 4, 6),
    (32, 4, 1), (38, 2, 0xFFF), (48, 4, 0xFFE), (52, 2, 0xFFF0)]
  size := 56
  size_lt := by norm_num

def straddleContext : UeContext :=
  { fixupContext with
    fileSize := 56
    lastSegmentIndex := 1
    segmentsFileOffset := 36
    loadTablesFileOffset := 48
    imageSize := 0x2000 }

/-- the loader takes both links, which lie in the image, and the tool refuses the file -/
theorem straddleImage_not_listed : ueInitializeContext straddleImage false = (.ok straddleContext, false) ∧
    ∃ s, tracedRelocateImage straddleImage straddleContext 0x10000 0
        ⟨⟨ueLoadImage straddleImage straddleContext (fun _ => 0) 0x2000, none⟩, .empty⟩ = (.ok (), s) ∧
      s.trace.fixups = [(0, 0xFFE), (0, 0x1002)] ∧
      listedRelocs straddleImage straddleContext (ueLoadImage straddleImage straddleContext (fun _ => 0) 0x2000) =
        .error .volumeCorrupted := by
  have hfirst : (tracedRelocateImage straddleImage straddleContext 0x10000 0
    ⟨⟨ueLoadImage straddleImage straddleContext (fun _ => 0) 0x2000, none⟩, .empty⟩).1 = .ok () := by decide +kernel
  exact ⟨by decide +kernel, _, Prod.ext hfirst rfl, by decide +kernel, by decide +kernel⟩

end Audk.ImageTool
