import Audk.Ue.Init

/-!
# The contract of the UE initialization

The offsets a file prescribes, without any wrapping, are plain sums; `WellFormed` says that the
context holds exactly these and that they fit the file.  The comments of the code argue for that from
a header of less than 4 KiB, but the header of an XIP image is rounded up to the segment alignment.

* `Initialized`: what holds of every accepted image;
* `ueInitializeContext_wellFormed_iff`: an accepted image is well-formed exactly when its image size
  fits in 32 bits and the entry point is not right behind the image.
-/

namespace Audk.Ue

open Bytes Prog Arith Nat

/-! ## exact offsets -/

section
variable (f : File)

def tablesEnd : Nat := loadTableHeaders f + ueHeaderNumLoadTables f * sizeofUeLoadTable

def headerSize : Nat :=
  if ueHeaderXip f = true then roundUp (tablesEnd f) (ueHeaderSegmentAlignment f) else tablesEnd f

def numSegments : Nat := ueHeaderLastSegmentIndex f + 1

/-- where the data of segment `i` starts in the file -/
def segmentFileOffset : Nat → Nat
  | 0 => headerSize f
  | i+1 => segmentFileOffset i + (segmentAt f i).fileSize

/-- where segment `i` starts in the image -/
def segmentAddress : Nat → Nat
  | 0 => 0
  | i+1 => segmentAddress i + (segmentAt f i).size

def exactImageSize : Nat := segmentAddress f (numSegments f) + if ueHeaderXip f = true then headerSize f else 0

def loadTablesStart : Nat := roundUp (segmentFileOffset f (numSegments f)) ueLoadTableAlignment

/-- where load table `i` starts in the file if the first one starts at `start` -/
def loadTableOffset (start : Nat) : Nat → Nat
  | 0 => start
  | i+1 => loadTableOffset start i + ueLoadTableSize (loadTableAt f i)

structure WellFormed (ctx : UeContext) (wrapped : Bool) : Prop where
  noWrap : wrapped = false
  headers : tablesEnd f ≤ f.size
  segmentsOffset : ctx.segmentsFileOffset = headerSize f
  segmentsEnd : ctx.loadTablesFileOffset = loadTablesStart f
  segmentsEnd_le : ctx.loadTablesFileOffset ≤ f.size
  tablesEnd : loadTableOffset f ctx.loadTablesFileOffset ctx.numLoadTables = f.size
  ascending : ∀ i, i + 1 < ctx.numLoadTables → ueLoadTableId (loadTableAt f i) < ueLoadTableId (loadTableAt f (i+1))
  fileSize_le : ∀ i, i < numSegments f → (segmentAt f i).fileSize ≤ (segmentAt f i).size
  aligned : ∀ i, i < numSegments f → ctx.segmentAlignment ∣ (segmentAt f i).size
  imageSize : ctx.imageSize = exactImageSize f
  entry : ctx.entryPointAddress < ctx.imageSize

end

/-! ## bounds -/

section
variable {f : File}

lemma tablesEnd_le (f : File) : tablesEnd f ≤ 300 := by
  have h1 := lastSegmentIndex_lt f
  have h2 := numLoadTables_lt f
  unfold tablesEnd loadTableHeaders minSizeOfUeHeader sizeofUeSegment sizeofUeLoadTable
  omega

lemma tablesEnd_le_headerSize (f : File) : tablesEnd f ≤ headerSize f := by
  unfold headerSize
  split
  · exact le_roundUp _ (isPow2_pos (segmentAlignment_pow2 f))
  · exact le_rfl

lemma headerSize_le (f : File) : headerSize f ≤ ueHeaderSegmentAlignment f := by
  have h1 := tablesEnd_le f
  have h2 := le_segmentAlignment f
  unfold headerSize
  split
  · exact roundUp_le (isPow2_pos (segmentAlignment_pow2 f)) dvd_rfl (by omega)
  · omega

lemma segmentAddress_mono (f : File) {i j : Nat} (h : i ≤ j) : segmentAddress f i ≤ segmentAddress f j := by
  induction j with
  | zero => exact (le_zero.mp h) ▸ le_rfl
  | succ j ih =>
    rcases le_succ_iff.mp h with h | rfl
    · exact (ih h).trans (le_add_right _ _)
    · exact le_rfl

lemma segmentFileOffset_le {i : Nat} (h : ∀ j, j < i → (segmentAt f j).fileSize ≤ (segmentAt f j).size) :
    segmentFileOffset f i ≤ headerSize f + segmentAddress f i := by
  induction i with
  | zero => exact le_rfl
  | succ i ih =>
    have h1 := ih fun j hj => h j (by omega)
    have h2 := h i (lt_succ_self i)
    rw [segmentFileOffset, segmentAddress]
    omega

/-! ## unchecked arithmetic -/

variable {a b : Nat} {w : Bool} {Q : Nat → Bool → Prop} {E : Status → Bool → Prop}

lemma wp_addU32 : wp (addU32 a b) Q E w ↔ Q (add32 a b) (w || decide (2^32 ≤ a + b)) := Iff.rfl

lemma wp_alignU32 : wp (alignU32 a b) Q E w ↔ Q (alignValue a b) (w || decide (2^32 ≤ a + alignValueAddend a b)) := by
  unfold alignU32 alignValue
  exact wp_addU32

lemma addU32_exact {a b : Nat} {w : Bool} (hw : w = false) (h : a + b < 2^32) :
    add32 a b = a + b ∧ (w || decide (2^32 ≤ a + b)) = false := by
  rw [add32_eq h, hw, Bool.false_or]
  exact ⟨rfl, decide_eq_false (not_le.mpr h)⟩

lemma alignU32_exact {v a : Nat} {w : Bool} (ha : isPow2 a) (hlt : a < 2^32) (hv : v < 2^32)
    (hw : w = false) (h : roundUp v a < 2^32) :
    alignValue v a = roundUp v a ∧ (w || decide (2^32 ≤ v + alignValueAddend v a)) = false := by
  rw [alignValue_eq ha hlt hv h, add_alignValueAddend ha hlt hv, hw, Bool.false_or]
  exact ⟨rfl, decide_eq_false (not_le.mpr h)⟩

/-! ## segments -/

variable {ctx : UeContext}

/-- the first `i` segments were verified -/
structure SegmentsInv (f : File) (align i : Nat) (e : SegmentEnds) (w : Bool) : Prop where
  address : e.imageAddress = segmentAddress f i
  address_lt : segmentAddress f i < 2^32
  dvd : align ∣ segmentAddress f i
  fileSize_le : ∀ j, j < i → (segmentAt f j).fileSize ≤ (segmentAt f j).size
  aligned : ∀ j, j < i → align ∣ (segmentAt f j).size
  exact : headerSize f + segmentAddress f i < 2^32 → e.fileOffset = segmentFileOffset f i ∧ w = false

lemma verifySegment_spec {align i : Nat} {e : SegmentEnds} (ha : isPow2 align) (h : SegmentsInv f align i e w) :
    wp (verifySegment f align i e) (SegmentsInv f align (i+1)) (fun _ _ => True) w := by
  simp only [verifySegment, wp_bind, wp_stopIf, wp_addU32, wp_pure, isAligned_iff ha]
  refine ⟨fun _ => trivial, fun hsize => ⟨fun _ => trivial, fun halign =>
    ⟨fun _ => trivial, fun hov => ?_⟩⟩⟩
  have hle : (segmentAt f i).fileSize ≤ (segmentAt f i).size := not_lt.mp hsize
  have hdvd : align ∣ (segmentAt f i).size := not_not.mp halign
  have hov' : (baseOverflowAddU32 e.imageAddress (segmentAt f i).size).1 = false := by simpa using hov
  have hsum := baseOverflowAddU32_fst.mp hov'
  rw [h.address] at hsum
  exact {
    address := by rw [baseOverflowAddU32_snd hov', h.address, segmentAddress]
    address_lt := hsum
    dvd := (Nat.dvd_add_right h.dvd).mpr hdvd
    fileSize_le := by
      intro j hj
      rcases Nat.lt_succ_iff_lt_or_eq.mp hj with hj | rfl
      · exact h.fileSize_le j hj
      · exact hle
    aligned := by
      intro j hj
      rcases Nat.lt_succ_iff_lt_or_eq.mp hj with hj | rfl
      · exact h.aligned j hj
      · exact hdvd
    exact := by
      intro hlt
      rw [segmentAddress] at hlt
      obtain ⟨hoff, hw⟩ := h.exact (by omega)
      have hbound := segmentFileOffset_le h.fileSize_le
      have hadd := addU32_exact (b := (segmentAt f i).fileSize) hw (a := e.fileOffset) (by omega)
      rw [hoff] at hadd ⊢
      exact hadd }

structure SegmentsOk (f : File) (ctx : UeContext) (w : Bool) : Prop where
  address_lt : segmentAddress f (numSegments f) < 2^32
  dvd : ctx.segmentAlignment ∣ segmentAddress f (numSegments f)
  fileSize_le : ∀ i, i < numSegments f → (segmentAt f i).fileSize ≤ (segmentAt f i).size
  aligned : ∀ i, i < numSegments f → ctx.segmentAlignment ∣ (segmentAt f i).size
  loadTables_le : ctx.loadTablesFileOffset ≤ ctx.fileSize
  imageSize : ctx.imageSize = exactImageSize f % 2^32
  exact : exactImageSize f < 2^32 → ctx.loadTablesFileOffset = loadTablesStart f ∧ w = false

lemma header_add_segments_lt {align : Nat} (ha : align = ueHeaderSegmentAlignment f)
    (hdvd : align ∣ segmentAddress f (numSegments f))
    (hlt : segmentAddress f (numSegments f) < 2^32) (hexact : exactImageSize f < 2^32) :
    roundUp (headerSize f + segmentAddress f (numSegments f)) ueLoadTableAlignment < 2^32 := by
  have h12 : 2^12 ∣ segmentAddress f (numSegments f) := (pow_dvd_pow 2 (le_add_left 12 _)).trans (ha ▸ hdvd)
  have hround := roundUp_lt (headerSize f + segmentAddress f (numSegments f))
    (show 0 < ueLoadTableAlignment by decide)
  have h8 : ueLoadTableAlignment = 8 := rfl
  have htab := tablesEnd_le f
  unfold exactImageSize at hexact
  by_cases hx : ueHeaderXip f = true
  · rw [if_pos hx] at hexact
    have hd : 2^12 ∣ headerSize f := by
      unfold headerSize
      rw [if_pos hx]
      exact (pow_dvd_pow 2 (le_add_left 12 _)).trans (dvd_roundUp _ _)
    omega
  · have hh : headerSize f = tablesEnd f := if_neg hx
    omega

lemma internalVerifySegments_spec (hoff : ctx.segmentsFileOffset = headerSize f)
    (halign : ctx.segmentAlignment = ueHeaderSegmentAlignment f)
    (hlast : ctx.lastSegmentIndex = ueHeaderLastSegmentIndex f) (hxip : ctx.xip = ueHeaderXip f) (hw : w = false) :
    wp (internalVerifySegments f ctx) (fun ctx' w' => SegmentsOk f ctx' w' ∧
        ∃ t s, ctx' = { ctx with loadTablesFileOffset := t, imageSize := s })
      (fun _ _ => True) w := by
  have ha : isPow2 ctx.segmentAlignment := halign ▸ segmentAlignment_pow2 f
  have h0 : SegmentsInv f ctx.segmentAlignment 0 ⟨ctx.segmentsFileOffset, 0⟩ w := {
    address := rfl
    address_lt := Nat.two_pow_pos 32
    dvd := dvd_zero _
    fileSize_le := fun j hj => absurd hj (not_lt_zero j)
    aligned := fun j hj => absurd hj (not_lt_zero j)
    exact := fun _ => ⟨hoff, hw⟩ }
  unfold internalVerifySegments
  apply wp_seq (wp_loop _ (SegmentsInv f ctx.segmentAlignment) 0 (ctx.lastSegmentIndex + 1) _ h0
    (fun j b t _ _ hj => verifySegment_spec ha hj)) _
  intro e w1 he
  rw [zero_add, hlast] at he
  simp only [wp_bind, wp_alignU32, wp_stopIf]
  refine ⟨fun _ => trivial, fun hfile => ?_⟩
  -- the last two additions are exact if the image size fits in 32 bits
  have hexact : exactImageSize f < 2^32 →
      alignValue e.fileOffset ueLoadTableAlignment = loadTablesStart f ∧
        (w1 || decide (2^32 ≤ e.fileOffset + alignValueAddend e.fileOffset ueLoadTableAlignment)) = false := by
    intro hsize
    have hfit := header_add_segments_lt halign he.dvd he.address_lt hsize
    have hsum := le_roundUp (headerSize f + segmentAddress f (numSegments f))
      (show 0 < ueLoadTableAlignment by decide)
    obtain ⟨hfo, hw1⟩ := he.exact (lt_of_le_of_lt hsum hfit)
    have hbound := segmentFileOffset_le he.fileSize_le
    rw [hfo]
    refine alignU32_exact (by decide) (by decide) ?_ hw1 ?_
    · exact lt_of_le_of_lt (hbound.trans hsum) hfit
    · exact lt_of_le_of_lt (roundUp_mono (by decide) hbound) hfit
  by_cases hx : ctx.xip = true
  · rw [if_pos hx, wp_bind, wp_addU32, wp_pure]
    refine ⟨{
      address_lt := he.address_lt
      dvd := he.dvd
      fileSize_le := he.fileSize_le
      aligned := he.aligned
      loadTables_le := not_lt.mp hfile
      imageSize := ?_
      exact := fun hsize => ⟨(hexact hsize).1, ?_⟩ }, _, _, rfl⟩
    · show add32 e.imageAddress ctx.segmentsFileOffset = exactImageSize f % 2^32
      unfold exactImageSize add32
      rw [if_pos (hxip ▸ hx), he.address, hoff]
      rfl
    · rw [(hexact hsize).2, Bool.false_or, he.address, hoff]
      apply decide_eq_false
      unfold exactImageSize at hsize
      rw [if_pos (hxip ▸ hx)] at hsize
      exact not_le.mpr hsize
  · rw [if_neg hx, wp_bind, wp_pure, wp_pure]
    refine ⟨{
      address_lt := he.address_lt
      dvd := he.dvd
      fileSize_le := he.fileSize_le
      aligned := he.aligned
      loadTables_le := not_lt.mp hfile
      imageSize := ?_
      exact := hexact }, _, _, rfl⟩
    show e.imageAddress = exactImageSize f % 2^32
    unfold exactImageSize
    rw [if_neg (hxip ▸ hx), he.address, add_zero]
    exact (mod_eq_of_lt he.address_lt).symm

/-! ## load tables -/

/-- the first `i` load tables were verified -/
structure LoadTablesInv (f : File) (start i : Nat) (e : LoadTableEnds) : Prop where
  prevId : e.prevId = if i = 0 then none else some (ueLoadTableId (loadTableAt f (i-1)))
  fileOffset : e.fileOffset = loadTableOffset f start i
  ascending : ∀ j, j + 1 < i → ueLoadTableId (loadTableAt f j) < ueLoadTableId (loadTableAt f (j+1))

lemma verifyLoadTable_spec {start i : Nat} {e : LoadTableEnds} (h : LoadTablesInv f start i e) :
    wp (verifyLoadTable f i e) (fun e' w' => LoadTablesInv f start (i+1) e' ∧ w' = w) (fun _ _ => True) w := by
  simp only [verifyLoadTable, wp_bind, wp_stopIf, wp_pure]
  refine ⟨fun _ => trivial, fun hid => ⟨fun _ => trivial, fun hov => ⟨?_, trivial⟩⟩⟩
  have hov' : (baseOverflowAddU32 e.fileOffset (ueLoadTableSize (loadTableAt f i))).1 = false := by
    simpa using hov
  exact {
    prevId := (if_neg (succ_ne_zero i)).symm
    fileOffset := by rw [baseOverflowAddU32_snd hov', h.fileOffset, loadTableOffset]
    ascending := by
      intro j hj
      rcases Nat.lt_succ_iff_lt_or_eq.mp hj with hj | rfl
      · exact h.ascending j hj
      · -- the table in front of this one
        by_contra hc
        refine hid ⟨_, ?_, not_lt.mp hc⟩
        rw [h.prevId]
        rfl }

structure LoadTablesOk (f : File) (ctx : UeContext) : Prop where
  tablesEnd : loadTableOffset f ctx.loadTablesFileOffset ctx.numLoadTables = ctx.fileSize
  ascending : ∀ i, i + 1 < ctx.numLoadTables → ueLoadTableId (loadTableAt f i) < ueLoadTableId (loadTableAt f (i+1))
  relocTable : ctx.relocTableSize = 0 ∨ ctx.relocTableSize = ueLoadTableSize (loadTableAt f 0)
  hasTable : ctx.relocTableSize ≠ 0 → 0 < ctx.numLoadTables

lemma internalVerifyLoadTables_spec : wp (internalVerifyLoadTables f ctx)
      (fun ctx' w' => LoadTablesOk f ctx' ∧ w' = w ∧ ∃ t, ctx' = { ctx with relocTableSize := t })
      (fun _ _ => True) w := by
  have h0 : LoadTablesInv f ctx.loadTablesFileOffset 0 ⟨none, ctx.loadTablesFileOffset⟩ := {
    prevId := rfl
    fileOffset := rfl
    ascending := fun j hj => absurd hj (not_lt_zero _) }
  unfold internalVerifyLoadTables
  apply wp_seq (wp_loop _ (fun i e w' => LoadTablesInv f ctx.loadTablesFileOffset i e ∧ w' = w) 0
    ctx.numLoadTables _ ⟨h0, rfl⟩ ?_) _
  · rintro j b t - - ⟨hj, rfl⟩
    exact verifyLoadTable_spec hj
  · rintro e w' ⟨he, rfl⟩
    rw [zero_add] at he
    simp only [wp_bind, wp_stopIf, wp_pure]
    refine ⟨fun _ => trivial, fun _ => ⟨fun _ => trivial, fun hend => ⟨?_, trivial, _, rfl⟩⟩⟩
    refine ⟨he.fileOffset ▸ not_not.mp hend, he.ascending, (ite_eq_or_eq _ _ _).symm, fun hne => ?_⟩
    by_contra hnone
    exact hne (if_neg fun hc => hnone hc.1)

/-! ## initialization -/

structure Initialized (f : File) (ctx : UeContext) (w : Bool) : Prop
    extends SegmentsOk f ctx w, LoadTablesOk f ctx where
  fileSize : ctx.fileSize = f.size
  headers : headerSize f ≤ f.size
  xip : ctx.xip = ueHeaderXip f
  alignment : ctx.segmentAlignment = ueHeaderSegmentAlignment f
  segmentsOffset : ctx.segmentsFileOffset = headerSize f
  lastIndex : ctx.lastSegmentIndex = ueHeaderLastSegmentIndex f
  numTables : ctx.numLoadTables = ueHeaderNumLoadTables f
  base : ctx.baseAddress = ueHeaderBaseAddress f
  base_dvd : ctx.segmentAlignment ∣ ctx.baseAddress
  entryAddress : ctx.entryPointAddress = entryPointAddress f
  entry_le : ctx.entryPointAddress ≤ ctx.imageSize

lemma postHashHeaderSize_spec {Q : Nat → Bool → Prop} {E : Status → Bool → Prop}
    (hw : w = false) (hQ : Q (headerSize f) false) : wp (postHashHeaderSize f) Q E w := by
  have hle := headerSize_le f
  have hal := segmentAlignment_le f
  have htab := tablesEnd_le f
  have hload : loadTableHeaders f + ueHeaderNumLoadTables f * sizeofUeLoadTable < 2^32 :=
    lt_of_le_of_lt htab (by norm_num)
  obtain ⟨e1, w1⟩ := addU32_exact hw (lt_of_le_of_lt (le_add_right (loadTableHeaders f) _) hload)
  obtain ⟨e2, w2⟩ := addU32_exact (w := false) rfl hload
  unfold postHashHeaderSize
  rw [wp_bind, wp_addU32, e1, w1, wp_bind, wp_addU32]
  show wp (if _ then alignU32 (add32 (loadTableHeaders f) _) _
    else pure (add32 (loadTableHeaders f) _)) Q E (false || decide (2^32 ≤ loadTableHeaders f + _))
  rw [e2, w2]
  unfold headerSize at hQ hle
  by_cases hx : ueHeaderXip f = true
  · rw [if_pos hx] at hQ hle ⊢
    obtain ⟨e3, w3⟩ := alignU32_exact (v := tablesEnd f) (w := false) (segmentAlignment_pow2 f)
      (by omega) (by omega) rfl (by omega)
    rw [wp_alignU32]
    show Q (alignValue (tablesEnd f) _) (false || decide (2^32 ≤ tablesEnd f + alignValueAddend (tablesEnd f) _))
    rw [e3, w3]
    exact hQ
  · rw [if_neg hx] at hQ ⊢
    exact hQ

lemma ueInitializeContextPostHash_spec (hsize : ctx.fileSize = f.size) (hw : w = false) :
    wp (ueInitializeContextPostHash f ctx) (Initialized f) (fun _ _ => True) w := by
  unfold ueInitializeContextPostHash
  rw [wp_bind]
  refine postHashHeaderSize_spec hw ?_
  refine wp_stopIf_bind (fun _ => trivial) fun hhdr => ?_
  refine wp_stopIf_bind (fun _ => trivial) fun hbase => ?_
  rw [isAligned_iff (segmentAlignment_pow2 f)] at hbase
  apply wp_seq (internalVerifySegments_spec rfl rfl rfl rfl rfl) _
  rintro ctx1 w1 ⟨hseg, t, s, rfl⟩
  unfold internalInitializeContextLate
  refine wp_stopIf_bind (fun _ => trivial) fun hentry => ?_
  apply wp_post internalVerifyLoadTables_spec _
  rintro ctx2 w2 ⟨htabs, rfl, r, rfl⟩
  exact {
    address_lt := hseg.address_lt
    dvd := hseg.dvd
    fileSize_le := hseg.fileSize_le
    aligned := hseg.aligned
    loadTables_le := hseg.loadTables_le
    imageSize := hseg.imageSize
    exact := hseg.exact
    tablesEnd := htabs.tablesEnd
    hasTable := htabs.hasTable
    ascending := htabs.ascending
    relocTable := htabs.relocTable
    fileSize := hsize
    headers := hsize ▸ not_lt.mp hhdr
    xip := rfl
    alignment := rfl
    segmentsOffset := rfl
    lastIndex := rfl
    numTables := rfl
    base := rfl
    base_dvd := not_not.mp hbase
    entryAddress := rfl
    entry_le := not_lt.mp hentry }

lemma ueInitializeContext_spec : wp (ueInitializeContext f) (Initialized f) (fun _ _ => True) false := by
  simp only [ueInitializeContext, ueInitializeContextPreHash, wp_bind, wp_stopIf, wp_pure]
  exact ⟨fun _ => trivial, fun _ => ⟨fun _ => trivial, fun _ =>
    ueInitializeContextPostHash_spec rfl rfl⟩⟩

lemma initialized_of_run (h : ueInitializeContext f false = (.ok ctx, w)) : Initialized f ctx w :=
  wp_ok ueInitializeContext_spec h

/-- **an accepted image is well-formed exactly when its size fits in 32 bits and its entry point is
not the end of the image** -/
theorem ueInitializeContext_wellFormed_iff (hrun : ueInitializeContext f false = (.ok ctx, w)) :
    WellFormed f ctx w ↔
      exactImageSize f < 2^32 ∧ entryPointAddress f ≠ exactImageSize f := by
  have h := initialized_of_run hrun
  constructor
  · intro hw
    have hlt : ctx.imageSize < 2^32 := h.imageSize ▸ Nat.mod_lt _ (Nat.two_pow_pos 32)
    have hentry := hw.entry
    rw [hw.imageSize] at hlt hentry
    rw [h.entryAddress] at hentry
    exact ⟨hlt, hentry.ne⟩
  · rintro ⟨hlt, hne⟩
    have hsize : ctx.imageSize = exactImageSize f := h.imageSize.trans (mod_eq_of_lt hlt)
    have hentry := h.entry_le
    rw [hsize, h.entryAddress] at hentry
    exact {
      noWrap := (h.exact hlt).2
      headers := (tablesEnd_le_headerSize f).trans h.headers
      segmentsOffset := h.segmentsOffset
      segmentsEnd := (h.exact hlt).1
      segmentsEnd_le := h.fileSize ▸ h.loadTables_le
      tablesEnd := h.tablesEnd.trans h.fileSize
      ascending := h.ascending
      fileSize_le := h.fileSize_le
      aligned := h.aligned
      imageSize := hsize
      entry := by
        rw [hsize, h.entryAddress]
        omega }

end

/-! ## three images -/

/-- a header and one segment of a page that has no data; the entry point is `entry` -/
def pageImage (entry : Nat) : File where
  bytes := ofFields [(0, 2, ueHeaderMagic), (4, 4, entry), (16, 4, 0x100001)]
  size := 24
  size_lt := by norm_num

def pageContext (entry : Nat) : UeContext where
  fileSize := 24
  subsystem := 0
  machine := 0
  fixedAddress := false
  xip := false
  lastSegmentIndex := 0
  segmentsFileOffset := 24
  segmentAlignment := 0x1000
  relocsStripped := false
  numLoadTables := 0
  loadTablesFileOffset := 24
  relocTableSize := 0
  imageSize := 0x1000
  entryPointAddress := entry
  baseAddress := 0

theorem pageImage_wellFormed : WellFormed (pageImage 0xFFC) (pageContext 0xFFC) false := by
  have hrun : ueInitializeContext (pageImage 0xFFC) false = (.ok (pageContext 0xFFC), false) := by
    decide +kernel
  exact (ueInitializeContext_wellFormed_iff hrun).mpr (by decide +kernel)

/-- an XIP image with the largest alignment and a segment of all addresses behind the header -/
def wrapImage : File where
  bytes := ofFields [(0, 2, ueHeaderMagic), (8, 8, 0xF100000000000000), (16, 4, 0x1F8000)]
  size := 2^27
  size_lt := by norm_num

def wrapContext : UeContext where
  fileSize := 2^27
  subsystem := 0
  machine := 0
  fixedAddress := false
  xip := true
  lastSegmentIndex := 0
  segmentsFileOffset := 2^27
  segmentAlignment := 2^27
  relocsStripped := false
  numLoadTables := 0
  loadTablesFileOffset := 2^27
  relocTableSize := 0
  imageSize := 0
  entryPointAddress := 0
  baseAddress := 0

/-- both are accepted: an entry point behind the image, and an image size that wraps to zero -/
theorem initialized_not_wellFormed :
    (ueInitializeContext (pageImage 0x1000) false = (.ok (pageContext 0x1000), false) ∧
      ¬ WellFormed (pageImage 0x1000) (pageContext 0x1000) false) ∧
    (ueInitializeContext wrapImage false = (.ok wrapContext, true) ∧ ¬ WellFormed wrapImage wrapContext true) := by
  refine ⟨⟨by decide +kernel, fun h => ?_⟩, ⟨by decide +kernel, fun h => ?_⟩⟩
  · exact absurd h.entry (by decide)
  · exact absurd h.noWrap (by decide)

end Audk.Ue
