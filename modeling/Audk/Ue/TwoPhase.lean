import Audk.Ue.RuntimeRelocate

/-!
# Two-phase relocation of a UE runtime driver

A runtime driver is relocated when it is loaded and once more by `SetVirtualAddressMap`.  The second
relocation has only what the first one left in the runtime context.

* `RuntimeRelocatable`: when it does;
* `ueRelocateImageForRuntime_twoPhase`: the second phase over every accepted image.
-/

namespace Audk.Ue

open Bytes Prog Arith List Nat

/-! ## the values of an unchained walk -/

/-- every fixup has the value that the image has there -/
def Unmoved (image : Mem) (xs : List Fixup) : Prop := ∀ x, x ∈ xs → x.value = le image x.target x.width

section
variable {imageSize : Nat} {table : RelocTable} {image : Mem} {xs : List Fixup}

lemma walkFixup_unmoved {relocType relocTarget : Nat} (h : Unmoved image xs) :
    wp (walkFixup imageSize relocType relocTarget image) (fun _ => Unmoved image) (fun _ _ => True) xs := by
  unfold walkFixup
  simp only [wp_bind, wp_stopIf]
  refine ⟨fun _ => trivial, fun _ => ?_⟩
  cases relocWidth relocType with
  | none => exact trivial
  | some width =>
    simp only [wp_bind, wp_stopIf, wp_modify, wp_pure]
    refine ⟨fun _ => trivial, fun _ x hx => ?_⟩
    rcases mem_append.mp hx with hx | hx
    · exact h x hx
    · rw [mem_singleton.mp hx]

lemma walkHeadStep_unmoved {t : TableState} (h : Unmoved image xs) :
    wp (walkHeadStep imageSize table false image t) (fun _ => Unmoved image) (fun _ _ => True) xs := by
  unfold walkHeadStep walkHeadFixups
  simp only [Bool.false_eq_true, false_and, if_false, wp_bind]
  refine wp_post (walkFixup_unmoved h) (fun _ xs' h' => ?_)
  unfold nextHead
  simp only [wp_pure, wp_ite, wp_bind, wp_stopIf]
  exact ⟨fun _ => h', fun _ => ⟨fun _ => trivial, fun _ => h'⟩⟩

lemma walkRoots_unmoved (hwalk : walkRoots imageSize table false image [] = (.ok (), xs)) : Unmoved image xs := by
  have hroots : wp (walkRoots imageSize table false image) (fun _ => Unmoved image) (fun _ _ => True) [] := by
    unfold walkRoots
    refine wp_seq (wp_repeatWhile (fun _ => Unmoved image) (fun t xs h _ => ?_) (fun _ => trivial) _
      (fun x hx => absurd hx not_mem_nil)) (fun _ _ h => h)
    unfold walkRootStep
    refine wp_stopIf_bind (fun _ => trivial) fun _ => ?_
    rw [wp_bind]
    exact wp_post (wp_repeatWhile (fun _ => Unmoved image) (fun t xs h _ => walkHeadStep_unmoved h)
      (fun _ => trivial) _ h) (fun _ _ h => h)
  have := wp_ok hroots hwalk
  exact this

/-! ## a direct relocation -/

variable {f : File} {ctx : UeContext} {w : Bool} {image₀ : Mem} {baseAddress fixupData : Nat}
  {context : Option RuntimeContext}

/-- what an accepted image says about its relocation -/
structure Relocatable (f : File) (ctx : UeContext) : Prop where
  image : ctx.imageSize + 2^12 ≤ 2^32
  table_dvd : 8 ∣ ctx.relocTableSize
  table_lt : ctx.relocTableSize < 2^32
  linked : linkedAddress ctx < 2^64

lemma relocatable_of_run (hrun : ueInitializeContext f false = (.ok ctx, w)) : Relocatable f ctx := by
  have h := initialized_of_run hrun
  have h12 : 2^12 ∣ ueHeaderSegmentAlignment f := pow_dvd_pow 2 (le_add_left 12 _)
  have hseg : 2^12 ∣ segmentAddress f (numSegments f) := h12.trans (h.alignment ▸ h.dvd)
  have hexact : 2^12 ∣ exactImageSize f := by
    unfold exactImageSize
    by_cases hx : ueHeaderXip f = true
    · rw [if_pos hx]
      refine (Nat.dvd_add_right hseg).mpr ?_
      unfold headerSize
      rw [if_pos hx]
      exact h12.trans (dvd_roundUp _ _)
    · rw [if_neg hx]
      exact hseg
  exact {
    image := by
      rw [h.imageSize]
      omega
    table_dvd := by
      rcases h.relocTable with h | h
      · exact h ▸ dvd_zero 8
      · rw [h]
        unfold ueLoadTableSize
        omega
    table_lt := by
      rcases h.relocTable with h | h
      · rw [h]
        norm_num
      · rw [h]
        exact mod_lt _ (by norm_num)
    linked := by
      unfold linkedAddress
      by_cases hx : ctx.xip = true
      · rw [if_pos hx]
        exact mod_lt _ (by norm_num)
      · rw [if_neg hx, h.base]
        exact mod_lt _ (by norm_num) }

lemma ImageRel.unmoved {imageSize adjust target : Nat} {image : Mem}
    (h : ImageRel imageSize adjust image₀ xs target image) (hu : Unmoved image₀ xs) :
    ImageRel imageSize 0 image₀ xs target image₀ where
  below := h.below
  width := h.width
  fits := h.fits
  apart := h.apart
  value := by
    intro x hx
    unfold Fixup.moved
    rw [add_zero, hu x hx]
    exact (mod_eq_of_lt (le_lt _ _ _)).symm
  frame := fun _ _ => rfl

def fixupWalk (f : File) (ctx : UeContext) (image : Mem) : Walk Unit :=
  walkRoots ctx.imageSize (relocTable f ctx) (ueHeaderChainedFixups f) image

/-- the loop over the table of an image is left at once -/
def LeavesEarly (f : File) (ctx : UeContext) (baseAddress : Nat) : Prop :=
  baseAddress = linkedAddress ctx ∧ ueHeaderChainedFixups f = false

/-- `InternaRelocateImage` behind its first test -/
def relocateTable (f : File) (ctx : UeContext) (baseAddress fixupData : Nat) : UeReloc Unit :=
  relocateRoots (relocTable f ctx) false
    (headStep ctx.imageSize (relocTable f ctx) (ueHeaderChainedFixups f)
      (sub64 baseAddress (linkedAddress ctx))) fixupData

lemma ueRelocateImage_early (h : LeavesEarly f ctx baseAddress)
    (hok : Relocatable f ctx) (hbase : baseAddress < 2^64) (s : RelocState) :
    ueRelocateImage f ctx baseAddress fixupData s = (.ok (), s) := by
  have hzero : sub64 baseAddress (linkedAddress ctx) = 0 := (sub64_eq_zero hbase hok.linked).mpr h.1
  unfold ueRelocateImage internaRelocateImage
  rw [if_pos (.inr ⟨hzero, h.2⟩)]
  rfl

lemma ueRelocateImage_empty (h : ctx.relocTableSize = 0) (s : RelocState) :
    ueRelocateImage f ctx baseAddress fixupData s = (.ok (), s) := by
  unfold ueRelocateImage internaRelocateImage
  rw [if_pos (.inl h)]
  rfl

lemma ueRelocateImage_late (h : ¬ LeavesEarly f ctx baseAddress) (hok : Relocatable f ctx)
    (hpos : 0 < ctx.relocTableSize) (hbase : baseAddress < 2^64) :
    ueRelocateImage f ctx baseAddress fixupData = relocateTable f ctx baseAddress fixupData := by
  unfold ueRelocateImage internaRelocateImage
  refine if_neg ?_
  rintro (hc | ⟨hc, hchain⟩)
  · exact absurd hc (ne_of_gt hpos)
  · exact h ⟨(sub64_eq_zero hbase hok.linked).mp hc, hchain⟩

lemma relocateTable_sim {live : Prop} (hok : Relocatable f ctx) (hpos : 0 < ctx.relocTableSize)
    (hcontext : live → context = some .zero) :
    Sim (relocateTable f ctx baseAddress fixupData) (fixupWalk f ctx image₀)
      (fun _ _ s xs => ∃ target n, 8 * n ≤ ctx.relocTableSize ∧
        ImageRel ctx.imageSize (sub64 baseAddress (linkedAddress ctx)) image₀ xs target s.image ∧
        Tracks live fixupData (sub64 baseAddress (linkedAddress ctx)) xs (Stage.Closed n target)
          s.context) ⟨image₀, context⟩ [] :=
  relocateRoots_sim hok.image hok.table_dvd hpos hok.table_lt hcontext

/-- if the walk gets through, then so does a relocation, to any address -/
lemma ueRelocateImage_of_walk (hok : Relocatable f ctx) (hpos : 0 < ctx.relocTableSize)
    (hwalk : fixupWalk f ctx image₀ [] = (.ok (), xs)) (hbase : baseAddress < 2^64)
    (fixupData : Nat) (context : Option RuntimeContext) :
    ∃ s target, ueRelocateImage f ctx baseAddress fixupData ⟨image₀, context⟩ = (.ok (), s) ∧
      ImageRel ctx.imageSize (sub64 baseAddress (linkedAddress ctx)) image₀ xs target s.image := by
  have hsim : Sim (relocateTable f ctx baseAddress fixupData) (fixupWalk f ctx image₀) _
      ⟨image₀, context⟩ [] := relocateTable_sim hok hpos (fun h : False => h.elim)
  obtain ⟨_, s, hs, target, n, -, himage, -⟩ := sim_ok_right hsim hwalk
  by_cases hearly : LeavesEarly f ctx baseAddress
  · refine ⟨_, target, ueRelocateImage_early hearly hok hbase _, ?_⟩
    unfold fixupWalk at hwalk
    rw [hearly.2] at hwalk
    rw [(sub64_eq_zero hbase hok.linked).mpr hearly.1]
    exact himage.unmoved (walkRoots_unmoved hwalk)
  · rw [ueRelocateImage_late hearly hok hpos hbase]
    exact ⟨s, target, hs, himage⟩

variable {s : RelocState}

/-- a relocation that gets through the table belongs to a walk that does -/
lemma walk_of_ueRelocateImage (hok : Relocatable f ctx)
    (hpos : 0 < ctx.relocTableSize) (hbase : baseAddress < 2^64) (hlate : ¬ LeavesEarly f ctx baseAddress)
    (hrun : ueRelocateImage f ctx baseAddress fixupData ⟨image₀, context⟩ = (.ok (), s)) :
    ∃ xs, fixupWalk f ctx image₀ [] = (.ok (), xs) := by
  rw [ueRelocateImage_late hlate hok hpos hbase] at hrun
  obtain ⟨_, xs, hwalk, -⟩ := sim_ok (relocateTable_sim hok hpos (fun h : False => h.elim)) hrun
  exact ⟨xs, hwalk⟩

/-! ## the two phases -/

/-- the second phase gives what a direct relocation to the same address gives -/
def TwoPhase (pcd : Pcd) (f : File) (ctx : UeContext) (image₀ image₁ : Mem) (c : RuntimeContext)
    (base₁ base₂ fixupData : Nat) : Prop :=
  ∃ s₂ s₃, ueRelocateImageForRuntime pcd base₁ ctx.imageSize c base₂ ⟨image₁, some c⟩ = (.ok (), s₂) ∧
    ueRelocateImage f ctx base₂ fixupData ⟨image₀, none⟩ = (.ok (), s₃) ∧ s₂.image = s₃.image

/-- what an image, the two addresses and the value `fixupData` that the first phase finds in
`FixupData` must satisfy -/
def RuntimeRelocatable (f : File) (ctx : UeContext) (image₀ : Mem) (base₁ base₂ fixupData : Nat) : Prop :=
  ctx.relocTableSize = 0 ∨ base₂ = base₁ ∨
    ∃ xs, fixupWalk f ctx image₀ [] = (.ok (), xs) ∧
      (LeavesEarly f ctx base₁ → ∀ x, x ∈ xs → 256^x.width ∣ sub64 base₂ base₁) ∧
      (¬ LeavesEarly f ctx base₁ → xs.length ≤ 2^29 ∧ Matches fixupData (sub64 base₁ (linkedAddress ctx)) xs)

variable {pcd : Pcd} {s₁ : RelocState} {c : RuntimeContext} {base₁ base₂ g : Nat}

lemma runtime_same (hbase : base₁ < 2^64) :
    ueRelocateImageForRuntime pcd base₁ ctx.imageSize c base₁ s = (.ok (), s) := by
  unfold ueRelocateImageForRuntime internaRelocateImageRuntime
  rw [if_pos (.inr ((sub64_eq_zero hbase hbase).mpr rfl))]
  rfl

lemma runtime_empty :
    ueRelocateImageForRuntime pcd base₁ ctx.imageSize .zero base₂ s = (.ok (), s) := rfl

/-- the first phase has left the table early: nothing is relocated in the second one -/
lemma twoPhase_early (hok : Relocatable f ctx) (hpos : 0 < ctx.relocTableSize)
    (hearly : LeavesEarly f ctx base₁) (hbase2 : base₂ < 2^64) (hwalk : fixupWalk f ctx image₀ [] = (.ok (), xs)) :
    TwoPhase pcd f ctx image₀ image₀ .zero base₁ base₂ g ↔ ∀ x, x ∈ xs → 256^x.width ∣ sub64 base₂ base₁ := by
  obtain ⟨s3, t3, hrun3, himage⟩ := ueRelocateImage_of_walk hok hpos hwalk hbase2 g none
  have hu : Unmoved image₀ xs := by
    unfold fixupWalk at hwalk
    rw [hearly.2] at hwalk
    exact walkRoots_unmoved hwalk
  have h0 := himage.unmoved hu
  rw [← hearly.1] at himage
  -- a fixup stays as it is if the distance is a multiple of its range
  have hmoved : ∀ x, x ∈ xs → (x.moved 0 = x.moved (sub64 base₂ base₁) ↔ 256^x.width ∣ sub64 base₂ base₁) := by
    intro x hx
    unfold Fixup.moved
    rw [add_zero, ← modEq_zero_iff_dvd]
    constructor
    · intro h
      exact Nat.ModEq.add_left_cancel' x.value (Nat.ModEq.symm h)
    · intro h
      exact (Nat.ModEq.add_left x.value h).symm
  constructor
  · rintro ⟨s2, s3', hrun2, hrun3', heq⟩ x hx
    rw [runtime_empty] at hrun2
    rw [hrun3] at hrun3'
    cases hrun2
    cases hrun3'
    refine (hmoved x hx).mp ?_
    rw [← h0.value x hx, ← himage.value x hx]
    exact congrArg (fun m => le m x.target x.width) heq
  · intro hdvd
    exact ⟨_, s3, runtime_empty, hrun3, h0.unique himage fun x hx => (hmoved x hx).mpr (hdvd x hx)⟩

lemma ueRelocateImage_again (hok : Relocatable f ctx) (hpos : 0 < ctx.relocTableSize) (hbase1 : base₁ < 2^64)
    (hfirst : ueRelocateImage f ctx base₁ fixupData ⟨image₀, some .zero⟩ = (.ok (), s₁)) :
    ∃ s3, ueRelocateImage f ctx base₁ g ⟨image₀, none⟩ = (.ok (), s3) ∧ s₁.image = s3.image := by
  by_cases hearly : LeavesEarly f ctx base₁
  · rw [ueRelocateImage_early hearly hok hbase1] at hfirst
    cases hfirst
    exact ⟨_, ueRelocateImage_early hearly hok hbase1 _, rfl⟩
  · obtain ⟨xs, hwalk⟩ := walk_of_ueRelocateImage hok hpos hbase1 hearly hfirst
    obtain ⟨s, t, hrun, himage⟩ := ueRelocateImage_of_walk hok hpos hwalk hbase1 fixupData (some .zero)
    obtain ⟨s3, t3, hrun3, himage3⟩ := ueRelocateImage_of_walk hok hpos hwalk hbase1 g none
    obtain rfl : s₁ = s := congrArg Prod.snd (hfirst.symm.trans hrun)
    exact ⟨s3, hrun3, himage.unique himage3 fun _ _ => rfl⟩

/-- the first phase has gone through the table: the second one relocates the image exactly when it
finds the values it compares with -/
lemma twoPhase_late (hok : Relocatable f ctx) (hpos : 0 < ctx.relocTableSize)
    (hlate : ¬ LeavesEarly f ctx base₁) (hbase1 : base₁ < 2^64) (hbase2 : base₂ < 2^64) (hne : base₂ ≠ base₁)
    (hfirst : ueRelocateImage f ctx base₁ fixupData ⟨image₀, some .zero⟩ = (.ok (), s₁))
    (hc : s₁.context = some c) (hwalk : fixupWalk f ctx image₀ [] = (.ok (), xs)) (hlen : xs.length ≤ 2^29)
    (hpcd : pcd.imageLoaderRtRelocAllowTargetMismatch = false ∨
      Matches fixupData (sub64 base₁ (linkedAddress ctx)) xs) : TwoPhase pcd f ctx image₀ s₁.image c base₁ base₂ g ↔
      Matches fixupData (sub64 base₁ (linkedAddress ctx)) xs := by
  obtain ⟨s3, t3, hrun3, himage3⟩ := ueRelocateImage_of_walk hok hpos hwalk hbase2 g none
  rw [ueRelocateImage_late hlate hok hpos hbase1] at hfirst
  have hsim : Sim (relocateTable f ctx base₁ fixupData) (fixupWalk f ctx image₀) _
      ⟨image₀, some .zero⟩ [] := relocateTable_sim hok hpos (fun _ : True => rfl)
  obtain ⟨_, xs', hwalk', t1, n, hn, himage1, htracks⟩ := sim_ok hsim hfirst
  obtain rfl : xs = xs' := congrArg Prod.snd (hwalk.symm.trans hwalk')
  obtain ⟨c', hc', hstage⟩ := htracks trivial
  obtain rfl : c = c' := Option.some.inj (hc.symm.trans hc')
  obtain ⟨stage, hclosed, hcontext⟩ := hstage hlen
  have hready : RuntimeReady ctx.imageSize fixupData (sub64 base₁ (linkedAddress ctx))
      (sub64 base₂ (linkedAddress ctx)) (sub64 base₂ base₁) image₀ s₁.image s3.image xs c :=
    ⟨⟨t1, himage1⟩, ⟨t3, himage3⟩, hcontext.data, sub64_add hok.linked hbase1 hbase2, hok.image⟩
  have hn' : 8 * n + 8 ≤ 2^32 := by
    have h8 := hok.table_dvd
    have hlt := hok.table_lt
    omega
  have hspec := ueRelocateImageForRuntime_spec hready hpcd hclosed hcontext hn' hlen rfl
    (fun h => hne ((sub64_eq_zero hbase2 hbase1).mp h))
  constructor
  · rintro ⟨s2, -, hrun2, -, -⟩
    exact (wp_ok hspec hrun2).2
  · intro hm
    obtain ⟨hrun2, heq, -⟩ := wp_total (wp_mono hspec (fun _ _ h => h) (fun _ _ h => h hm))
    exact ⟨_, s3, Prod.ext hrun2 rfl, hrun3, heq⟩

/-- **the two phases of an accepted image**: the second phase gives the image of a direct relocation
if the image is `RuntimeRelocatable`, and only then where a changed target is an error -/
theorem ueRelocateImageForRuntime_twoPhase (hrun : ueInitializeContext f false = (.ok ctx, w))
    (hbase₁ : base₁ < 2^64) (hbase₂ : base₂ < 2^64)
    (hfirst : ueRelocateImage f ctx base₁ fixupData ⟨image₀, some .zero⟩ = (.ok (), s₁)) (hc : s₁.context = some c) :
    (RuntimeRelocatable f ctx image₀ base₁ base₂ fixupData → TwoPhase pcd f ctx image₀ s₁.image c base₁ base₂ g) ∧
    (pcd.imageLoaderRtRelocAllowTargetMismatch = false →
      (∀ xs, fixupWalk f ctx image₀ [] = (.ok (), xs) → xs.length ≤ 2^29) →
      TwoPhase pcd f ctx image₀ s₁.image c base₁ base₂ g →
      RuntimeRelocatable f ctx image₀ base₁ base₂ fixupData) := by
  have hok := relocatable_of_run hrun
  by_cases hsize : ctx.relocTableSize = 0
  · rw [ueRelocateImage_empty hsize] at hfirst
    cases hfirst
    obtain rfl : RuntimeContext.zero = c := Option.some.inj hc
    exact ⟨fun _ => ⟨_, _, runtime_empty, ueRelocateImage_empty hsize _, rfl⟩, fun _ _ _ => .inl hsize⟩
  have hpos : 0 < ctx.relocTableSize := pos_of_ne_zero hsize
  by_cases hne : base₂ = base₁
  · subst hne
    refine ⟨fun _ => ?_, fun _ _ _ => .inr (.inl rfl)⟩
    obtain ⟨s3, hrun3, heq⟩ := ueRelocateImage_again hok hpos hbase₁ hfirst
    exact ⟨⟨s₁.image, some c⟩, s3, runtime_same hbase₁, hrun3, heq⟩
  by_cases hearly : LeavesEarly f ctx base₁
  · rw [ueRelocateImage_early hearly hok hbase₁] at hfirst
    cases hfirst
    obtain rfl : RuntimeContext.zero = c := Option.some.inj hc
    constructor
    · rintro (h | h | ⟨xs, hwalk, h⟩)
      · exact absurd h hsize
      · exact absurd h hne
      · exact (twoPhase_early hok hpos hearly hbase₂ hwalk).mpr (h.1 hearly)
    · rintro - - htwo
      have hlate : ¬ LeavesEarly f ctx base₂ := fun h => hne (h.1.trans hearly.1.symm)
      obtain ⟨_, s3, -, hrun3, -⟩ := id htwo
      obtain ⟨xs, hwalk⟩ := walk_of_ueRelocateImage hok hpos hbase₂ hlate hrun3
      refine .inr (.inr ⟨xs, hwalk, fun _ => ?_, fun h => absurd hearly h⟩)
      exact (twoPhase_early hok hpos hearly hbase₂ hwalk).mp htwo
  · obtain ⟨xs, hwalk⟩ := walk_of_ueRelocateImage hok hpos hbase₁ hearly hfirst
    constructor
    · rintro (h | h | ⟨xs', hwalk', h⟩)
      · exact absurd h hsize
      · exact absurd h hne
      · obtain ⟨hlen, hm⟩ := h.2 hearly
        exact (twoPhase_late hok hpos hearly hbase₁ hbase₂ hne hfirst hc hwalk' hlen (.inr hm)).mpr hm
    · intro hpcd hlen htwo
      refine .inr (.inr ⟨xs, hwalk, fun h => absurd h hearly, fun _ => ?_⟩)
      exact ⟨hlen xs hwalk, (twoPhase_late hok hpos hearly hbase₁ hbase₂ hne hfirst hc hwalk
        (hlen xs hwalk) (.inl hpcd)).mp htwo⟩

end

/-- an image with one fixup, as a chain of one link or as the head of an unchained table -/
def fixupImage (chained : Bool) : File where
  bytes := ofFields [(0, 2, ueHeaderMagic), (3, 1, 1), (8, 8, if chained then 2^59 else 0),
    (16, 4, 0x100001), (20, 4, 4), (24, 4, 1), (28, 4, 0xFFF), (36, 2, 0xFFF0)]
  size := 40
  size_lt := by norm_num

def fixupContext : UeContext where
  fileSize := 40
  subsystem := 0
  machine := 0
  fixedAddress := false
  xip := false
  lastSegmentIndex := 0
  segmentsFileOffset := 28
  segmentAlignment := 0x1000
  relocsStripped := false
  numLoadTables := 1
  loadTablesFileOffset := 32
  relocTableSize := 8
  imageSize := 0x1000
  entryPointAddress := 0
  baseAddress := 0

def fixupMem (chained : Bool) : Mem := ueLoadImage (fixupImage chained) fixupContext (fun _ => 0) 0x1000

/-- the first phase at `base`, with `0` in `FixupData` -/
def fixupFirst (chained : Bool) (base : Nat) : Except Status Unit × RelocState :=
  ueRelocateImage (fixupImage chained) fixupContext base 0 ⟨fixupMem chained, some .zero⟩

lemma fixupImage_run (chained : Bool) :
    ueInitializeContext (fixupImage chained) false = (.ok fixupContext, false) := by
  cases chained <;> decide +kernel

lemma fixupFirst_context (chained : Bool) :
    ∃ s₁ c, fixupFirst chained 0x10000 = (.ok (), s₁) ∧ s₁.context = some c := by
  have hfirst : (fixupFirst chained 0x10000).1 = .ok () := by cases chained <;> decide +kernel
  obtain ⟨c, hc⟩ := Option.isSome_iff_exists.mp
    (show ((fixupFirst chained 0x10000).2.context).isSome = true by cases chained <;> decide +kernel)
  exact ⟨_, c, Prod.ext hfirst rfl, hc⟩

theorem chainedImage_twoPhase :
    ∃ s₁ c, fixupFirst true 0x10000 = (.ok (), s₁) ∧ s₁.context = some c ∧
      TwoPhase Pcd.default (fixupImage true) fixupContext (fixupMem true) s₁.image c 0x10000 0x20000 0 := by
  have hwalk : fixupWalk (fixupImage true) fixupContext (fixupMem true) [] =
      (.ok (), [⟨0, 0, 4, 0, true⟩]) := by decide +kernel
  have hmatch : ∀ adjust, Matches 0 adjust [⟨0, 0, 4, 0, true⟩] := by
    intro adjust done x rest hx hrec
    have hmem : x ∈ done ++ x :: rest := mem_append_right _ mem_cons_self
    rw [← hx, mem_singleton] at hmem
    rw [hmem] at hrec
    exact Bool.noConfusion hrec
  obtain ⟨s₁, c, hfirst, hc⟩ := fixupFirst_context true
  refine ⟨s₁, c, hfirst, hc, ?_⟩
  refine (ueRelocateImageForRuntime_twoPhase (fixupImage_run true) (by norm_num) (by norm_num) hfirst hc).1
    (.inr (.inr ⟨_, hwalk, fun h => ?_, fun _ => ⟨?_, hmatch _⟩⟩))
  · exact absurd h.1 (by decide +kernel)
  · decide

/-- in an unchained image the second phase finds another value in `FixupData` than at the target, or
it finds an empty table if the first one was for the address the image is linked for -/
theorem unchainedImage_not_twoPhase :
    (∃ s₁ c, fixupFirst false 0x10000 = (.ok (), s₁) ∧ s₁.context = some c ∧
      ¬ TwoPhase Pcd.default (fixupImage false) fixupContext (fixupMem false) s₁.image c 0x10000 0x20000 0) ∧
    (∃ s₁ c, fixupFirst false 0 = (.ok (), s₁) ∧ s₁.context = some c ∧
      ¬ TwoPhase Pcd.default (fixupImage false) fixupContext (fixupMem false) s₁.image c 0 0x20000 0) := by
  have hok := relocatable_of_run (fixupImage_run false)
  have hpos : 0 < fixupContext.relocTableSize := by decide
  have hwalk : fixupWalk (fixupImage false) fixupContext (fixupMem false) [] =
      (.ok (), [⟨0, 0, 4, 0xFFF, false⟩]) := by decide +kernel
  constructor
  · obtain ⟨s₁, c, hfirst, hc⟩ := fixupFirst_context false
    have hlate : ¬ LeavesEarly (fixupImage false) fixupContext 0x10000 := fun h => absurd h.1 (by decide +kernel)
    refine ⟨s₁, c, hfirst, hc, fun htwo => ?_⟩
    have hm := (twoPhase_late hok hpos hlate (by norm_num) (by norm_num) (by norm_num) hfirst hc hwalk (by decide) (.inl rfl)).mp htwo
    exact absurd (hm [] _ [] rfl rfl) (by decide +kernel)
  · have hearly : LeavesEarly (fixupImage false) fixupContext 0 := ⟨by decide, by decide +kernel⟩
    refine ⟨_, _, ueRelocateImage_early hearly hok (by norm_num) _, rfl, fun htwo => ?_⟩
    have hdvd := (twoPhase_early hok hpos hearly (by norm_num) hwalk).mp htwo
    exact absurd (hdvd _ mem_cons_self) (by decide +kernel)

end Audk.Ue
