import Audk.Ue.LoadContract
import Audk.Ue.TwoPhase

/-!
# The table that the first phase leaves in the runtime context

The first phase writes an unchained copy of the table while it goes through the chains.  It is read with the walk over
tables without chains.

* `Unchained`: both are the same, and there is one value for each of them;
* `ueRelocateImage_unchained_iff`: it is so exactly as long as `FixupSize` does not wrap.
-/

namespace Audk.Ue

open Bytes Prog Arith List Nat Bool

/-! ## reading a table without chains -/

lemma walkRootStep_eq (imageSize : Nat) (table : RelocTable) (chaining : Bool) (image : Mem) :
    walkRootStep imageSize table chaining image = fixRoot table (walkHeadStep imageSize table chaining image) := by
  funext t
  unfold walkRootStep fixRoot
  rfl

lemma bind_return {σ ε α β γ : Type} (x : Prog σ ε α) (f : α → β) (g : β → Prog σ ε γ) :
    ((x >>= fun a => pure (f a)) >>= g) = (x >>= fun a => g (f a)) := by
  funext s
  simp only [Bind.bind, Pure.pure]
  rcases x s with ⟨_ | a, s'⟩ <;> rfl

lemma walkHeadFixups_eq (imageSize : Nat) (image : Mem) (info : Nat) (t : TableState) :
    walkHeadFixups imageSize false image info t =
      walkFixup imageSize (info % 2^4) t.relocTarget image >>= fun r => pure { t with relocTarget := r } :=
  if_neg fun h => Bool.false_ne_true h.1

lemma walkHeadFixups_chained {imageSize : Nat} {image : Mem} {info : Nat} {t : TableState}
    (h : info % 2^4 ≠ ueReloc32NoMeta) : walkHeadFixups imageSize true image info t =
      walkChain imageSize (info % 2^4) t.relocTarget image >>= fun r => pure { t with relocTarget := r } :=
  if_pos ⟨rfl, h⟩

lemma walkHeadStep_eq (imageSize : Nat) (table : RelocTable) (image : Mem) :
    walkHeadStep imageSize table false image =
      fixHead table (fun type target _ => walkFixup imageSize type target image) id := by
  funext t
  unfold walkHeadStep fixHead
  show (walkHeadFixups imageSize false image (le table.bytes t.tableOffset 2) _ >>= fun t' =>
    nextHead table (le table.bytes t.tableOffset 2) t') = _
  rw [walkHeadFixups_eq]
  exact bind_return _ _ _

lemma walkRoots_eq (imageSize : Nat) (table : RelocTable) (image : Mem) :
    walkRoots imageSize table false image = fixRoots table
      (fixHead table (fun type target _ => walkFixup imageSize type target image) id) 0 := by
  unfold walkRoots fixRoots
  rw [walkRootStep_eq, walkHeadStep_eq]

/-- a walk over the table of a runtime context -/
def decodeUnchained (imageSize : Nat) (c : RuntimeContext) (image : Mem) : Walk Unit :=
  if c.unchainedRelocsSize = 0 then pure ()
  else walkRoots imageSize ⟨c.unchainedRelocs, c.unchainedRelocsSize⟩ false image

section
variable {imageSize : Nat} {image : Mem} {spots : List (Nat × Nat)} {c : RuntimeContext}

section
variable (himage : imageSize + 2^12 ≤ 2^32)
include himage

lemma walkFixup_spec {type target w : Nat} {xs : List Fixup} (hw : relocWidth type = some w) (hfits : target + w ≤ imageSize) : wp (walkFixup imageSize type target image)
      (fun t ys => t = target + w ∧ ys.map Fixup.spot = xs.map Fixup.spot ++ [(type, target)])
      (fun _ _ => False) xs := by
  have hsub : (baseOverflowSubU32 imageSize target).1 = false := baseOverflowSubU32_fst.mpr (by omega)
  unfold walkFixup
  rw [wp_bind, wp_stopIf, hsub, baseOverflowSubU32_snd (by omega) hsub, hw]
  refine ⟨fun hc => absurd hc false_ne_true, fun _ => ?_⟩
  show wp (stopIf _ _ >>= _) _ _ xs
  refine wp_stopIf_bind (fun hc => absurd hc (by omega)) fun _ => ?_
  rw [wp_bind, wp_modify, wp_pure]
  exact ⟨add32_eq (by omega), map_append⟩

lemma walk_traversal (hspots : ∀ x ∈ spots, relocWidth x.1 = some (spotWidth x) ∧ x.2 + spotWidth x ≤ imageSize) (image : Mem) :
    Traversal imageSize (fun type target _ => walkFixup imageSize type target image) id spots
      (fun done u t _ xs => t = u ∧ xs.map Fixup.spot = done) (fun _ _ => False) where
  image := himage
  width x hx := (hspots x hx).1
  fits x hx := (hspots x hx).2
  behind h := le_of_eq h.1
  advance hx hle h := ⟨by rw [h.1]; exact Nat.add_sub_cancel' hle, h.2⟩
  step := by
    intro done x rest t d xs hx h
    obtain ⟨rfl, rfl⟩ := h
    have hmem : x ∈ spots := hx ▸ mem_append_right _ mem_cons_self
    exact walkFixup_spec himage (hspots x hmem).1 (hspots x hmem).2

lemma decodeUnchained_spec {rs : List Root} (hc : Between c rs)
    (hok : ∀ r ∈ rs, r.Ok) (hlt : rootsSize rs < 2^32)
    (hspots : ∀ x ∈ rootSpots 0 rs, relocWidth x.1 = some (spotWidth x) ∧ x.2 + spotWidth x ≤ imageSize)
    (image : Mem) :
    ∃ ys, decodeUnchained imageSize c image [] = (.ok (), ys) ∧ ys.map Fixup.spot = rootSpots 0 rs := by
  unfold decodeUnchained
  by_cases h0 : c.unchainedRelocsSize = 0
  · rw [if_pos h0]
    rw [hc.size, rootsSize_eq_zero] at h0
    subst h0
    exact ⟨[], rfl, rfl⟩
  rw [if_neg h0, walkRoots_eq]
  have hmin := hc.six_le hok h0
  have hlt' : (RelocTable.mk c.unchainedRelocs c.unchainedRelocsSize).size < 2^32 := by
    show c.unchainedRelocsSize < 2^32
    rw [hc.size]
    exact hlt
  have ht := walk_traversal himage hspots image
  have hwalk := ht.roots hlt' hmin hok rfl hc.roots hc.size.symm 0 [] ⟨rfl, rfl⟩
  obtain ⟨_, ys, hres, u, t, d, -, hys⟩ := wp_returns hwalk
  exact ⟨ys, hres, hys⟩

end

end

/-! ## the size of the recorded values -/

def ContextHolds (I : RuntimeContext → Prop) (s : RelocState) : Prop := ∀ c, s.context = some c → I c

/-- the updates of the first phase keep `I` -/
structure Kept (I : RuntimeContext → Prop) : Prop where
  append : ∀ size value data c, I c → I (c.append size value data)
  setOffset : ∀ offset c, I c → I (c.setOffset offset)

section
variable {I : RuntimeContext → Prop} {s : RelocState}

lemma unchainReloc_keeps {update : RuntimeContext → RuntimeContext} {E : Status → RelocState → Prop}
    (hupdate : ∀ c, I c → I (update c)) (h : ContextHolds I s) :
    wp (unchainReloc false update) (fun _ => ContextHolds I) E s := by
  intro c' hc'
  obtain ⟨c, hc, rfl⟩ := Option.map_eq_some_iff.mp hc'
  exact hupdate c (h c hc)

variable (hI : Kept I)
include hI

variable {imageSize adjust : Nat} {chaining : Bool} {table : RelocTable} {t : TableState}

section
variable (h : ContextHolds I s)
include h

lemma chainStep_keeps {c : ChainState} :
    wp (chainStep imageSize adjust c) (fun _ => ContextHolds I) (fun _ _ => True) s := by
  unfold chainStep
  refine wp_stopIf_bind (fun _ => trivial) fun _ => ?_
  refine wp_stopIf_bind (fun _ => trivial) fun _ => ?_
  refine wp_stopIf_bind (fun _ => trivial) fun _ => ?_
  rw [wp_bind, wp_gets]
  cases link s.image c.relocType c.relocTarget with
  | none => exact trivial
  | some l =>
    show wp (modify _ >>= _) _ _ s
    rw [wp_bind, wp_modify]
    refine wp_seq (unchainReloc_keeps (hI.append _ _ _) h) (fun _ s' h' => ?_)
    rw [wp_ite]
    exact ⟨fun _ => h', fun _ => h'⟩

lemma headFixups_keeps {imageSize adjust info : Nat} :
    wp (headFixups imageSize chaining adjust info t) (fun _ => ContextHolds I) (fun _ _ => True) s := by
  unfold headFixups
  rw [wp_ite]
  refine ⟨fun _ => ?_, fun _ => ?_⟩
  · unfold internalProcessRelocChain
    rw [wp_bind, wp_bind]
    exact wp_post (wp_repeatWhile (fun _ => ContextHolds I) (fun c s h _ => chainStep_keeps hI h) (fun _ => trivial) _ h)
      (fun _ _ h => h)
  · have happly : wp (internalApplyRelocation imageSize (info % 2^4) t.relocTarget adjust t.fixupData)
        (fun _ => ContextHolds I) (fun _ _ => True) s := by
      unfold internalApplyRelocation
      refine wp_stopIf_bind (fun _ => trivial) fun _ => ?_
      cases relocWidth (info % 2^4) with
      | none => exact trivial
      | some width =>
        show wp (stopIf _ _ >>= _) _ _ s
        rw [wp_bind, wp_stopIf]
        exact ⟨fun _ => trivial, fun _ => h⟩
    refine wp_seq happly (fun r s' h' => ?_)
    rw [wp_bind]
    exact wp_post (unchainReloc_keeps (hI.append _ _ _) h') (fun _ _ h => h)

lemma headStep_keeps :
    wp (headStep imageSize table chaining adjust t) (fun _ => ContextHolds I) (fun _ _ => True) s := by
  unfold headStep
  refine wp_seq (headFixups_keeps hI h) (fun t' s' h' => ?_)
  refine wp_seq (unchainReloc_keeps (hI.setOffset _) h') (fun _ s'' h'' => ?_)
  unfold nextHead
  rw [wp_ite]
  refine ⟨fun _ => h'', fun _ => ?_⟩
  rw [wp_bind, wp_stopIf]
  exact ⟨fun _ => trivial, fun _ => h''⟩

lemma relocateRoots_keeps {imageSize adjust fixupData : Nat} :
    wp (relocateRoots table false (headStep imageSize table chaining adjust) fixupData) (fun _ => ContextHolds I)
      (fun _ _ => True) s := by
  unfold relocateRoots
  refine wp_seq (wp_repeatWhile (fun _ => ContextHolds I) (fun t s h _ => ?_) (fun _ => trivial) _ h) (fun _ _ h => h)
  unfold rootStep
  refine wp_stopIf_bind (fun _ => trivial) fun _ => ?_
  refine wp_seq (unchainReloc_keeps (hI.append _ _ _) h) (fun _ s' h' => ?_)
  rw [wp_bind]
  exact wp_post (wp_repeatWhile (fun _ => ContextHolds I) (fun t s h _ => headStep_keeps hI h) (fun _ => trivial) _ h')
    (fun _ _ h => h)

end

end

/-- `FixupSize` is a `UINT32`, and the buffer has the size it had before the last addition -/
def FixupsOk (c : RuntimeContext) : Prop := c.fixupSize < 2^32 ∧ c.fixupData.length ≤ 2^29

lemma fixupsOk_kept : Kept FixupsOk where
  append := by
    intro size value data c h
    cases data with
    | none => exact h
    | some d =>
      refine ⟨add32_lt _ _, ?_⟩
      show (c.fixupData.take (c.fixupSize / 8) ++ [d]).length ≤ 2^29
      have hsize := h.1
      rw [length_append, length_take, length_singleton]
      omega
  setOffset := by
    intro offset c h
    unfold FixupsOk
    rw [(c.setOffset_data offset).1, (c.setOffset_data offset).2]
    exact h

/-! ## the whole first phase -/

/-- the fixups that the first phase applies if it goes through the table -/
def appliedFixups (f : File) (ctx : UeContext) (image : Mem) : Walk Unit :=
  if ctx.relocTableSize = 0 then pure () else fixupWalk f ctx image

/-- the runtime context lists the fixups, with a value for each of them -/
structure Unchained (imageSize : Nat) (c : RuntimeContext) (xs : List Fixup) : Prop where
  table : ∀ image, ∃ ys, decodeUnchained imageSize c image [] = (.ok (), ys) ∧ ys.map Fixup.spot = xs.map Fixup.spot
  data : c.fixupData.length = xs.length
  size : c.fixupSize = 8 * xs.length
  aligned : 4 ∣ c.unchainedRelocsSize

section
variable {f : File} {ctx : UeContext} {w : Bool} {image₀ : Mem} {s₁ : RelocState} {c : RuntimeContext}
  {xs : List Fixup} {base fixupData : Nat}

lemma ImageRel.spots {imageSize adjust target : Nat} {image : Mem}
    (h : ImageRel imageSize adjust image₀ xs target image) :
    ∀ x ∈ xs.map Fixup.spot, relocWidth x.1 = some (spotWidth x) ∧ x.2 + spotWidth x ≤ imageSize := by
  intro y hy
  obtain ⟨x, hx, rfl⟩ := mem_map.mp hy
  have hw := h.width x hx
  have hwidth : spotWidth x.spot = x.width := by
    show (relocWidth x.relocType).getD 0 = x.width
    rw [hw]
    rfl
  rw [hwidth]
  exact ⟨hw, h.fits x hx⟩

lemma Stage.Closed.unchained {imageSize adjust target n t : Nat} {image : Mem} {st : Stage}
    (himage : imageSize + 2^12 ≤ 2^32) (hclosed : st.Closed n t) (hc : ContextRel fixupData adjust xs st c)
    (hrel : ImageRel imageSize adjust image₀ xs target image) (hn : 8 * n + 8 ≤ 2^32) (hlen : xs.length < 2^29) :
    Unchained imageSize c xs := by
  obtain ⟨rs, rfl, hrs, hok, -⟩ := hclosed
  have hbetween : Between c rs := hc.table
  have hspots : rootSpots 0 rs = xs.map Fixup.spot := hc.spots
  have hlt : rootsSize rs < 2^32 := by
    have := rootsSize_le 0 rs
    rw [hspots, length_map] at this
    omega
  refine ⟨fun image => ?_, ?_, ?_, ?_⟩
  · obtain ⟨ys, hys, hmap⟩ := decodeUnchained_spec himage hbetween hok hlt (hspots ▸ hrel.spots) image
    exact ⟨ys, hys, hmap.trans hspots⟩
  · rw [hc.data, recordedData_length]
  · rw [hc.size]
    exact mod_eq_of_lt (by omega)
  · rw [hbetween.size]
    exact dvd_rootsSize rs

lemma Unchained.length_lt {imageSize : Nat} (h : Unchained imageSize c xs) (hlt : c.fixupSize < 2^32) :
    xs.length < 2^29 := by
  rw [h.size] at hlt
  omega

lemma relocateTable_fixupsOk {image : Mem}
    (hfirst : relocateTable f ctx base fixupData ⟨image, some .zero⟩ = (.ok (), s₁)) (hc : s₁.context = some c) :
    FixupsOk c := by
  have hstart : ContextHolds FixupsOk ⟨image, some .zero⟩ := by
    intro c hc
    cases hc
    exact ⟨Nat.pow_pos (by norm_num), Nat.zero_le _⟩
  exact wp_ok (relocateRoots_keeps fixupsOk_kept hstart) hfirst c hc

/-- **the table in the runtime context lists the fixups that were applied, with a value for each of them, exactly as
long as the size of the values fits into 32 bits** -/
theorem ueRelocateImage_unchained_iff (hrun : ueInitializeContext f false = (.ok ctx, w)) (hbase : base < 2^64)
    (hlate : ¬ LeavesEarly f ctx base)
    (hfirst : ueRelocateImage f ctx base fixupData ⟨image₀, some .zero⟩ = (.ok (), s₁)) (hc : s₁.context = some c) :
    ∃ xs target, appliedFixups f ctx image₀ [] = (.ok (), xs) ∧
      ImageRel ctx.imageSize (sub64 base (linkedAddress ctx)) image₀ xs target s₁.image ∧
      (Unchained ctx.imageSize c xs ↔ xs.length < 2^29) := by
  have hok := relocatable_of_run hrun
  unfold appliedFixups
  by_cases hsize : ctx.relocTableSize = 0
  · rw [ueRelocateImage_empty hsize] at hfirst
    cases hfirst
    obtain rfl : RuntimeContext.zero = c := Option.some.inj hc
    rw [if_pos hsize]
    refine ⟨[], 0, rfl, imageRel_nil _ _ _ _, ?_⟩
    exact iff_of_true ⟨fun _ => ⟨[], rfl, rfl⟩, rfl, rfl, dvd_zero 4⟩ (by norm_num)
  have hpos : 0 < ctx.relocTableSize := pos_of_ne_zero hsize
  rw [if_neg hsize]
  rw [ueRelocateImage_late hlate hok hpos hbase] at hfirst
  have hsim : Sim (relocateTable f ctx base fixupData) (fixupWalk f ctx image₀) _ ⟨image₀, some .zero⟩ [] :=
    relocateTable_sim hok hpos (fun _ : True => rfl)
  obtain ⟨_, xs, hwalk, target, n, hn, himage, htracks⟩ := sim_ok hsim hfirst
  refine ⟨xs, target, hwalk, himage, fun h => h.length_lt (relocateTable_fixupsOk hfirst hc).1, fun hlen => ?_⟩
  · obtain ⟨c', hc', hstage⟩ := htracks trivial
    obtain rfl : c = c' := Option.some.inj (hc.symm.trans hc')
    obtain ⟨st, hclosed, hcontext⟩ := hstage (by omega)
    have h8 := hok.table_dvd
    have hlt := hok.table_lt
    exact hclosed.unchained hok.image hcontext himage (by omega) hlen

end

/-! ## an image with more fixups than `FixupSize` counts -/

theorem chainedImage_unchained : ∃ s₁ c xs, fixupFirst true 0x10000 = (.ok (), s₁) ∧ s₁.context = some c ∧
    appliedFixups (fixupImage true) fixupContext (fixupMem true) [] = (.ok (), xs) ∧
    Unchained fixupContext.imageSize c xs := by
  have hwalk : appliedFixups (fixupImage true) fixupContext (fixupMem true) [] =
      (.ok (), [⟨0, 0, 4, 0, true⟩]) := by decide +kernel
  have hlate : ¬ LeavesEarly (fixupImage true) fixupContext 0x10000 := fun h => absurd h.1 (by decide +kernel)
  obtain ⟨s₁, c, hfirst, hc⟩ := fixupFirst_context true
  obtain ⟨xs, -, hxs, -, hiff⟩ := ueRelocateImage_unchained_iff (fixupImage_run true) (by norm_num) hlate hfirst hc
  refine ⟨s₁, c, xs, hfirst, hc, hxs, hiff.mpr ?_⟩
  obtain rfl : _ = xs := congrArg Prod.snd (hwalk.symm.trans hxs)
  decide

/-- a small chained file: its first segment has 2 GiB of zeros, which is a chain of `2^29` fixups; the second one holds
the last link -/
def longImage : File where
  bytes := ofFields [(0, 2, ueHeaderMagic), (3, 1, 9), (8, 8, 2^59), (16, 4, 0x180000), (24, 4, 0x100001), (28, 4, 4),
    (32, 4, 1), (36, 4, 0xFFF), (44, 2, 0xFFF0)]
  size := 48
  size_lt := by norm_num

def longContext : UeContext :=
  { fixupContext with
    fileSize := 48, lastSegmentIndex := 1, segmentsFileOffset := 36, loadTablesFileOffset := 40,
    imageSize := 0x80001000 }

lemma longImage_run : ueInitializeContext longImage false = (.ok longContext, false) := by decide +kernel

variable {imageSize n : Nat} {image : Mem}

lemma walkChain_zeros (himage : imageSize + 2^12 ≤ 2^32)
    (hfits : 4 * n + 4 ≤ imageSize) (hzero : ∀ k, k < n → le image (4 * k) 4 = 0)
    (hlast : le image (4 * n) 4 = 0xFFF) : ∀ (r k fuel : Nat) (xs : List Fixup), k + r = n →
      wp (repeatWhile (fun c => c.finished = false) (walkChainStep imageSize image) .aborted (fuel + r + 2)
          ⟨ueReloc32, 4 * k, false⟩)
        (fun _ ys => ys.length = xs.length + r + 1) (fun _ _ => False) xs := by
  -- one turn of the loop
  have hturn : ∀ (k info fuel : Nat) (xs : List Fixup) (Q : ChainState → List Fixup → Prop), k ≤ n →
      le image (4 * k) 4 = info →
      (∀ ys : List Fixup, ys.length = xs.length + 1 →
        wp (repeatWhile (fun c => c.finished = false) (walkChainStep imageSize image) .aborted fuel
          (if info % 2^12 = ueFixupOffsetEnd then ⟨ueReloc32, 4 * k + 4, true⟩
            else ⟨ueReloc32, add32 (4 * k + 4) (info % 2^12), false⟩)) Q (fun _ _ => False) ys) →
      wp (repeatWhile (fun c => c.finished = false) (walkChainStep imageSize image) .aborted (fuel + 1)
          ⟨ueReloc32, 4 * k, false⟩) Q (fun _ _ => False) xs := by
    intro k info fuel xs Q hk hinfo hnext
    have hsub : (baseOverflowSubU32 imageSize (4 * k)).1 = false := baseOverflowSubU32_fst.mpr (by omega)
    have hlink : link image ueReloc32 (4 * k) = some ⟨4, info / 2^12, info % 2^12, ueReloc32⟩ := by
      unfold link
      rw [if_neg (by decide), if_pos rfl, hinfo]
    have hadd : add32 (4 * k) 4 = 4 * k + 4 := add32_eq (by omega)
    have h4 : linkWidth ueReloc32 = 4 := rfl
    rw [wp_repeatWhile_succ]
    refine ⟨fun _ => ?_, fun hc => absurd rfl hc⟩
    unfold walkChainStep
    rw [wp_bind, wp_stopIf, hsub, baseOverflowSubU32_snd (by omega) hsub]
    refine ⟨fun hc => absurd hc false_ne_true, fun _ => ?_⟩
    refine wp_stopIf_bind (fun hc => absurd rfl hc.2) fun _ => ?_
    rw [wp_bind, wp_stopIf, h4]
    refine ⟨fun hc => absurd hc (by omega), fun _ => ?_⟩
    rw [hlink]
    show wp (modify _ >>= _) _ _ xs
    rw [wp_bind, wp_modify, hadd, wp_ite]
    have hlen := hnext (xs ++ [⟨ueReloc32, 4 * k, 4, info / 2^12, true⟩]) length_append
    refine ⟨fun hend => ?_, fun hend => ?_⟩
    · rw [if_pos hend] at hlen
      exact hlen
    · rw [if_neg hend] at hlen
      exact hlen
  intro r
  induction r with
  | zero =>
    intro k fuel xs hk
    refine hturn k 0xFFF (fuel + 1) xs _ (by omega) (by rw [show k = n by omega]; exact hlast) (fun ys hys => ?_)
    rw [if_pos (by decide), wp_repeatWhile_succ]
    exact ⟨fun hc => Bool.noConfusion hc, fun _ => hys⟩
  | succ r ih =>
    intro k fuel xs hk
    refine hturn k 0 (fuel + r + 2) xs _ (by omega) (hzero k (by omega)) (fun ys hys => ?_)
    have hadd : add32 (4 * k + 4) (0 % 2^12) = 4 * (k + 1) := by
      rw [zero_mod, add32_eq (by omega)]
      omega
    rw [if_neg (by decide), hadd]
    refine wp_post (ih (k + 1) fuel ys (by omega)) (fun _ zs hzs => ?_)
    rw [hzs, hys]
    omega

def longMem : Mem := ueLoadImage longImage longContext (fun _ => 0) 0x80001000

lemma longMem_loads : Loads longImage longContext 0x80001000 fun _ => 0 :=
  (initialized_of_run longImage_run).loads (by decide +kernel) (by decide) (by norm_num) _

lemma longMem_zero {k : Nat} (hk : k < 2^29) : le longMem (4 * k) 4 = 0 := by
  have hn : numSegments longImage = 2 := by decide +kernel
  have h0 : segmentAddress longImage 0 + (segmentAt longImage 0).fileSize = 0 := by decide +kernel
  have h1 : segmentAddress longImage 1 = 2^31 := by decide +kernel
  have hsame : SameOn longMem (fun _ => 0) (4 * k) (4 * k + 4) := by
    intro i hlo hhi
    refine longMem_loads.zeros i (by omega) (fun j hj hdata => ?_)
    rw [hn] at hj
    unfold InData at hdata
    rcases (show j = 0 ∨ j = 1 by omega) with rfl | rfl
    · omega
    · omega
  exact le_congr hsame

lemma longMem_last : le longMem (2^31) 4 = 0xFFF := by
  have h1 : segmentAddress longImage 1 = 2^31 := by decide +kernel
  have hfs : (segmentAt longImage 1).fileSize = 4 := by decide +kernel
  have hoff : segmentFileOffset longImage 1 = 36 := by decide +kernel
  have hn : numSegments longImage = 2 := by decide +kernel
  have hbyte : ∀ i, i < 4 → longMem (2^31 + i) = longImage.bytes (36 + i) := by
    intro i hi
    have := longMem_loads.data 1 (by rw [hn]; norm_num) i (by rw [hfs]; exact hi)
    rw [h1, hoff] at this
    exact this
  rw [le_eq_of_bytes hbyte]
  decide +kernel

lemma walkChain_length (himage : imageSize + 2^12 ≤ 2^32)
    (hfits : 4 * n + 4 ≤ imageSize) (hzero : ∀ k, k < n → le image (4 * k) 4 = 0)
    (hlast : le image (4 * n) 4 = 0xFFF) (target : Nat) (htarget : target = 4 * 0) :
    wp (walkChain imageSize ueReloc32 target image) (fun _ xs => xs.length = n + 1) (fun _ _ => False) [] := by
  unfold walkChain
  rw [wp_bind, htarget, show imageSize + 2 = (imageSize - n) + n + 2 by omega]
  refine wp_post (walkChain_zeros himage hfits hzero hlast n 0 _ [] (zero_add n)) (fun c xs hxs => ?_)
  rw [wp_pure, hxs, length_nil, zero_add]

lemma walkRoots_zeros {table : RelocTable} (hchain : ∀ target, target = 4 * 0 →
      wp (walkChain imageSize ueReloc32 target image) (fun _ xs => xs.length = n + 1) (fun _ _ => False) [])
    (hsize : table.size = 8) (hfirst : le table.bytes 0 4 = 0) (hinfo : le table.bytes 4 2 = 0xFFF0) :
    wp (walkRoots imageSize table true image) (fun _ xs => xs.length = n + 1) (fun _ _ => False) [] := by
  have htype : le table.bytes 4 2 % 2^4 = ueReloc32 := by
    rw [hinfo]
    decide
  have hend : le table.bytes 4 2 / 2^4 = ueFixupOffsetEnd := by
    rw [hinfo]
    decide
  have hmeta : le table.bytes 4 2 % 2^4 ≠ ueReloc32NoMeta := by
    rw [htype]
    decide
  have hhead : ∀ t : TableState, t.tableOffset = 4 → t.relocTarget = 0 →
      wp (walkHeadStep imageSize table true image t)
        (fun t xs => t.tableOffset = 6 ∧ t.finished = true ∧ xs.length = n + 1) (fun _ _ => False) [] := by
    intro t hoff htarget
    have hoff' : add32 4 sizeofUeHead = 6 := add32_eq (by decide)
    unfold walkHeadStep
    rw [hoff]
    show wp (walkHeadFixups imageSize true image (le table.bytes 4 2) _ >>= fun t' =>
      nextHead table (le table.bytes 4 2) t') _ _ []
    rw [walkHeadFixups_chained hmeta, htype, wp_bind]
    refine wp_seq (hchain _ htarget) (fun u xs hxs => ?_)
    rw [wp_pure]
    unfold nextHead
    rw [if_pos hend, wp_pure]
    exact ⟨hoff', rfl, hxs⟩
  have hroot : ∀ t : TableState, t.tableOffset = 0 → t.relocTarget = 0 →
      wp (walkRootStep imageSize table true image t) (fun t xs => t.tableOffset = 8 ∧ xs.length = n + 1)
        (fun _ _ => False) [] := by
    intro t hoff htarget
    have hov : (baseOverflowAddU32 t.relocTarget (le table.bytes t.tableOffset 4)).1 = false := by
      rw [baseOverflowAddU32_fst, hoff, htarget, hfirst]
      norm_num
    have hsum : (baseOverflowAddU32 t.relocTarget (le table.bytes t.tableOffset 4)).2 = 0 := by
      rw [baseOverflowAddU32_snd hov, hoff, htarget, hfirst]
    have hoff' : add32 t.tableOffset sizeofUeFixupRoot = 4 := by
      rw [hoff]
      exact add32_eq (by decide)
    rw [walkRootStep_eq]
    unfold fixRoot
    rw [wp_bind, wp_stopIf, hov, hsum, hoff']
    refine ⟨fun hc => absurd hc false_ne_true, fun _ => ?_⟩
    rw [wp_bind, wp_repeatWhile_succ]
    refine ⟨fun _ => ?_, fun hc => absurd rfl hc⟩
    refine wp_post (hhead _ rfl rfl) (fun t xs ht => ?_)
    obtain ⟨hoff, hfin, hlen⟩ := ht
    rw [wp_repeatWhile_succ]
    refine ⟨fun hc => absurd (hfin.symm.trans hc) (by decide), fun _ => ?_⟩
    rw [wp_pure]
    refine ⟨?_, hlen⟩
    show alignValue t.tableOffset sizeofUeFixupRoot = 8
    rw [hoff]
    decide +kernel
  have hmax : sub32 table.size minSizeOfUeFixupRoot = 2 := by
    rw [hsize]
    exact sub32_eq (by decide) (by decide)
  unfold walkRoots
  rw [hmax, wp_bind, wp_repeatWhile_succ]
  refine ⟨fun _ => ?_, fun hc => absurd (zero_le 2) hc⟩
  refine wp_post (hroot _ rfl rfl) (fun t xs ht => ?_)
  rw [hsize, wp_repeatWhile_succ]
  refine ⟨fun hc => ?_, fun _ => ht.2⟩
  have hc' : t.tableOffset ≤ 2 := hc
  omega

/-- the walk over the long image finds more than `2^29` fixups -/
lemma longImage_walk : ∃ xs, fixupWalk longImage longContext longMem [] = (.ok (), xs) ∧ xs.length = 2^29 + 1 := by
  have hfirst : le (relocTable longImage longContext).bytes 0 4 = 0 := by decide +kernel
  have hinfo : le (relocTable longImage longContext).bytes 4 2 = 0xFFF0 := by decide +kernel
  have hchained : ueHeaderChainedFixups longImage = true := by decide +kernel
  obtain ⟨n, hn⟩ : ∃ n, n = 2^29 := ⟨_, rfl⟩
  obtain ⟨size, hsize⟩ : ∃ size, longContext.imageSize = size := ⟨_, rfl⟩
  have himage : size = 0x80001000 := hsize.symm
  have hlast : le longMem (4 * n) 4 = 0xFFF := by
    rw [show 4 * n = 2^31 by omega]
    exact longMem_last
  have hchain := walkChain_length (show size + 2^12 ≤ 2^32 by omega)
    (show 4 * n + 4 ≤ size by omega) (fun k hk => longMem_zero (by omega)) hlast
  have hwalk := walkRoots_zeros hchain (show (relocTable longImage longContext).size = 8 from rfl) hfirst hinfo
  unfold fixupWalk
  rw [hchained, hsize, ← hn]
  obtain ⟨_, xs, hres, hlen⟩ := wp_returns hwalk
  exact ⟨xs, hres, hlen⟩

theorem longImage_not_unchained :
    ueInitializeContext longImage false = (.ok longContext, false) ∧ ¬ LeavesEarly longImage longContext 0x10000 ∧
    ∃ s₁ c xs, ueRelocateImage longImage longContext 0x10000 0 ⟨longMem, some .zero⟩ = (.ok (), s₁) ∧
      s₁.context = some c ∧ appliedFixups longImage longContext longMem [] = (.ok (), xs) ∧
      ¬ Unchained longContext.imageSize c xs := by
  have hok := relocatable_of_run longImage_run
  have hpos : 0 < longContext.relocTableSize := by decide +kernel
  have hlate : ¬ LeavesEarly longImage longContext 0x10000 := fun h => absurd h.1 (by decide +kernel)
  obtain ⟨xs, hwalk, hlen⟩ := longImage_walk
  have hsim : Sim (relocateTable longImage longContext 0x10000 0) (fixupWalk longImage longContext longMem) _
      ⟨longMem, some .zero⟩ [] := relocateTable_sim hok hpos (fun _ : True => rfl)
  obtain ⟨_, s₁, hs1, target, n, -, -, htracks⟩ := sim_ok_right hsim hwalk
  obtain ⟨c, hc, -⟩ := htracks trivial
  refine ⟨longImage_run, hlate, s₁, c, xs, ?_, hc, ?_, fun hun => ?_⟩
  · rw [ueRelocateImage_late hlate hok hpos (by norm_num)]
    exact hs1
  · unfold appliedFixups
    rw [if_neg (ne_of_gt hpos)]
    exact hwalk
  · have hlt := hun.length_lt (relocateTable_fixupsOk hs1 hc).1
    omega

end Audk.Ue
