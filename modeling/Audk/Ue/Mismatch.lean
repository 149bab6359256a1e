import Audk.Ue.Unchain

/-!
# Changed targets in the second phase

Between the two phases a runtime driver may write to the targets of its fixups.  Where that is allowed the second phase
skips such a target, but the target of the code stays where it is: all later fixups are compared with what is in front of
them, as many bytes too low as the skipped ones have.

* `Adjusted`: the fixups that hold the recorded value have been adjusted, and nothing else has changed;
* `ueRelocateImageForRuntime_exact_iff`: when it is so for every later content of the image.
-/

namespace Audk.Ue

open Bytes Prog Arith List Nat Bool

/-- exactly the fixups of `m` that hold the recorded value have been adjusted in `m'` -/
structure Adjusted (adjust : Nat) (recorded : List Nat) (xs : List Fixup) (m m' : Mem) : Prop where
  fixups : ∀ p ∈ xs.zip recorded, le m' p.1.target p.1.width =
    if le m p.1.target p.1.width = p.2 % 256^p.1.width then (le m p.1.target p.1.width + adjust) % 256^p.1.width
    else le m p.1.target p.1.width
  frame : ∀ a, (∀ x ∈ xs, ¬ (x.target ≤ a ∧ a < x.target + x.width)) → m' a = m a

/-! ## the fixups of a chained image -/

def AllRecorded (xs : List Fixup) : Prop := ∀ x ∈ xs, x.recorded = true

section
variable {imageSize : Nat} {table : RelocTable} {image : Mem} {xs : List Fixup}

section
variable (h : AllRecorded xs)
include h

lemma AllRecorded.concat {x : Fixup} (hx : x.recorded = true) : AllRecorded (xs ++ [x]) := by
  intro y hy
  rcases mem_append.mp hy with hy | hy
  · exact h y hy
  · rw [mem_singleton.mp hy]
    exact hx

lemma walkChainStep_recorded {c : ChainState} :
    wp (walkChainStep imageSize image c) (fun _ => AllRecorded) (fun _ _ => True) xs := by
  refine wp_stopIf_bind (fun _ => trivial) fun _ => ?_
  refine wp_stopIf_bind (fun _ => trivial) fun _ => ?_
  refine wp_stopIf_bind (fun _ => trivial) fun _ => ?_
  cases link image c.relocType c.relocTarget with
  | none => exact trivial
  | some l =>
    show wp (modify _ >>= _) _ _ xs
    rw [wp_bind, wp_modify, wp_ite]
    exact ⟨fun _ => h.concat rfl, fun _ => h.concat rfl⟩

lemma walkFixup_recorded {target : Nat} :
    wp (walkFixup imageSize ueReloc32NoMeta target image) (fun _ => AllRecorded) (fun _ _ => True) xs := by
  refine wp_stopIf_bind (fun _ => trivial) fun _ => ?_
  cases relocWidth ueReloc32NoMeta with
  | none => exact trivial
  | some width =>
    show wp (stopIf _ _ >>= _) _ _ xs
    rw [wp_bind, wp_stopIf]
    exact ⟨fun _ => trivial, fun _ => h.concat rfl⟩

lemma walkHeadStep_recorded {t : TableState} :
    wp (walkHeadStep imageSize table true image t) (fun _ => AllRecorded) (fun _ _ => True) xs := by
  have hfixups : ∀ info t, wp (walkHeadFixups imageSize true image info t) (fun _ => AllRecorded)
      (fun _ _ => True) xs := by
    intro info t
    unfold walkHeadFixups
    rw [wp_ite]
    refine ⟨fun _ => ?_, fun hc => ?_⟩
    · unfold walkChain
      rw [wp_bind, wp_bind]
      exact wp_post (wp_repeatWhile (fun _ => AllRecorded) (fun c xs h _ => walkChainStep_recorded h)
        (fun _ => trivial) _ h) (fun _ _ h => h)
    · rw [show info % 2^4 = ueReloc32NoMeta from not_not.mp fun hne => hc ⟨rfl, hne⟩, wp_bind]
      exact wp_post (walkFixup_recorded h) (fun _ _ h => h)
  refine wp_seq (hfixups _ _) (fun t' xs' h' => ?_)
  unfold nextHead
  rw [wp_ite]
  refine ⟨fun _ => h', fun _ => ?_⟩
  rw [wp_bind, wp_stopIf]
  exact ⟨fun _ => trivial, fun _ => h'⟩

end

lemma walkRoots_recorded (hwalk : walkRoots imageSize table true image [] = (.ok (), xs)) : AllRecorded xs := by
  have hroots : wp (walkRoots imageSize table true image) (fun _ => AllRecorded) (fun _ _ => True) [] := by
    refine wp_seq (wp_repeatWhile (fun _ => AllRecorded) (fun t xs h _ => ?_) (fun _ => trivial) _
      (fun x hx => absurd hx not_mem_nil)) (fun _ _ h => h)
    refine wp_stopIf_bind (fun _ => trivial) fun _ => ?_
    rw [wp_bind]
    exact wp_post (wp_repeatWhile (fun _ => AllRecorded) (fun t xs h _ => walkHeadStep_recorded h)
      (fun _ => trivial) _ h) (fun _ _ h => h)
  exact wp_ok hroots hwalk

lemma recordedData_eq {fixupData adjust : Nat} (h : AllRecorded xs) :
    recordedData fixupData adjust xs = xs.map (Fixup.moved adjust) := by
  induction xs generalizing fixupData with
  | nil => rfl
  | cons x xs ih =>
    rw [recordedData, if_pos (h x mem_cons_self), ih fun y hy => h y (mem_cons_of_mem _ hy), map_cons]

/-! ## the second phase as a fold -/

/-- one fixup; `st.1` is what the target of the code lags behind -/
def replayFixup (adjust₁ adjust : Nat) (st : Nat × Mem) (x : Fixup) : Nat × Mem :=
  if le st.2 (x.target - st.1) x.width = x.moved adjust₁ then
    (st.1, put st.2 (x.target - st.1) x.width ((x.moved adjust₁ + adjust) % 256^x.width))
  else (st.1 + x.width, st.2)

def replay (adjust₁ adjust : Nat) (xs : List Fixup) (m : Mem) : Nat × Mem :=
  xs.foldl (replayFixup adjust₁ adjust) (0, m)

variable {pcd : Pcd} {adjust₁ adjust : Nat} {m₀ m₁ m : Mem} {c : RuntimeContext}

lemma replay_concat (done : List Fixup) (x : Fixup) (m : Mem) :
    replay adjust₁ adjust (done ++ [x]) m = replayFixup adjust₁ adjust (replay adjust₁ adjust done m) x := by
  unfold replay
  rw [foldl_append]
  rfl

lemma internalApplyRelocationRuntime_replay (hpcd : pcd.imageLoaderRtRelocAllowTargetMismatch = true)
    (himage : imageSize + 2^12 ≤ 2^32) {x : Fixup} {lag t d : Nat} {s : RelocState}
    (hw : relocWidth x.relocType = some x.width) (hfits : x.target + x.width ≤ imageSize) (hlag : t + lag = x.target)
    (hc : s.context = some c) (hd : c.fixupData[d]? = some (x.moved adjust₁)) :
    wp (internalApplyRelocationRuntime pcd imageSize x.relocType t adjust d) (fun t' s' => s'.context = some c ∧
        t' + (replayFixup adjust₁ adjust (lag, s.image) x).1 = x.target + x.width ∧
        s'.image = (replayFixup adjust₁ adjust (lag, s.image) x).2) (fun _ _ => False) s := by
  have hsub : (baseOverflowSubU32 imageSize t).1 = false := baseOverflowSubU32_fst.mpr (by omega)
  have hplace : x.target - lag = t := by omega
  have hlt : x.moved adjust₁ < 256^x.width := Nat.mod_lt _ (Nat.pow_pos (by norm_num))
  have hadd : add32 t x.width = t + x.width := add32_eq (by omega)
  unfold internalApplyRelocationRuntime
  rw [wp_bind, wp_stopIf, hsub, baseOverflowSubU32_snd (by omega) hsub, hw]
  refine ⟨fun hc => absurd hc false_ne_true, fun _ => ?_⟩
  show wp (stopIf _ _ >>= _) _ _ s
  refine wp_stopIf_bind (fun hc => absurd hc (by omega)) fun _ => ?_
  rw [wp_bind, wp_gets, wp_bind]
  refine wp_readFixupData hc hd ?_
  unfold replayFixup
  rw [mod_eq_of_lt hlt, hplace, wp_ite]
  refine ⟨fun hne => ?_, fun heq => ?_⟩
  · rw [if_pos hpcd, if_neg hne, wp_pure]
    refine ⟨hc, ?_, rfl⟩
    show t + (lag + x.width) = x.target + x.width
    omega
  · have heq := not_not.mp heq
    rw [if_pos heq, wp_bind, wp_modify, wp_pure, hadd, heq]
    refine ⟨hc, ?_, rfl⟩
    show t + x.width + lag = x.target + x.width
    omega

/-- the fixups `done` have been replayed -/
def ReplayAt (adjust₁ adjust : Nat) (m : Mem) (xs : List Fixup) (c : RuntimeContext) (spots : List (Nat × Nat))
    (u t d : Nat) (s : RelocState) : Prop :=
  ∃ done rest, xs = done ++ rest ∧ done.map Fixup.spot = spots ∧ d = done.length ∧ s.context = some c ∧
    t + (replay adjust₁ adjust done m).1 = u ∧ s.image = (replay adjust₁ adjust done m).2

lemma replay_traversal (hpcd : pcd.imageLoaderRtRelocAllowTargetMismatch = true) (himage : imageSize + 2^12 ≤ 2^32)
    {target : Nat} (hrel : ImageRel imageSize adjust₁ m₀ xs target m₁)
    (hdata : c.fixupData = xs.map (Fixup.moved adjust₁)) (m : Mem) :
    Traversal imageSize (fun type target d => internalApplyRelocationRuntime pcd imageSize type target adjust d) (· + 1)
      (xs.map Fixup.spot) (ReplayAt adjust₁ adjust m xs c) (fun _ _ => False) where
  image := himage
  width x hx := (hrel.spots x hx).1
  fits x hx := (hrel.spots x hx).2
  behind := by
    rintro done' u t d s ⟨done, rest, -, -, -, -, hlag, -⟩
    exact hlag ▸ le_add_right _ _
  advance := by
    rintro done' x rest' u t d s hspots hle ⟨done, rest, hxs, hdone, hd, hc, hlag, himg⟩
    exact ⟨done, rest, hxs, hdone, hd, hc, by omega, himg⟩
  step := by
    rintro done' x rest' t d s hspots ⟨done, rest, hxs, hdone, rfl, hc, hlag, himg⟩
    rw [hxs, map_append, hdone] at hspots
    obtain ⟨y, rest, rfl, rfl, -⟩ := map_eq_cons_iff.mp (append_cancel_left hspots)
    have hy : y ∈ xs := hxs ▸ mem_append_right _ mem_cons_self
    have hwidth : spotWidth y.spot = y.width := by
      show (relocWidth y.relocType).getD 0 = y.width
      rw [hrel.width y hy]
      rfl
    have hget : c.fixupData[done.length]? = some (y.moved adjust₁) := by
      rw [hdata, hxs, map_append, map_cons, List.getElem?_append_right (by rw [length_map]),
        List.length_map, Nat.sub_self]
      rfl
    refine wp_post (internalApplyRelocationRuntime_replay hpcd himage (hrel.width y hy) (hrel.fits y hy) hlag hc hget)
      (fun t' s' h => ?_)
    obtain ⟨hc', hlag', himg'⟩ := h
    have hst : ((replay adjust₁ adjust done m).1, s.image) = replay adjust₁ adjust done m := Prod.ext rfl himg
    rw [hst, ← replay_concat] at hlag' himg'
    refine ⟨done ++ [y], rest, ?_, ?_, ?_, hc', ?_, himg'⟩
    · rw [hxs, append_assoc]
      rfl
    · rw [map_append, hdone]
      rfl
    · rw [length_append]
      rfl
    · rw [hwidth]
      exact hlag'

lemma replayFixup_dvd {x : Fixup} (h : 256^x.width ∣ adjust) (st : Nat × Mem) :
    (replayFixup adjust₁ adjust st x).2 = st.2 := by
  unfold replayFixup
  by_cases heq : le st.2 (x.target - st.1) x.width = x.moved adjust₁
  · rw [if_pos heq, ← heq, add_mod, mod_eq_zero_of_dvd h, add_zero, mod_mod,
      mod_eq_of_lt (le_lt _ _ _)]
    exact put_le_self _ _ _
  · rw [if_neg heq]

lemma foldl_replayFixup_dvd (h : ∀ x ∈ xs, 256^x.width ∣ adjust) (st : Nat × Mem) :
    (xs.foldl (replayFixup adjust₁ adjust) st).2 = st.2 := by
  induction xs generalizing st with
  | nil => rfl
  | cons x xs ih =>
    rw [foldl_cons, ih fun y hy => h y (mem_cons_of_mem _ hy)]
    exact replayFixup_dvd (h x mem_cons_self) st

/-- **the second phase replays the fixups, whatever is in the image** -/
theorem ueRelocateImageForRuntime_replay (hpcd : pcd.imageLoaderRtRelocAllowTargetMismatch = true)
    (himage : imageSize + 2^12 ≤ 2^32) {target : Nat} (hrel : ImageRel imageSize adjust₁ m₀ xs target m₁)
    (hdata : c.fixupData = xs.map (Fixup.moved adjust₁)) {rs : List Root} (hc : Between c rs) (hok : ∀ r ∈ rs, r.Ok)
    (hspots : rootSpots 0 rs = xs.map Fixup.spot) (hlt : rootsSize rs < 2^32) {base₁ base₂ : Nat}
    (hadjust : sub64 base₂ base₁ = adjust) (m : Mem) :
    ∃ s, ueRelocateImageForRuntime pcd base₁ imageSize c base₂ ⟨m, some c⟩ = (.ok (), s) ∧
      s.image = (replay adjust₁ adjust xs m).2 := by
  unfold ueRelocateImageForRuntime internaRelocateImageRuntime
  rw [hadjust]
  by_cases hadj : adjust = 0
  · rw [if_pos (.inr hadj)]
    exact ⟨_, rfl, (foldl_replayFixup_dvd (fun x _ => hadj ▸ dvd_zero _) (0, m)).symm⟩
  by_cases h0 : c.unchainedRelocsSize = 0
  · rw [if_pos (.inl h0)]
    rw [hc.size, rootsSize_eq_zero] at h0
    subst h0
    obtain rfl : xs = [] := map_eq_nil_iff.mp hspots.symm
    exact ⟨⟨m, some c⟩, rfl, rfl⟩
  rw [if_neg fun h => h.elim h0 hadj, relocateRoots_runtime, headStepRuntime_eq]
  have hlt' : (RelocTable.mk c.unchainedRelocs c.unchainedRelocsSize).size < 2^32 := by
    show c.unchainedRelocsSize < 2^32
    rw [hc.size]
    exact hlt
  obtain ⟨_, s, hres, u, t, d, done, rest, hxs, hdone, -, -, -, himg⟩ := wp_returns
    ((replay_traversal hpcd himage hrel hdata m).roots hlt' (hc.six_le hok h0) hok hspots.symm hc.roots hc.size.symm 0 ⟨m, some c⟩
      ⟨[], xs, rfl, rfl, rfl, rfl, rfl, rfl⟩)
  have hlen := congrArg List.length hdone
  rw [length_map, length_map, hxs, length_append] at hlen
  obtain rfl : rest = [] := eq_nil_of_length_eq_zero (by omega)
  rw [append_nil] at hxs
  exact ⟨s, hres, hxs ▸ himg⟩

/-! ## what a replay adjusts -/

/-- the fixup of an image that was moved by `adjust₁` and has changed to `m` since -/
def Fixup.adjusted (adjust₁ adjust : Nat) (m : Mem) (x : Fixup) : Nat :=
  if le m x.target x.width = x.moved adjust₁ then (x.moved adjust₁ + adjust) % 256^x.width
  else le m x.target x.width

/-- `Adjusted`, for the values that the first phase records -/
structure InPlace (adjust₁ adjust : Nat) (xs : List Fixup) (m m' : Mem) : Prop where
  value : ∀ x ∈ xs, le m' x.target x.width = x.adjusted adjust₁ adjust m
  frame : ∀ a, (∀ x ∈ xs, ¬ (x.target ≤ a ∧ a < x.target + x.width)) → m' a = m a

/-- the fixups are apart and in order -/
def Apart (xs : List Fixup) : Prop := xs.Pairwise fun x y => x.target + x.width ≤ y.target

variable {m' : Mem} {ys : List Fixup} {x : Fixup}

lemma adjusted_iff : Adjusted adjust (xs.map (Fixup.moved adjust₁)) xs m m' ↔ InPlace adjust₁ adjust xs m m' := by
  have hmod : ∀ x : Fixup, x.moved adjust₁ % 256^x.width = x.moved adjust₁ := fun x => mod_mod _ _
  have hvalue : ∀ x : Fixup, x.adjusted adjust₁ adjust m =
      if le m x.target x.width = x.moved adjust₁ % 256^x.width then (le m x.target x.width + adjust) % 256^x.width
      else le m x.target x.width := by
    intro x
    unfold Fixup.adjusted
    rw [hmod]
    by_cases h : le m x.target x.width = x.moved adjust₁
    · rw [if_pos h, if_pos h, h]
    · rw [if_neg h, if_neg h]
  have hmem : ∀ p : Fixup × Nat, p ∈ xs.zip (xs.map (Fixup.moved adjust₁)) ↔ ∃ x ∈ xs, (x, x.moved adjust₁) = p := by
    intro p
    rw [← map_prod_left_eq_zip, mem_map]
  constructor
  · intro h
    refine ⟨fun x hx => ?_, h.frame⟩
    rw [hvalue]
    exact h.fixups _ ((hmem _).mpr ⟨x, hx, rfl⟩)
  · intro h
    refine ⟨fun p hp => ?_, h.frame⟩
    obtain ⟨x, hx, rfl⟩ := (hmem p).mp hp
    rw [h.value x hx, hvalue]

section
variable (h : InPlace adjust₁ adjust xs m m')
include h

lemma InPlace.same (hx : ∀ y ∈ xs, y.target + y.width ≤ x.target) :
    le m' x.target x.width = le m x.target x.width := by
  refine le_congr fun a h1 h2 => h.frame a fun y hy hc => ?_
  have := hx y hy
  omega

lemma InPlace.concat (hx : ∀ y ∈ xs, y.target + y.width ≤ x.target) :
    InPlace adjust₁ adjust (xs ++ [x]) m (replayFixup adjust₁ adjust (0, m') x).2 := by
  have hsame := h.same hx
  unfold replayFixup
  rw [Nat.sub_zero]
  by_cases heq : le m' x.target x.width = x.moved adjust₁
  · rw [if_pos heq]
    refine ⟨fun y hy => ?_, fun a ha => ?_⟩
    · rcases mem_append.mp hy with hy | hy
      · rw [← h.value y hy]
        exact le_put_disjoint _ (.inl (hx y hy))
      · rw [mem_singleton.mp hy, le_put_same, mod_mod]
        unfold Fixup.adjusted
        rw [if_pos (hsame ▸ heq)]
    · have hout := ha x (mem_append_right _ (mem_singleton_self x))
      exact (put_of_not_mem _ _ hout).trans (h.frame a fun y hy => ha y (mem_append_left _ hy))
  · rw [if_neg heq]
    refine ⟨fun y hy => ?_, fun a ha => h.frame a fun y hy => ha y (mem_append_left _ hy)⟩
    rcases mem_append.mp hy with hy | hy
    · exact h.value y hy
    · rw [mem_singleton.mp hy]
      unfold Fixup.adjusted
      rw [if_neg (hsame ▸ heq)]
      exact hsame

lemma InPlace.append_dvd (hdvd : ∀ y ∈ ys, 256^y.width ∣ adjust)
    (hapart : Apart (xs ++ ys)) : InPlace adjust₁ adjust (xs ++ ys) m m' := by
  refine ⟨fun y hy => ?_, fun a ha => h.frame a fun y hy => ha y (mem_append_left _ hy)⟩
  rcases mem_append.mp hy with hxs | hys
  · exact h.value y hxs
  rw [h.same fun z hz => (pairwise_append.mp hapart).2.2 z hz y hys]
  unfold Fixup.adjusted
  by_cases heq : le m y.target y.width = y.moved adjust₁
  · rw [if_pos heq, ← heq, add_mod, mod_eq_zero_of_dvd (hdvd y hys), add_zero, mod_mod,
      mod_eq_of_lt (le_lt _ _ _)]
  · rw [if_neg heq]

end

/-- as long as the fixups hold what was recorded, the target does not lag behind -/
lemma replay_unchanged (adjust : Nat) (hapart : Apart xs) (hall : ∀ x ∈ xs, le m x.target x.width = x.moved adjust₁) :
    (replay adjust₁ adjust xs m).1 = 0 ∧ InPlace adjust₁ adjust xs m (replay adjust₁ adjust xs m).2 := by
  induction xs using List.reverseRecOn with
  | nil => exact ⟨rfl, fun x hx => absurd hx not_mem_nil, fun _ _ => rfl⟩
  | append_singleton xs x ih =>
    have hbefore : ∀ y ∈ xs, y.target + y.width ≤ x.target :=
      fun y hy => (pairwise_append.mp hapart).2.2 y hy x (mem_singleton_self x)
    obtain ⟨hlag, hin⟩ := ih (pairwise_append.mp hapart).1 fun y hy => hall y (mem_append_left _ hy)
    have hst : replay adjust₁ adjust xs m = (0, (replay adjust₁ adjust xs m).2) := Prod.ext hlag rfl
    rw [replay_concat, hst]
    refine ⟨?_, hin.concat hbefore⟩
    unfold replayFixup
    rw [Nat.sub_zero, if_pos ((hin.same hbefore).trans (hall x (List.mem_append_right _ (List.mem_singleton_self x))))]

lemma replay_last (hapart : Apart xs) (hall : ∀ x ∈ xs.dropLast, le m x.target x.width = x.moved adjust₁) :
    InPlace adjust₁ adjust xs m (replay adjust₁ adjust xs m).2 := by
  rcases eq_nil_or_concat xs with rfl | ⟨done, x, rfl⟩
  · exact (replay_unchanged adjust hapart fun x hx => absurd hx not_mem_nil).2
  rw [concat_eq_append] at hapart hall ⊢
  rw [dropLast_concat] at hall
  obtain ⟨hlag, hin⟩ := replay_unchanged adjust (pairwise_append.mp hapart).1 hall
  have hst : replay adjust₁ adjust done m = (0, (replay adjust₁ adjust done m).2) := Prod.ext hlag rfl
  rw [replay_concat, hst]
  exact hin.concat fun y hy => (pairwise_append.mp hapart).2.2 y hy x (mem_singleton_self x)

lemma replay_dvd (hapart : Apart xs) (hdvd : ∀ x ∈ xs.tail, 256^x.width ∣ adjust) :
    InPlace adjust₁ adjust xs m (replay adjust₁ adjust xs m).2 := by
  cases xs with
  | nil => exact (replay_unchanged adjust hapart fun x hx => absurd hx not_mem_nil).2
  | cons x rest =>
    have hfirst : InPlace adjust₁ adjust [x] m (replay adjust₁ adjust [x] m).2 :=
      replay_last (pairwise_singleton _ x) fun y hy => absurd hy not_mem_nil
    have hrest : ∀ y ∈ rest, 256^y.width ∣ adjust := hdvd
    unfold replay
    rw [foldl_cons, foldl_replayFixup_dvd hrest]
    exact hfirst.append_dvd hrest hapart

/-! ## a fixup behind a changed one -/

lemma exists_other_byte (p q : UInt8) : ∃ b : UInt8, b ≠ p ∧ b ≠ q := by
  by_cases h0 : (0 : UInt8) ≠ p ∧ (0 : UInt8) ≠ q
  · exact ⟨0, h0⟩
  by_cases h1 : (1 : UInt8) ≠ p ∧ (1 : UInt8) ≠ q
  · exact ⟨1, h1⟩
  · refine ⟨2, ?_, ?_⟩ <;> rintro rfl <;> simp at h0 h1 <;> simp [← h0] at h1

/-- the image with one byte all over `[lo, hi)` -/
def scribble (m : Mem) (lo hi : Nat) (b : UInt8) : Mem := fun a => if lo ≤ a ∧ a < hi then b else m a

lemma le_scribble_ne {lo hi a w v : Nat} {b : UInt8} (hlo : lo ≤ a) (hhi : a < hi) (hw : 0 < w)
    (hb : b ≠ UInt8.ofNat v) : le (scribble m lo hi b) a w ≠ v := by
  intro h
  have hbyte := le_byte (scribble m lo hi b) a hw
  rw [h, Nat.pow_zero, Nat.div_one, Nat.add_zero] at hbyte
  exact hb (hbyte.trans (if_pos ⟨hlo, hhi⟩)).symm

lemma le_scribble {lo hi a w : Nat} {b : UInt8} (h : a + w ≤ lo ∨ hi ≤ a) : le (scribble m lo hi b) a w = le m a w :=
  le_congr fun i h1 h2 => if_neg (by omega)

lemma split_last {α : Type} {p : α → Prop} {l : List α} (h : ∃ x ∈ l, ¬ p x) :
    ∃ l1 x l2, l = l1 ++ x :: l2 ∧ ¬ p x ∧ ∀ y ∈ l2, p y := by
  induction l with
  | nil =>
    obtain ⟨x, hx, -⟩ := h
    exact absurd hx not_mem_nil
  | cons a l ih =>
    by_cases hl : ∃ x ∈ l, ¬ p x
    · obtain ⟨l1, x, l2, rfl, hx, hl2⟩ := ih hl
      exact ⟨a :: l1, x, l2, rfl, hx, hl2⟩
    · obtain ⟨x, hx, hpx⟩ := h
      rcases mem_cons.mp hx with rfl | hx
      · exact ⟨[], x, l, rfl, hpx, fun y hy => not_not.mp fun hy' => hl ⟨y, hy, hy'⟩⟩
      · exact absurd ⟨x, hx, hpx⟩ hl

/-- if the fixup in front has changed, then a fixup that has not is left as it is -/
lemma replay_behind (adjust : Nat) {y : Fixup} {done rest : List Fixup} (hapart : Apart (done ++ y :: x :: rest))
    (hwidth : ∀ z ∈ done ++ y :: x :: rest, 0 < z.width)
    (hall : ∀ z ∈ done ++ y :: x :: rest, le m z.target z.width = z.moved adjust₁)
    (hrest : ∀ z ∈ rest, 256^z.width ∣ adjust) : ∃ m', le m' x.target x.width = x.moved adjust₁ ∧
      le (replay adjust₁ adjust (done ++ y :: x :: rest) m').2 x.target x.width = x.moved adjust₁ := by
  obtain ⟨hdone, htail, hcross⟩ := pairwise_append.mp hapart
  obtain ⟨hy, -⟩ := pairwise_cons.mp htail
  have hyx := hy x mem_cons_self
  have hymem : y ∈ done ++ y :: x :: rest := mem_append_right _ mem_cons_self
  have hxmem : x ∈ done ++ y :: x :: rest := mem_append_right _ (mem_cons_of_mem _ mem_cons_self)
  have hwy := hwidth y hymem
  have hbefore : ∀ z ∈ done, z.target + z.width ≤ y.target := fun z hz => hcross z hz y mem_cons_self
  obtain ⟨b, hby, hbx⟩ := exists_other_byte (UInt8.ofNat (y.moved adjust₁)) (UInt8.ofNat (x.moved adjust₁))
  have hx' : le (scribble m y.target x.target b) x.target x.width = x.moved adjust₁ :=
    (le_scribble (.inr le_rfl)).trans (hall x hxmem)
  refine ⟨scribble m y.target x.target b, hx', ?_⟩
  -- the fixups in front of `y` are adjusted in their places
  obtain ⟨hlag, hin⟩ := replay_unchanged (m := scribble m y.target x.target b) adjust hdone fun z hz =>
    (le_scribble (.inl (hbefore z hz))).trans (hall z (mem_append_left _ hz))
  generalize hm2 : (replay adjust₁ adjust done (scribble m y.target x.target b)).2 = m2 at hin
  have hst : replay adjust₁ adjust done (scribble m y.target x.target b) = (0, m2) := Prod.ext hlag hm2
  have hsame : ∀ a w, y.target ≤ a → le m2 a w = le (scribble m y.target x.target b) a w := by
    intro a w ha
    refine le_congr fun i h1 h2 => hin.frame i fun z hz hc => ?_
    have := hbefore z hz
    omega
  have hfirst : replayFixup adjust₁ adjust (0, m2) y = (y.width, m2) := by
    unfold replayFixup
    rw [Nat.sub_zero, hsame _ _ le_rfl, if_neg (le_scribble_ne le_rfl (by omega) hwy hby), Nat.zero_add]
  have hsecond : replayFixup adjust₁ adjust (y.width, m2) x = (y.width + x.width, m2) := by
    unfold replayFixup
    rw [hsame _ _ (by omega), if_neg (le_scribble_ne (by omega) (by omega) (hwidth x hxmem) hbx)]
  have hrun : (replay adjust₁ adjust (done ++ y :: x :: rest) (scribble m y.target x.target b)).2 = m2 := by
    unfold replay at hst ⊢
    rw [foldl_append, hst, foldl_cons, hfirst, foldl_cons, hsecond]
    exact foldl_replayFixup_dvd hrest _
  rw [hrun, hsame _ _ (by omega), hx']

/-- the fixups are adjusted in their places, whatever is in the image, only if all but the first one stay as they are -/
lemma dvd_of_inPlace (hapart : Apart xs) (hwidth : ∀ z ∈ xs, 0 < z.width)
    (hall : ∀ z ∈ xs, le m z.target z.width = z.moved adjust₁)
    (h : ∀ m', InPlace adjust₁ adjust xs m' (replay adjust₁ adjust xs m').2) :
    ∀ x ∈ xs.tail, 256^x.width ∣ adjust := by
  by_contra hno
  obtain ⟨x, hx, hndvd⟩ : ∃ x ∈ xs.tail, ¬ 256^x.width ∣ adjust := by
    by_contra hall'
    exact hno fun x hx => not_not.mp fun hn => hall' ⟨x, hx, hn⟩
  obtain ⟨l1, x, rest, htail, hndvd, hrest⟩ := split_last (p := fun x : Fixup => 256^x.width ∣ adjust) ⟨x, hx, hndvd⟩
  obtain ⟨x0, rfl⟩ : ∃ x0, xs = x0 :: (l1 ++ x :: rest) := by
    cases xs with
    | nil => exact absurd hx not_mem_nil
    | cons x0 xs => exact ⟨x0, congrArg (x0 :: ·) htail⟩
  obtain ⟨done, y, hfront⟩ : ∃ done y, x0 :: l1 = done ++ [y] := by
    rcases eq_nil_or_concat (x0 :: l1) with hc | ⟨done, y, hc⟩
    · exact absurd hc (cons_ne_nil _ _)
    · exact ⟨done, y, hc.trans concat_eq_append⟩
  have hxs : x0 :: (l1 ++ x :: rest) = done ++ y :: x :: rest := by
    rw [← cons_append, hfront, append_assoc]
    rfl
  rw [hxs] at hapart hwidth hall h
  obtain ⟨m', hm', hrun⟩ := replay_behind adjust hapart hwidth hall hrest
  have hvalue := (h m').value x (mem_append_right _ (mem_cons_of_mem _ mem_cons_self))
  unfold Fixup.adjusted at hvalue
  rw [hrun, if_pos hm'] at hvalue
  refine hndvd ((modEq_zero_iff_dvd).mp ?_)
  have hmod : x.moved adjust₁ % 256^x.width = (x.moved adjust₁ + adjust) % 256^x.width := by
    rw [← hvalue]
    exact mod_mod _ _
  exact (Nat.ModEq.add_left_cancel' (x.moved adjust₁) (show x.moved adjust₁ + 0 ≡ _ [MOD _] from hmod)).symm

/-! ## both phases -/

/-- there is a recorded value for each fixup, and with any later content `m` of the image the second phase adjusts
exactly the fixups that still hold it -/
structure RuntimeExact (pcd : Pcd) (imageSize : Nat) (c : RuntimeContext) (xs : List Fixup) (base₁ base₂ : Nat) :
    Prop where
  data : c.fixupData.length = xs.length
  adjusted : ∀ m, ∃ s, ueRelocateImageForRuntime pcd base₁ imageSize c base₂ ⟨m, some c⟩ = (.ok (), s) ∧
    Adjusted (sub64 base₂ base₁) c.fixupData xs m s.image

variable {f : File} {ctx : UeContext} {w : Bool} {image₀ : Mem} {s₁ : RelocState} {base₁ base₂ fixupData : Nat}

lemma ImageRel.width_pos {imageSize adjust target : Nat} {image : Mem}
    (h : ImageRel imageSize adjust image₀ xs target image) : ∀ x ∈ xs, 0 < x.width := by
  intro x hx
  rcases relocWidth_cases (h.width x hx) with hw | hw
  · rw [hw]
    norm_num
  · rw [hw]
    norm_num

lemma replay_of_first (hok : Relocatable f ctx) (hpos : 0 < ctx.relocTableSize)
    (hchained : ueHeaderChainedFixups f = true) (hpcd : pcd.imageLoaderRtRelocAllowTargetMismatch = true)
    (hfirst : relocateTable f ctx base₁ fixupData ⟨image₀, some .zero⟩ = (.ok (), s₁)) (hc : s₁.context = some c) :
    ∃ xs target, fixupWalk f ctx image₀ [] = (.ok (), xs) ∧
      ImageRel ctx.imageSize (sub64 base₁ (linkedAddress ctx)) image₀ xs target s₁.image ∧
      (xs.length ≤ 2^29 → c.fixupData = xs.map (Fixup.moved (sub64 base₁ (linkedAddress ctx))) ∧
        ∀ m, ∃ s, ueRelocateImageForRuntime pcd base₁ ctx.imageSize c base₂ ⟨m, some c⟩ = (.ok (), s) ∧
          s.image = (replay (sub64 base₁ (linkedAddress ctx)) (sub64 base₂ base₁) xs m).2) := by
  have hsim : Sim (relocateTable f ctx base₁ fixupData) (fixupWalk f ctx image₀) _ ⟨image₀, some .zero⟩ [] :=
    relocateTable_sim hok hpos (fun _ : True => rfl)
  obtain ⟨_, xs, hwalk, target, n, hn, himage, htracks⟩ := sim_ok hsim hfirst
  refine ⟨xs, target, hwalk, himage, fun hlen => ?_⟩
  obtain ⟨c', hc', hstage⟩ := htracks trivial
  obtain rfl : c = c' := Option.some.inj (hc.symm.trans hc')
  obtain ⟨st, ⟨rs, rfl, hrs, hroots, -⟩, hcontext⟩ := hstage hlen
  have hspots : rootSpots 0 rs = xs.map Fixup.spot := hcontext.spots
  have hrec : AllRecorded xs := by
    unfold fixupWalk at hwalk
    rw [hchained] at hwalk
    exact walkRoots_recorded hwalk
  have hdata := hcontext.data.trans (recordedData_eq hrec)
  have hlt : rootsSize rs < 2^32 := by
    have htable := hok.table_lt
    have := rootsSize_le 0 rs
    rw [hspots, length_map] at this
    omega
  exact ⟨hdata, ueRelocateImageForRuntime_replay hpcd hok.image himage hdata hcontext.table hroots hspots hlt rfl⟩

/-- **the second phase adjusts exactly the unchanged fixups of a chained image, whatever has been written to the image,
only if a move by the distance changes none of them but the first one**; for an image in which all fixups but the last one
are unchanged it always does -/
theorem ueRelocateImageForRuntime_exact_iff (hrun : ueInitializeContext f false = (.ok ctx, w))
    (hchained : ueHeaderChainedFixups f = true) (hpcd : pcd.imageLoaderRtRelocAllowTargetMismatch = true)
    (hbase₁ : base₁ < 2^64)
    (hfirst : ueRelocateImage f ctx base₁ fixupData ⟨image₀, some .zero⟩ = (.ok (), s₁)) (hc : s₁.context = some c) :
    ∃ xs target, appliedFixups f ctx image₀ [] = (.ok (), xs) ∧
      ImageRel ctx.imageSize (sub64 base₁ (linkedAddress ctx)) image₀ xs target s₁.image ∧
      (RuntimeExact pcd ctx.imageSize c xs base₁ base₂ ↔
        xs.length ≤ 2^29 ∧ ∀ x ∈ xs.tail, 256^x.width ∣ sub64 base₂ base₁) ∧ (xs.length ≤ 2^29 → ∀ m,
        (∀ p ∈ (xs.zip c.fixupData).dropLast, le m p.1.target p.1.width = p.2 % 256^p.1.width) →
        ∃ s, ueRelocateImageForRuntime pcd base₁ ctx.imageSize c base₂ ⟨m, some c⟩ = (.ok (), s) ∧
          Adjusted (sub64 base₂ base₁) c.fixupData xs m s.image) := by
  have hok := relocatable_of_run hrun
  unfold appliedFixups
  by_cases hsize : ctx.relocTableSize = 0
  · rw [ueRelocateImage_empty hsize] at hfirst
    cases hfirst
    obtain rfl : RuntimeContext.zero = c := Option.some.inj hc
    have hexact : ∀ m, ∃ s, ueRelocateImageForRuntime pcd base₁ ctx.imageSize .zero base₂ ⟨m, some .zero⟩ = (.ok (), s) ∧
        Adjusted (sub64 base₂ base₁) [] [] m s.image :=
      fun m => ⟨_, runtime_empty, fun p hp => absurd hp not_mem_nil, fun _ _ => rfl⟩
    rw [if_pos hsize]
    refine ⟨[], 0, rfl, imageRel_nil _ _ _ _, ?_, fun _ m _ => hexact m⟩
    exact iff_of_true ⟨rfl, hexact⟩ ⟨zero_le _, fun x hx => absurd hx not_mem_nil⟩
  have hpos : 0 < ctx.relocTableSize := pos_of_ne_zero hsize
  have hlate : ¬ LeavesEarly f ctx base₁ := fun h => false_ne_true (h.2.symm.trans hchained)
  rw [if_neg hsize]
  rw [ueRelocateImage_late hlate hok hpos hbase₁] at hfirst
  obtain ⟨xs, target, hwalk, himage, hreplay⟩ := replay_of_first hok hpos hchained hpcd hfirst hc
  refine ⟨xs, target, hwalk, himage, ⟨fun h => ?_, fun ⟨hlen, hdvd⟩ => ?_⟩, fun hlen m hm => ?_⟩
  · have hlen : xs.length ≤ 2^29 := h.data ▸ (relocateTable_fixupsOk hfirst hc).2
    obtain ⟨hdata, hruns⟩ := hreplay hlen
    refine ⟨hlen, dvd_of_inPlace himage.apart himage.width_pos himage.value fun m => ?_⟩
    obtain ⟨s, hs, hsimage⟩ := hruns m
    obtain ⟨s', hs', hadjusted⟩ := h.adjusted m
    obtain rfl : s = s' := congrArg Prod.snd (hs.symm.trans hs')
    rw [hdata, hsimage] at hadjusted
    exact adjusted_iff.mp hadjusted
  · obtain ⟨hdata, hruns⟩ := hreplay hlen
    refine ⟨by rw [hdata, length_map], fun m => ?_⟩
    obtain ⟨s, hs, hsimage⟩ := hruns m
    refine ⟨s, hs, ?_⟩
    rw [hdata, hsimage]
    exact adjusted_iff.mpr (replay_dvd himage.apart hdvd)
  · obtain ⟨hdata, hruns⟩ := hreplay hlen
    obtain ⟨s, hs, hsimage⟩ := hruns m
    refine ⟨s, hs, ?_⟩
    rw [hdata, hsimage]
    refine adjusted_iff.mpr (replay_last himage.apart fun x hx => ?_)
    rw [hdata, ← map_prod_left_eq_zip, ← map_dropLast] at hm
    have := hm _ (mem_map_of_mem hx)
    exact this.trans (mod_mod _ _)

end

theorem chainedImage_exact : ∃ s₁ c xs, fixupFirst true 0x10000 = (.ok (), s₁) ∧ s₁.context = some c ∧
    appliedFixups (fixupImage true) fixupContext (fixupMem true) [] = (.ok (), xs) ∧
    RuntimeExact { Pcd.default with imageLoaderRtRelocAllowTargetMismatch := true } fixupContext.imageSize c xs 0x10000
      0x20000 := by
  have hwalk : appliedFixups (fixupImage true) fixupContext (fixupMem true) [] =
      (.ok (), [⟨0, 0, 4, 0, true⟩]) := by decide +kernel
  obtain ⟨s₁, c, hfirst, hc⟩ := fixupFirst_context true
  obtain ⟨xs, -, hxs, -, hiff, -⟩ := ueRelocateImageForRuntime_exact_iff (fixupImage_run true) (by decide +kernel)
    (show ({ Pcd.default with imageLoaderRtRelocAllowTargetMismatch := true } : Pcd).imageLoaderRtRelocAllowTargetMismatch
      = true from rfl) (by norm_num) hfirst hc
  refine ⟨s₁, c, xs, hfirst, hc, hxs, hiff.mpr ?_⟩
  obtain rfl : _ = xs := congrArg Prod.snd (hwalk.symm.trans hxs)
  exact ⟨by decide, fun x hx => absurd hx not_mem_nil⟩

/-- a chained file with two fixups, one behind the other -/
def pairImage : File where
  bytes := ofFields [(0, 2, ueHeaderMagic), (3, 1, 1), (8, 8, 2^59), (16, 4, 0x100001), (20, 4, 8), (24, 4, 1),
    (32, 4, 0xFFF), (44, 2, 0xFFF0)]
  size := 48
  size_lt := (by norm_num : 48 < 4294967296)

def pairContext : UeContext := { fixupContext with fileSize := 48, loadTablesFileOffset := 40 }

def pairFirst : Except Status Unit × RelocState :=
  ueRelocateImage pairImage pairContext 0x10000 0 ⟨ueLoadImage pairImage pairContext (fun _ => 0) 0x1000, some .zero⟩

def pairRuntime : RuntimeContext := pairFirst.2.context.getD .zero

/-- the second phase at `0x20000`, with another value in the first fixup -/
def pairSecond : Except Status Unit × RelocState :=
  ueRelocateImageForRuntime { Pcd.default with imageLoaderRtRelocAllowTargetMismatch := true } 0x10000
    pairContext.imageSize pairRuntime 0x20000 ⟨put pairFirst.2.image 0 4 5, some pairRuntime⟩

/-- the second fixup still holds its value, but it is not adjusted -/
theorem pairImage_not_exact : ueInitializeContext pairImage false = (.ok pairContext, false) ∧
    ueHeaderChainedFixups pairImage = true ∧ ∃ s₁ c xs, pairFirst = (.ok (), s₁) ∧ s₁.context = some c ∧
      appliedFixups pairImage pairContext (ueLoadImage pairImage pairContext (fun _ => 0) 0x1000) [] = (.ok (), xs) ∧
      ¬ RuntimeExact { Pcd.default with imageLoaderRtRelocAllowTargetMismatch := true } pairContext.imageSize c xs
        0x10000 0x20000 := by
  have hfirst : pairFirst.1 = .ok () := by decide +kernel
  have hsome : pairFirst.2.context.isSome = true := by decide +kernel
  have hc : pairFirst.2.context = some pairRuntime := by
    obtain ⟨c, hc⟩ := Option.isSome_iff_exists.mp hsome
    unfold pairRuntime
    rw [hc]
    rfl
  have hwalk : appliedFixups pairImage pairContext (ueLoadImage pairImage pairContext (fun _ => 0) 0x1000) [] =
      (.ok (), [⟨0, 0, 4, 0, true⟩, ⟨0, 4, 4, 0, true⟩]) := by decide +kernel
  have hdata : pairRuntime.fixupData = [0x10000, 0x10000] := by decide +kernel
  have hcurrent : le (put pairFirst.2.image 0 4 5) 4 4 = 0x10000 := by decide +kernel
  have hskipped : le pairSecond.2.image 4 4 = 0x10000 := by decide +kernel
  refine ⟨by decide +kernel, by decide +kernel, _, pairRuntime, _, Prod.ext hfirst rfl, hc, hwalk, fun h => ?_⟩
  obtain ⟨s, hs, hadjusted⟩ := h.adjusted (put pairFirst.2.image 0 4 5)
  have hfix := hadjusted.fixups (⟨0, 4, 4, 0, true⟩, 0x10000) (by rw [hdata]; decide)
  obtain rfl : pairSecond.2 = s := congrArg Prod.snd hs
  have hval : le pairSecond.2.image 4 4 =
      if le (put pairFirst.2.image 0 4 5) 4 4 = 0x10000 % 256^4 then
        (le (put pairFirst.2.image 0 4 5) 4 4 + sub64 0x20000 0x10000) % 256^4
      else le (put pairFirst.2.image 0 4 5) 4 4 := hfix
  rw [hskipped, hcurrent] at hval
  exact absurd hval (by decide +kernel)

end Audk.Ue
