import Audk.Ue.Traverse

/-!
# The second relocation of UE runtime drivers

The second phase reads the table that the first one has left in the runtime context, and moves the
fixups that still hold the recorded value.

* `runtime_traversal`: the second phase goes through the table and keeps that invariant;
* `ueRelocateImageForRuntime_twoPhase`: both phases together.
-/

namespace Audk.Ue

open Bytes Prog Arith List Nat

/-- what is recorded for a fixup is its value: fixups that are not recorded themselves have to hold
what the last recorded one, or nothing, has left in `FixupData` -/
def Matches (fixupData adjust : Nat) (xs : List Fixup) : Prop :=
  ∀ done x rest, xs = done ++ x :: rest → x.recorded = false →
    x.moved adjust = staleData fixupData adjust done % 256^x.width

/-- `Matches` for the first `i` fixups -/
def MatchesUpTo (fixupData adjust : Nat) (xs : List Fixup) (i : Nat) : Prop :=
  ∀ done x rest, xs = done ++ x :: rest → done.length < i → x.recorded = false →
    x.moved adjust = staleData fixupData adjust done % 256^x.width

/-- below `t` the memory is that of `m2`, from there on that of `m1` -/
def Swept (m1 m2 : Mem) (t : Nat) (m : Mem) : Prop := ∀ a, m a = if a < t then m2 a else m1 a

section
variable {m1 m2 m : Mem} {t u w : Nat}

lemma Swept.sameOn (h : Swept m1 m2 t m) (hi : Nat) : SameOn m m1 t hi :=
  fun a h1 _ => (h a).trans (if_neg (not_lt.mpr h1))

lemma Swept.move (h : Swept m1 m2 t m) (htu : t ≤ u) (hsame : SameOn m1 m2 t u) : Swept m1 m2 u m := by
  intro a
  rw [h a]
  by_cases h1 : a < t
  · rw [if_pos h1, if_pos (by omega)]
  · rw [if_neg h1]
    by_cases h2 : a < u
    · rw [if_pos h2]
      exact hsame a (by omega) h2
    · rw [if_neg h2]

lemma Swept.put (h : Swept m1 m2 t m) : Swept m1 m2 (t + w) (put m t w (le m2 t w)) := by
  intro a
  by_cases h1 : t ≤ a ∧ a < t + w
  · rw [if_pos h1.2]
    obtain ⟨i, rfl⟩ := Nat.exists_eq_add_of_le h1.1
    refine le_inj (n := w) ?_ i (by omega)
    rw [le_put_same]
    exact mod_eq_of_lt (le_lt m2 t w)
  · rw [put_of_not_mem _ _ h1, h a]
    by_cases h2 : a < t
    · rw [if_pos h2, if_pos (by omega)]
    · rw [if_neg h2, if_neg (by omega)]

/-! ## the situation of the second phase -/

/-- the first phase has moved the image by `adjust1` to `m1`, the second one shall move it to `m2`,
which is moved by `adjust2` -/
structure RuntimeReady (imageSize fixupData adjust1 adjust2 adjust : Nat) (m0 m1 m2 : Mem)
    (xs : List Fixup) (c : RuntimeContext) : Prop where
  first : ∃ t, ImageRel imageSize adjust1 m0 xs t m1
  second : ∃ t, ImageRel imageSize adjust2 m0 xs t m2
  data : c.fixupData = recordedData fixupData adjust1 xs
  sum : (adjust1 + adjust) % 2^64 = adjust2
  image : imageSize + 2^12 ≤ 2^32

lemma relocWidth_cases {type w : Nat} (h : relocWidth type = some w) : w = 4 ∨ w = 8 := by
  unfold relocWidth at h
  split at h
  · exact .inl (Option.some.inj h).symm
  · split at h
    · exact .inr (Option.some.inj h).symm
    · split at h
      · exact .inl (Option.some.inj h).symm
      · cases h

variable {imageSize fixupData adjust1 adjust2 adjust : Nat} {m0 : Mem} {xs : List Fixup} {c : RuntimeContext}

variable {done rest : List Fixup} {s : RelocState} {x : Fixup} {pcd : Pcd} {u t d : Nat}

section
variable (h : RuntimeReady imageSize fixupData adjust1 adjust2 adjust m0 m1 m2 xs c)
include h

lemma RuntimeReady.moved (hx : x ∈ xs) : (x.moved adjust1 + adjust) % 256^x.width = le m2 x.target x.width := by
  obtain ⟨t, h2⟩ := h.second
  rw [h2.value x hx]
  unfold Fixup.moved
  rw [← h.sum, mod_add_mod]
  have hdvd : 256^x.width ∣ 2^64 := by
    rcases relocWidth_cases (h2.width x hx) with hw | hw <;> rw [hw] <;> decide
  rw [add_mod x.value, mod_mod_of_dvd _ hdvd, ← add_mod, add_assoc]

lemma RuntimeReady.gap (hxs : xs = done ++ rest) {t u : Nat}
    (hdone : ∀ x, x ∈ done → x.target + x.width ≤ t) (hrest : ∀ x, x ∈ rest → u ≤ x.target) :
    SameOn m1 m2 t u := by
  obtain ⟨t1, h1⟩ := h.first
  obtain ⟨t2, h2⟩ := h.second
  intro a ha hu
  have hout : ∀ x, x ∈ xs → ¬ (x.target ≤ a ∧ a < x.target + x.width) := by
    intro x hx hc
    rw [hxs] at hx
    rcases mem_append.mp hx with hx | hx
    · have := hdone x hx
      omega
    · have := hrest x hx
      omega
  rw [h1.frame a hout, h2.frame a hout]

lemma RuntimeReady.data_at (hxs : xs = done ++ x :: rest) : c.fixupData[done.length]? =
      some (if x.recorded = true then x.moved adjust1 else staleData fixupData adjust1 done) := by
  have key : ∀ (g : Nat) (done : List Fixup),
      (recordedData g adjust1 (done ++ x :: rest))[done.length]? =
        some (if x.recorded = true then x.moved adjust1 else staleData g adjust1 done) := by
    intro g done
    induction done generalizing g with
    | nil => rfl
    | cons y done ih =>
      rw [cons_append, recordedData, length_cons, List.getElem?_cons_succ, ih]
      rfl
  rw [h.data, hxs]
  exact key fixupData done

end

/-- the fixups `done` have been moved, and the target is `t` -/
structure RuntimeInv (fixupData adjust1 : Nat) (m1 m2 : Mem) (xs : List Fixup) (c : RuntimeContext)
    (done : List Fixup) (t : Nat) (s : RelocState) : Prop where
  context : s.context = some c
  swept : Swept m1 m2 t s.image
  below : ∀ x, x ∈ done → x.target + x.width ≤ t
  matched : MatchesUpTo fixupData adjust1 xs done.length

lemma RuntimeInv.advance (hr : RuntimeReady imageSize fixupData adjust1 adjust2 adjust m0 m1 m2 xs c)
    {y : Fixup} {t : Nat} (h : RuntimeInv fixupData adjust1 m1 m2 xs c done t s) (hxs : xs = done ++ y :: rest)
    (ht : t ≤ y.target) : RuntimeInv fixupData adjust1 m1 m2 xs c done y.target s := by
  obtain ⟨u, h1⟩ := hr.first
  have hap := h1.apart
  rw [hxs] at hap
  have hrest := (pairwise_cons.mp (pairwise_append.mp hap).2.1).1
  refine ⟨h.context, h.swept.move ht (hr.gap hxs h.below fun z hz => ?_),
    fun x hx => (h.below x hx).trans ht, h.matched⟩
  rcases mem_cons.mp hz with rfl | hz
  · exact le_rfl
  · exact (le_add_right _ _).trans (hrest z hz)

/-! ## one fixup -/

lemma wp_readFixupData {i d : Nat} {Q : Nat → RelocState → Prop} {E : Status → RelocState → Prop}
    (hc : s.context = some c) (hd : c.fixupData[i]? = some d) (hQ : Q d s) :
    wp (readFixupData i) Q E s := by
  unfold readFixupData
  rw [wp_bind, wp_gets, hc]
  dsimp only [Option.bind]
  rw [hd]
  exact hQ

lemma internalApplyRelocationRuntime_spec
    (hr : RuntimeReady imageSize fixupData adjust1 adjust2 adjust m0 m1 m2 xs c)
    (hpcd : pcd.imageLoaderRtRelocAllowTargetMismatch = false ∨ Matches fixupData adjust1 xs)
    (hxs : xs = done ++ x :: rest) (h : RuntimeInv fixupData adjust1 m1 m2 xs c done x.target s) :
    wp (internalApplyRelocationRuntime pcd imageSize x.relocType x.target adjust done.length)
      (fun t s => t = x.target + x.width ∧
        RuntimeInv fixupData adjust1 m1 m2 xs c (done ++ [x]) (x.target + x.width) s)
      (fun _ _ => ¬ Matches fixupData adjust1 xs) s := by
  obtain ⟨u, h1⟩ := hr.first
  have hx : x ∈ xs := hxs ▸ mem_append_right _ mem_cons_self
  have hfits := h1.fits x hx
  have himage := hr.image
  have hsub : (baseOverflowSubU32 imageSize x.target).1 = false := baseOverflowSubU32_fst.mpr (by omega)
  have hvalue : le s.image x.target x.width = x.moved adjust1 := (le_congr (h.swept.sameOn _)).trans (h1.value x hx)
  have hlt : x.moved adjust1 < 256^x.width := Nat.mod_lt _ (Nat.pow_pos (by norm_num))
  unfold internalApplyRelocationRuntime
  rw [wp_bind, wp_stopIf, hsub, baseOverflowSubU32_snd (by omega) hsub, h1.width x hx]
  refine ⟨fun hc => absurd hc Bool.false_ne_true, fun _ => ?_⟩
  show wp (stopIf _ _ >>= _) _ _ s
  refine wp_stopIf_bind (fun hc => absurd hc (by omega)) fun _ => ?_
  rw [wp_bind, wp_gets, wp_bind]
  refine wp_readFixupData h.context (hr.data_at hxs) ?_
  rw [hvalue, wp_ite]
  -- the recorded value is compared with the value of the fixup
  have hkept : (if x.recorded = true then x.moved adjust1 else staleData fixupData adjust1 done) %
      256^x.width = x.moved adjust1 ↔
      (x.recorded = false → x.moved adjust1 = staleData fixupData adjust1 done % 256^x.width) := by
    by_cases hrec : x.recorded = true
    · rw [if_pos hrec, mod_eq_of_lt hlt]
      simp [hrec]
    · rw [if_neg hrec]
      simp [hrec, eq_comm]
  refine ⟨fun hne => ?_, fun heq => ?_⟩
  · have hno : ¬ Matches fixupData adjust1 xs := fun hm =>
      hne (hkept.mpr (hm done x rest hxs)).symm
    rw [if_neg (by simp [hpcd.resolve_right hno]), wp_fail]
    exact hno
  · have hm := hkept.mp (not_not.mp heq).symm
    rw [wp_bind, wp_modify, wp_pure, hr.moved hx]
    refine ⟨add32_eq (by omega), h.context, h.swept.put, ?_, ?_⟩
    · intro y hy
      rcases mem_append.mp hy with hy | hy
      · exact (h.below y hy).trans (le_add_right _ _)
      · rw [mem_singleton.mp hy]
    · intro done' x' rest' hxs' hlen hrec
      rw [length_append, length_singleton] at hlen
      rcases Nat.lt_succ_iff_lt_or_eq.mp hlen with hlt' | heq'
      · exact h.matched done' x' rest' hxs' hlt' hrec
      · obtain ⟨rfl, hcons⟩ := append_inj (hxs'.symm.trans hxs) heq'
        cases hcons
        exact hm hrec

/-! ## the table -/

lemma unchainReloc_runtime (update : RuntimeContext → RuntimeContext) : unchainReloc true update = pure () := by
  funext s
  exact congrArg (fun s' => (Except.ok (), s')) (if_pos rfl)

lemma rootStep_runtime (table : RelocTable) (heads : TableState → UeReloc TableState) :
    rootStep table true heads = fixRoot table heads := by
  funext t
  show (stopIf _ _ >>= fun _ => (unchainReloc true _ >>= fun _ => _)) = _
  rfl

lemma headStepRuntime_eq (pcd : Pcd) (imageSize : Nat) (table : RelocTable) (adjust : Nat) :
    headStepRuntime pcd imageSize table adjust =
      fixHead table (fun type target d => internalApplyRelocationRuntime pcd imageSize type target adjust d)
        (· + 1) := by
  funext t
  rfl

lemma relocateRoots_runtime (table : RelocTable) (heads : TableState → UeReloc TableState) (d : Nat) :
    relocateRoots table true heads d = fixRoots table heads d := by
  unfold relocateRoots fixRoots
  rw [rootStep_runtime]

/-- the invariant, in terms of the types and targets of the fixups -/
def RuntimeAt (fixupData adjust1 : Nat) (m1 m2 : Mem) (xs : List Fixup) (c : RuntimeContext)
    (spots : List (Nat × Nat)) (u t d : Nat) (s : RelocState) : Prop :=
  t = u ∧ ∃ done rest, xs = done ++ rest ∧ done.map Fixup.spot = spots ∧ d = done.length ∧
    RuntimeInv fixupData adjust1 m1 m2 xs c done t s

lemma RuntimeAt.next {done' rest' : List (Nat × Nat)} {x : Nat × Nat}
    (h : RuntimeAt fixupData adjust1 m1 m2 xs c done' u t d s) (hspots : xs.map Fixup.spot = done' ++ x :: rest') :
    t = u ∧ ∃ done y rest, xs = done ++ y :: rest ∧ done.map Fixup.spot = done' ∧ y.spot = x ∧ d = done.length ∧
      RuntimeInv fixupData adjust1 m1 m2 xs c done t s := by
  obtain ⟨htu, done, rest, hxs, hdone, hd, hinv⟩ := h
  rw [hxs, map_append, hdone] at hspots
  obtain ⟨y, rest, rfl, hy, -⟩ := map_eq_cons_iff.mp (append_cancel_left hspots)
  exact ⟨htu, done, y, rest, hxs, hdone, hy, hd, hinv⟩

section
variable (hr : RuntimeReady imageSize fixupData adjust1 adjust2 adjust m0 m1 m2 xs c)
include hr

lemma runtime_traversal (hpcd : pcd.imageLoaderRtRelocAllowTargetMismatch = false ∨ Matches fixupData adjust1 xs) : Traversal imageSize
      (fun type target d => internalApplyRelocationRuntime pcd imageSize type target adjust d) (· + 1)
      (xs.map Fixup.spot) (RuntimeAt fixupData adjust1 m1 m2 xs c)
      (fun _ _ => ¬ Matches fixupData adjust1 xs) := by
  obtain ⟨v, h1⟩ := hr.first
  have hwidth : ∀ x ∈ xs, relocWidth x.spot.1 = some x.width ∧ spotWidth x.spot = x.width := by
    intro x hx
    have hw := h1.width x hx
    refine ⟨hw, ?_⟩
    show (relocWidth x.relocType).getD 0 = x.width
    rw [hw]
    rfl
  refine {
    image := hr.image
    width := ?_
    fits := ?_
    behind := fun h => le_of_eq h.1
    advance := ?_
    step := ?_ }
  · intro y hy
    obtain ⟨x, hx, rfl⟩ := mem_map.mp hy
    rw [(hwidth x hx).2]
    exact (hwidth x hx).1
  · intro y hy
    obtain ⟨x, hx, rfl⟩ := mem_map.mp hy
    rw [(hwidth x hx).2]
    exact h1.fits x hx
  · intro done' x rest' u t d s hspots hle h
    obtain ⟨rfl, done, y, rest, hxs, hdone, rfl, hd, hinv⟩ := h.next hspots
    rw [Nat.add_sub_cancel' hle]
    exact ⟨rfl, done, y :: rest, hxs, hdone, hd, hinv.advance hr hxs hle⟩
  · intro done' x rest' t d s hspots h
    obtain ⟨rfl, done, y, rest, hxs, hdone, rfl, rfl, hinv⟩ := h.next hspots
    have hy : y ∈ xs := hxs ▸ mem_append_right _ mem_cons_self
    refine wp_post (internalApplyRelocationRuntime_spec hr hpcd hxs hinv) (fun t' s' h' => ?_)
    obtain ⟨rfl, hinv'⟩ := h'
    rw [(hwidth y hy).2]
    refine ⟨rfl, done ++ [y], rest, ?_, ?_, ?_, hinv'⟩
    · rw [hxs, append_assoc]
      rfl
    · rw [map_append, hdone]
      rfl
    · rw [length_append]
      rfl

lemma RuntimeAt.finished (h : RuntimeAt fixupData adjust1 m1 m2 xs c (xs.map Fixup.spot) u t d s) :
    s.image = m2 ∧ Matches fixupData adjust1 xs := by
  obtain ⟨-, done, rest, hxs, hdone, -, hinv⟩ := h
  have hlen := congrArg List.length hdone
  rw [length_map, length_map, hxs, length_append] at hlen
  obtain rfl : rest = [] := eq_nil_of_length_eq_zero (by omega)
  rw [append_nil] at hxs
  subst hxs
  constructor
  · funext a
    rw [hinv.swept a]
    by_cases ha : a < t
    · rw [if_pos ha]
    · rw [if_neg ha]
      exact hr.gap (append_nil _).symm hinv.below
        (fun x hx => absurd hx not_mem_nil) a (not_lt.mp ha) (lt_succ_self a)
  · intro dn x rest hd hrec
    refine hinv.matched dn x rest hd ?_ hrec
    rw [hd, length_append, length_cons]
    omega

end

/-! ## the whole table -/

/-- **the second phase over the table that the first one has left** -/
theorem ueRelocateImageForRuntime_spec (hr : RuntimeReady imageSize fixupData adjust1 adjust2 adjust m0 m1 m2 xs c)
    (hpcd : pcd.imageLoaderRtRelocAllowTargetMismatch = false ∨ Matches fixupData adjust1 xs)
    {stage : Stage} {n t : Nat} (hclosed : stage.Closed n t)
    (hcontext : ContextRel fixupData adjust1 xs stage c) (hn : 8 * n + 8 ≤ 2^32)
    (hlen : xs.length ≤ 2^29) {imageAddress baseAddress : Nat}
    (hadjust : sub64 baseAddress imageAddress = adjust) (hne : adjust ≠ 0) :
    wp (ueRelocateImageForRuntime pcd imageAddress imageSize c baseAddress)
      (fun _ s => s.image = m2 ∧ Matches fixupData adjust1 xs)
      (fun _ _ => ¬ Matches fixupData adjust1 xs) ⟨m1, some c⟩ := by
  obtain ⟨rs, rfl, hrs, hok, -⟩ := hclosed
  obtain ⟨⟨hsize, hroots⟩, hspots, -, -⟩ := hcontext
  have hspots' : rootSpots 0 rs = xs.map Fixup.spot := hspots
  have hlt : rootsSize rs < 2^32 := by
    have := rootsSize_le 0 rs
    rw [hspots', length_map] at this
    omega
  unfold ueRelocateImageForRuntime internaRelocateImageRuntime
  rw [hadjust]
  by_cases h0 : c.unchainedRelocsSize = 0
  · -- there are no fixups at all
    rw [hsize, rootsSize_eq_zero] at h0
    subst h0
    have hnil : xs = [] := map_eq_nil_iff.mp hspots'.symm
    rw [if_pos (.inl (hsize.trans rfl)), wp_pure]
    obtain ⟨t1, h1⟩ := hr.first
    obtain ⟨t2, h2⟩ := hr.second
    refine ⟨h1.unique h2 fun x hx => ?_, fun d x rest hd => ?_⟩
    · rw [hnil] at hx
      exact absurd hx not_mem_nil
    · rw [hnil] at hd
      exact absurd hd.symm (append_ne_nil_of_right_ne_nil _ (cons_ne_nil _ _))
  · rw [if_neg (fun hc => hc.elim h0 hne)]
    have hinv : RuntimeInv fixupData adjust1 m1 m2 xs c [] 0 ⟨m1, some c⟩ := {
      context := rfl
      swept := fun a => (if_neg (not_lt_zero a)).symm
      below := fun x hx => absurd hx not_mem_nil
      matched := fun _ _ _ _ hlt => absurd hlt (not_lt_zero _) }
    have hmin := Between.six_le ⟨hsize, hroots⟩ hok h0
    have hlt' : (RelocTable.mk c.unchainedRelocs c.unchainedRelocsSize).size < 2^32 := by
      show c.unchainedRelocsSize < 2^32
      rw [hsize]
      exact hlt
    rw [relocateRoots_runtime, headStepRuntime_eq]
    refine wp_post ((runtime_traversal hr hpcd).roots hlt' hmin hok hspots'.symm hroots hsize.symm 0 _
      ⟨rfl, [], xs, rfl, rfl, rfl, hinv⟩) (fun _ s h => ?_)
    obtain ⟨u, t', d', h⟩ := h
    exact h.finished hr

end

end Audk.Ue
