import Audk.PeCoff.RelocateContract

/-!
# The second relocation of runtime drivers

`PeCoffRuntimeRelocateImage` walks the table once more, after the operating system has taken over,
and moves the targets that still hold what the first relocation has left there.  The two walks must
enumerate the table in lock-step with the bookkeeping.

* `runtimeEntry_spec`, `runtimeBlock_spec`, `runtimeBlocks_spec`: one entry, one block, all blocks;
* `peCoffRuntimeRelocateImage_twoPhase`: both calls together.
-/

namespace Audk.PeCoff

open Bytes Prog Arith List Option Nat

def Kept (m m' : Mem) (t : Target) : Prop := le m t.addr t.cell.width = le m' t.addr t.cell.width

instance (m m' : Mem) (t : Target) : Decidable (Kept m m' t) := inferInstanceAs (Decidable (_ = _))

def keptTargets (m m' : Mem) (es : List (Nat × Nat)) : List Target :=
  (targets es).filter fun t => decide (Kept m m' t)

def DisjointTargets (es : List (Nat × Nat)) : Prop := (targets es).Pairwise fun t u => t.span.Disjoint u.span

/-- the first relocation has left the memory `m₁` and the context `rt`; the memory is now `m₂` -/
structure RuntimeReady (pcd : Pcd) (ctx : PeContext) (m₁ m₂ : Mem) (rt : RuntimeContext)
    (es : List (Nat × Nat)) : Prop where
  dir : HasRelocDir ctx
  fits : tableEnd pcd (dirTop ctx) < 2^32
  table : TableOk pcd ctx m₂ ctx.relocDirRva es
  disjoint : DisjointTargets es
  rva : rt.relocDirRva = ctx.relocDirRva
  size : rt.relocDirSize = ctx.relocDirSize
  fixups : ∀ i e, es[i]? = some e → rt.fixupData i = recorded e m₁

/-- the entries `p` have been processed -/
structure RuntimeInv (pcd : Pcd) (adjust : Nat) (m₁ m₂ : Mem) (rt : RuntimeContext)
    (p : List (Nat × Nat)) (s : RelocState) : Prop where
  runtime : s.runtime = rt
  image : s.image = shiftAll adjust (keptTargets m₁ m₂ p) m₂
  strict : pcd.imageLoaderRtRelocAllowTargetMismatch = false → ∀ t, t ∈ targets p → Kept m₁ m₂ t
  pairs : s.pairs = (pairsOf 0 p).reverse

/-- the run stopped at a target that has changed -/
structure Mismatched (pcd : Pcd) (m₁ m₂ : Mem) (es : List (Nat × Nat)) (st : Stop)
    (s : RelocState) : Prop where
  status : st = corrupted
  policy : pcd.imageLoaderRtRelocAllowTargetMismatch = false
  changed : ∃ t, t ∈ targets es ∧ ¬ Kept m₁ m₂ t
  pairs : ∀ q, q ∈ s.pairs → q ∈ pairsOf 0 es

section
variable {pcd : Pcd} {ctx : PeContext} {adjust : Nat} {m₁ m₂ : Mem} {rt : RuntimeContext}
  {es p : List (Nat × Nat)} {s : RelocState}

lemma keptTargets_append (p q : List (Nat × Nat)) :
    keptTargets m₁ m₂ (p ++ q) = keptTargets m₁ m₂ p ++ keptTargets m₁ m₂ q := by
  simp [keptTargets, targets_append]

variable {e : Nat × Nat} {t : Target} {s₁ : RelocState} {b₁ b₂ fuel : Nat} {m₀ : Mem} {c : Cell}

lemma mem_keptTargets : t ∈ keptTargets m₁ m₂ es ↔ t ∈ targets es ∧ Kept m₁ m₂ t := by
  simp [keptTargets]

lemma EntryOk.target (h : EntryOk pcd ctx e) (ht : targetOf e = some t) : t.addr + t.cell.width ≤ ctx.sizeOfImage ∧
      (t.addr + t.cell.width ≤ ctx.relocDirRva ∨ dirTop ctx ≤ t.addr) := by
  rcases h with h0 | ⟨u, hu, h1, h2, -⟩
  · have : targetOf e = none := by
      show (relocCell e.1).map _ = none
      rw [h0]
      rfl
    rw [this] at ht
    cases ht
  · rw [hu] at ht
    cases ht
    exact ⟨h1, h2⟩

lemma RuntimeReady.outside (h : RuntimeReady pcd ctx m₁ m₂ rt es)
    (ht : t ∈ targets es) : t.addr + t.cell.width ≤ ctx.relocDirRva ∨ dirTop ctx ≤ t.addr := by
  obtain ⟨e, he, hte⟩ := mem_targets.mp ht
  exact ((h.table.2 e he).target hte).2

lemma RuntimeInv.read (h : RuntimeInv pcd adjust m₁ m₂ rt p s) (l : List Span) :
    RuntimeInv pcd adjust m₁ m₂ rt p { s with reads := l } :=
  ⟨h.runtime, h.image, h.strict, h.pairs⟩

lemma RuntimeInv.table (hr : RuntimeReady pcd ctx m₁ m₂ rt es) (hp : p <+: es)
    (h : RuntimeInv pcd adjust m₁ m₂ rt p s) :
    SameOn s.image m₂ ctx.relocDirRva (dirTop ctx) := by
  rw [h.image]
  apply sameOn_shiftAll
  intro t ht
  have hmem : t ∈ targets es := by
    obtain ⟨e, he, hte⟩ := mem_targets.mp (mem_keptTargets.mp ht).1
    exact mem_targets.mpr ⟨e, hp.subset he, hte⟩
  exact (hr.outside hmem).symm

/-- the targets still to come hold what they held when the walk began -/
lemma RuntimeInv.le_target (hr : RuntimeReady pcd ctx m₁ m₂ rt es) (hp : p ++ [e] <+: es) (ht : targetOf e = some t)
    (h : RuntimeInv pcd adjust m₁ m₂ rt p s) :
    le s.image t.addr t.cell.width = le m₂ t.addr t.cell.width := by
  rw [h.image]
  apply le_congr
  apply sameOn_shiftAll
  intro u hu
  obtain ⟨q, rfl⟩ := hp
  have hd := hr.disjoint
  unfold DisjointTargets at hd
  rw [targets_append, targets_append] at hd
  have hcross := (pairwise_append.mp (pairwise_append.mp hd).1).2.2
  exact (hcross u (mem_keptTargets.mp hu).1 t (mem_targets.mpr ⟨e, mem_singleton_self e, ht⟩)).symm

/-! ## one entry -/

lemma internalApplyRelocationRuntime_eq {type t F : Nat} (hc : relocCell type = some c) :
    internalApplyRelocationRuntime pcd t type adjust F =
      patchUnchanged pcd (fun m => c.shift m t adjust) t c.width F := by
  unfold relocCell at hc
  unfold internalApplyRelocationRuntime
  by_cases h3 : type = relBasedHighlow
  · rw [if_pos h3] at hc ⊢
    cases hc
    rfl
  rw [if_neg h3] at hc ⊢
  by_cases h10 : type = relBasedDir64
  · rw [if_pos h10] at hc ⊢
    cases hc
    rfl
  rw [if_neg h10] at hc ⊢
  by_cases h7 : type = relBasedArmMov32t
  · rw [if_pos h7] at hc ⊢
    cases hc
    simp only [thumbFixup_eq_shift]
    rfl
  · rw [if_neg h7] at hc
    cases hc

lemma RuntimeReady.targetOf_eq (hr : RuntimeReady pcd ctx m₁ m₂ rt es) (he : e ∈ es) (h0 : e.1 ≠ relBasedAbsolute) :
    ∃ c, relocCell e.1 = some c ∧ targetOf e = some ⟨c, e.2⟩ ∧ e.2 + c.width ≤ ctx.sizeOfImage := by
  obtain ⟨t, ht, hle, -⟩ := (hr.table.2 e he).resolve_left h0
  obtain ⟨c, hc, rfl⟩ := map_eq_some_iff.mp ht
  exact ⟨c, hc, ht, hle⟩

lemma targets_single_none (h : targetOf e = none) : targets [e] = [] := by
  simp [targets, h]

lemma targets_single_some (h : targetOf e = some t) : targets [e] = [t] := by
  simp [targets, h]

lemma RuntimeInv.skip (h : RuntimeInv pcd adjust m₁ m₂ rt p s)
    (h0 : e.1 = relBasedAbsolute) : RuntimeInv pcd adjust m₁ m₂ rt (p ++ [e]) s := by
  have hnone : targetOf e = none := by
    show (relocCell e.1).map _ = none
    rw [h0]
    rfl
  have hpairs : pairsOf p.length [e] = [] := if_pos h0
  refine ⟨h.runtime, ?_, ?_, ?_⟩
  · rw [keptTargets_append, keptTargets, keptTargets, targets_single_none hnone]
    simpa [keptTargets] using h.image
  · rw [targets_append, targets_single_none hnone, append_nil]
    exact h.strict
  · rw [pairsOf_append, zero_add, hpairs, append_nil]
    exact h.pairs

/-- the bookkeeping of an entry with a target: apply it if the target was kept -/
lemma patchUnchanged_spec (hr : RuntimeReady pcd ctx m₁ m₂ rt es)
    (h0 : e.1 ≠ relBasedAbsolute) (ht : targetOf e = some ⟨c, e.2⟩) (hp : p ++ [e] <+: es)
    (h : RuntimeInv pcd adjust m₁ m₂ rt p s) (l : List Span) :
    wp (patchUnchanged pcd (fun m => c.shift m e.2 adjust) e.2 c.width (rt.fixupData p.length))
      (fun _ s' => RuntimeInv pcd adjust m₁ m₂ rt (p ++ [e]) s') (Mismatched pcd m₁ m₂ es)
      { s with reads := l, pairs := (p.length, e.2) :: s.pairs } := by
  have hget : es[p.length]? = some e := by
    obtain ⟨q, rfl⟩ := hp
    simp
  have hfix : rt.fixupData p.length = le m₁ e.2 c.width := by
    rw [hr.fixups _ e hget, recorded, ht]
  have hval : le s.image e.2 c.width = le m₂ e.2 c.width := h.le_target hr hp ht
  have hmem : (⟨c, e.2⟩ : Target) ∈ targets es := mem_targets.mpr ⟨e, hp.subset (by simp), ht⟩
  have hpairs : (p.length, e.2) :: s.pairs = (pairsOf 0 (p ++ [e])).reverse := by
    have hone : pairsOf p.length [e] = [(p.length, e.2)] := if_neg h0
    rw [pairsOf_append, zero_add, hone, h.pairs]
    simp
  rw [patchUnchanged, wp_bind, wp_gets, wp_ite]
  show (rt.fixupData p.length ≠ le s.image e.2 c.width → _) ∧ (¬ rt.fixupData p.length ≠ le s.image e.2 c.width → _)
  rw [hfix, hval]
  refine ⟨fun hne => ?_, fun heq => ?_⟩
  · have hchanged : ¬ Kept m₁ m₂ ⟨c, e.2⟩ := hne
    rw [wp_stopIf]
    refine ⟨fun hpol => ⟨rfl, hpol, ⟨_, hmem, hchanged⟩, fun q hq => ?_⟩, fun hpol => ?_⟩
    · have hq' : q ∈ (pairsOf 0 (p ++ [e])).reverse := hpairs ▸ hq
      obtain ⟨r, rfl⟩ := hp
      rw [pairsOf_append]
      exact mem_append_left _ (mem_reverse.mp hq')
    · refine ⟨h.runtime, ?_, fun hf => absurd hf hpol, hpairs⟩
      rw [keptTargets_append]
      simpa [keptTargets, targets_single_some ht, hchanged] using h.image
  · have hkept : Kept m₁ m₂ ⟨c, e.2⟩ := not_not.mp heq
    refine ⟨h.runtime, ?_, fun hpol t hmem' => ?_, hpairs⟩
    · show c.shift s.image e.2 adjust = _
      rw [keptTargets_append, shiftAll_append, ← h.image]
      simp [keptTargets, targets_single_some ht, hkept, shiftAll_cons, shiftAll_nil]
    · rw [targets_append, targets_single_some ht] at hmem'
      rcases mem_append.mp hmem' with hm | hm
      · exact h.strict hpol t hm
      · rw [mem_singleton.mp hm]
        exact hkept

lemma runtimeEntry_spec (hr : RuntimeReady pcd ctx m₁ m₂ rt es) {off i : Nat} (hlo : ctx.relocDirRva ≤ off)
    (hhi : off + sizeofBaseRelocationBlock + 2 * i + 2 ≤ dirTop ctx)
    (hp : p ++ [entryAt m₂ off i] <+: es) (h : RuntimeInv pcd adjust m₁ m₂ rt p s) :
    wp (runtimeEntry pcd off adjust i p.length)
      (fun _ s' => RuntimeInv pcd adjust m₁ m₂ rt (p ++ [entryAt m₂ off i]) s')
      (Mismatched pcd m₁ m₂ es) s := by
  have htab := h.table hr ((prefix_append _ _).trans hp)
  have hreloc : le s.image (off + sizeofBaseRelocationBlock + 2 * i) 2 =
      le m₂ (off + sizeofBaseRelocationBlock + 2 * i) 2 := le_congr (htab.mono (by omega) hhi)
  have hva : le s.image off 4 = le m₂ off 4 :=
    le_congr (htab.mono hlo (by
      have : off + 8 + 2 * i + 2 ≤ dirTop ctx := hhi
      omega))
  have hmem : entryAt m₂ off i ∈ es := hp.subset (by simp)
  rw [runtimeEntry, wp_bind, wp_tableRead, hreloc, wp_ite]
  refine ⟨fun h0 => ?_, fun h0 => ?_⟩
  · exact (h.read _).skip h0
  obtain ⟨c, hc, ht, hle⟩ := hr.targetOf_eq hmem h0
  have hlt := hr.dir.size_lt
  have hsum : add32 (le m₂ off 4)
      (le m₂ (off + sizeofBaseRelocationBlock + 2 * i) 2 &&& 0x0FFF) = (entryAt m₂ off i).2 :=
    add32_eq (show (entryAt m₂ off i).2 < 2^32 by omega)
  have key : ∀ target (l : List Span), target = (entryAt m₂ off i).2 →
      wp (do
        modify fun s : RelocState => { s with pairs := (p.length, target) :: s.pairs }
        let fixupData ← gets fun s => s.runtime.fixupData p.length
        internalApplyRelocationRuntime pcd target (entryAt m₂ off i).1 adjust fixupData)
      (fun _ s' => RuntimeInv pcd adjust m₁ m₂ rt (p ++ [entryAt m₂ off i]) s')
      (Mismatched pcd m₁ m₂ es) { s with reads := l } := by
    intro target l htarget
    subst htarget
    rw [wp_bind, wp_modify, wp_bind, wp_gets, internalApplyRelocationRuntime_eq hc]
    have := patchUnchanged_spec hr h0 ht hp h l
    rwa [← h.runtime] at this ⊢
  rw [wp_bind, wp_tableRead]
  exact key _ _ (by rw [← hsum, ← hva])

/-! ## blocks -/

lemma RuntimeReady.length_lt (hr : RuntimeReady pcd ctx m₁ m₂ rt es) (hp : p <+: es) : p.length < 2^31 := by
  have h1 := hr.table.1.length_le
  have h2 := hp.length_le
  have h3 := hr.fits
  omega

lemma nextBlock_eq {off size fin : Nat} (hsz : size < 2^32)
    (hnext : off + blockLength pcd size ≤ fin) (hfin : fin < 2^32) :
    add32 off (if pcd.relocationBlockSizes = false then size else alignValue size 4) =
      off + blockLength pcd size := by
  unfold blockLength at *
  by_cases hs : pcd.relocationBlockSizes = false
  · rw [if_pos hs] at hnext ⊢
    rw [if_pos hs, add32_eq (by omega)]
  · rw [if_neg hs] at hnext ⊢
    rw [if_neg hs, alignValue_eq (by decide) (by norm_num) hsz (by omega), add32_eq (by omega)]

section
variable (hr : RuntimeReady pcd ctx m₁ m₂ rt es)
include hr

lemma runtimeLoop_spec {off n : Nat} (hlo : ctx.relocDirRva ≤ off)
    (hhi : off + sizeofBaseRelocationBlock + 2 * n ≤ dirTop ctx)
    (hp : p ++ (List.range n).map (entryAt m₂ off) <+: es) (h : RuntimeInv pcd adjust m₁ m₂ rt p s) :
    wp (loop (fun i _ => runtimeEntry pcd off adjust i (add32 p.length i)) 0 n ())
      (fun _ s' => RuntimeInv pcd adjust m₁ m₂ rt (p ++ (List.range n).map (entryAt m₂ off)) s')
      (Mismatched pcd m₁ m₂ es) s := by
  have hloop := wp_loop (E := Mismatched pcd m₁ m₂ es)
    (fun i _ => runtimeEntry pcd off adjust i (add32 p.length i))
    (fun j _ s' => RuntimeInv pcd adjust m₁ m₂ rt (p ++ (List.range j).map (entryAt m₂ off)) s')
    0 n () (by simpa using h) ?_
  · rwa [zero_add] at hloop
  intro j _ t _ hj hinv
  rw [zero_add] at hj
  have hstep : p ++ (List.range j).map (entryAt m₂ off) ++ [entryAt m₂ off j] =
      p ++ (List.range (j+1)).map (entryAt m₂ off) := by
    simp [range_succ]
  have hpre : p ++ (List.range (j+1)).map (entryAt m₂ off) <+: es := by
    obtain ⟨d, hd⟩ := Nat.exists_eq_add_of_le (Nat.succ_le_of_lt hj)
    rw [hd, range_add, map_append, ← append_assoc] at hp
    exact (prefix_append _ _).trans hp
  have hlen : (p ++ (List.range j).map (entryAt m₂ off)).length = p.length + j := by simp
  have hbound := hr.length_lt hpre
  have hidx : add32 p.length j = (p ++ (List.range j).map (entryAt m₂ off)).length := by
    rw [hlen, add32_eq]
    simp at hbound
    omega
  rw [hidx, ← hstep]
  exact runtimeEntry_spec hr hlo (by omega) (hstep ▸ hpre) hinv

lemma runtimeBlock_spec {off : Nat}
    (hlo : ctx.relocDirRva ≤ off) (hhdr : off + sizeofBaseRelocationBlock ≤ dirTop ctx)
    (hmin : sizeofBaseRelocationBlock ≤ le m₂ (off + 4) 4) (hfit : off + le m₂ (off + 4) 4 ≤ dirTop ctx)
    (hnext : off + blockLength pcd (le m₂ (off + 4) 4) ≤ tableEnd pcd (dirTop ctx))
    (hp : p ++ blockEntries m₂ off <+: es) (h : RuntimeInv pcd adjust m₁ m₂ rt p s) :
    wp (runtimeBlock pcd adjust off p.length) (fun r s' => r = (off + blockLength pcd (le m₂ (off + 4) 4),
          (p ++ blockEntries m₂ off).length) ∧ RuntimeInv pcd adjust m₁ m₂ rt (p ++ blockEntries m₂ off) s')
      (Mismatched pcd m₁ m₂ es) s := by
  have hm8 : 8 ≤ le m₂ (off + 4) 4 := hmin
  have hfits := hr.fits
  have hsz : le m₂ (off + 4) 4 < 2^32 := le_lt m₂ (off + 4) 4
  have hread : ∀ q t, q <+: es → RuntimeInv pcd adjust m₁ m₂ rt q t →
      le t.image (off + 4) 4 = le m₂ (off + 4) 4 := fun q t hq ht =>
    le_congr ((ht.table hr hq).mono (by omega) (by omega))
  have hblen := hr.length_lt hp
  rw [runtimeBlock, wp_bind, wp_tableRead, hread p s ((prefix_append _ _).trans hp) h,
    sub32_eq hmin hsz, wp_bind]
  have hhi : off + sizeofBaseRelocationBlock +
      2 * ((le m₂ (off + 4) 4 - sizeofBaseRelocationBlock) / 2) ≤ dirTop ctx := by omega
  apply wp_post (runtimeLoop_spec hr hlo hhi hp (h.read (⟨off + 4, 4⟩ :: s.reads))) _
  intro _ t ht
  rw [wp_bind, wp_tableRead, hread _ t hp ht, wp_pure]
  refine ⟨Prod.ext ?_ ?_, ht.read _⟩
  · show add32 off _ = _
    rw [nextBlock_eq hsz hnext hfits]
  · have hlen : (p ++ blockEntries m₂ off).length =
        p.length + (le m₂ (off + 4) 4 - sizeofBaseRelocationBlock) / 2 := by
      rw [length_append, blockEntries, length_map, length_range]
      rfl
    rw [hlen] at hblen ⊢
    exact add32_eq (by omega)

/-- the walk over the rest of the table, by induction on that rest -/
lemma runtimeBlocks_spec {off fuel : Nat} {rest : List (Nat × Nat)}
    (htab : Table pcd m₂ (dirTop ctx) (tableEnd pcd (dirTop ctx)) off rest)
    (hes : p ++ rest = es) (hlo : ctx.relocDirRva ≤ off) (hfuel : tableEnd pcd (dirTop ctx) < off + 8 * fuel)
    (h : RuntimeInv pcd adjust m₁ m₂ rt p s) : wp (runtimeBlocks pcd adjust (dirTop ctx) fuel off p.length)
      (fun _ s' => RuntimeInv pcd adjust m₁ m₂ rt es s') (Mismatched pcd m₁ m₂ es) s := by
  have hend := le_tableEnd pcd (dirTop ctx)
  induction htab generalizing p fuel s with
  | done =>
    cases fuel with
    | zero => omega
    | succ fuel =>
      rw [append_nil] at hes
      rw [runtimeBlocks, wp_repeatWhile_succ]
      exact ⟨fun hlt => absurd hend (not_le.mpr hlt), fun _ => hes ▸ h⟩
  | block off rest hhdr hmin hfit halign hrest ih =>
    have hm8 : 8 ≤ le m₂ (off + 4) 4 := hmin
    cases fuel with
    | zero => omega
    | succ fuel =>
      have hnext := hrest.length_le
      have hlen := size_le_blockLength pcd (le m₂ (off + 4) 4)
      rw [← append_assoc] at hes
      rw [runtimeBlocks, wp_repeatWhile_succ]
      refine ⟨fun _ => ?_, fun hge => absurd (show off < dirTop ctx by omega) hge⟩
      apply wp_post (runtimeBlock_spec hr hlo hhdr hmin hfit (by omega) (hes ▸ prefix_append _ _) h) _
      intro r t hrt
      obtain ⟨rfl, hinv⟩ := hrt
      exact ih hes (by omega) (by omega) hinv

lemma peCoffRuntimeRelocateImage_spec {imageAddress baseAddress fuel : Nat} (hne : sub64 baseAddress imageAddress ≠ 0)
    (hfuel : ctx.relocDirSize < fuel) : wp (peCoffRuntimeRelocateImage pcd imageAddress baseAddress fuel)
      (fun _ s' => RuntimeInv pcd (sub64 baseAddress imageAddress) m₁ m₂ rt es s')
      (Mismatched pcd m₁ m₂ es) (RelocState.start m₂ rt) := by
  have h8 : 8 ≤ ctx.relocDirSize := hr.dir.min
  have htop := hr.dir.top_le
  have hlt := hr.dir.size_lt
  have hend := tableEnd_lt pcd (dirTop ctx)
  have hdir : dirTop ctx = ctx.relocDirRva + ctx.relocDirSize := rfl
  have h0 : RuntimeInv pcd (sub64 baseAddress imageAddress) m₁ m₂ rt [] (RelocState.start m₂ rt) :=
    ⟨rfl, rfl, fun _ t ht => absurd ht not_mem_nil, rfl⟩
  have hz : rt.relocDirSize ≠ 0 := by
    rw [hr.size]
    omega
  rw [peCoffRuntimeRelocateImage, wp_bind, wp_gets, wp_ite]
  refine ⟨fun hc => absurd hc hz, fun _ => ?_⟩
  rw [wp_ite]
  refine ⟨fun hc => absurd hc hne, fun _ => ?_⟩
  show wp (runtimeBlocks pcd (sub64 baseAddress imageAddress)
      (add32 rt.relocDirRva rt.relocDirSize) fuel rt.relocDirRva 0 >>= fun _ => pure ()) _ _ _
  rw [hr.rva, hr.size, add32_eq (by omega), wp_bind]
  exact runtimeBlocks_spec hr hr.table.1 rfl le_rfl (by omega) h0

end

/-! ## both relocations -/

/-- the entries of the relocation table in the memory `m` -/
def ParsedTable (pcd : Pcd) (ctx : PeContext) (m : Mem) (es : List (Nat × Nat)) : Prop :=
  ctx.relocDirSize = 0 ∧ es = [] ∨ ctx.relocDirSize ≠ 0 ∧ TableOk pcd ctx m ctx.relocDirRva es

/-- the outcome of the call for `b₂` on the memory `m₂`, after a first call for `b₁` has turned the
memory `m₀` with the table `es` into the state `s₁` -/
structure TwoPhase (pcd : Pcd) (ctx : PeContext) (b₁ b₂ : Nat) (es : List (Nat × Nat)) (m₀ : Mem)
    (s₁ : RelocState) (m₂ : Mem) (out : Except Stop Unit × RelocState) : Prop where
  terminates : out.1 = .ok () ∨ out.1 = .error corrupted
  paired : ∀ q, q ∈ out.2.pairs → q ∈ s₁.pairs
  complete : out.1 = .ok () → b₂ ≠ b₁ → out.2.pairs = s₁.pairs
  direct : (∀ t, t ∈ targets es → Kept s₁.image m₂ t) → out.1 = .ok () ∧
    (∀ t, t ∈ targets es → SameOn out.2.image
      (shiftAll (sub64 b₂ ctx.imageBase) (targets es) m₀) t.addr (t.addr + t.cell.width)) ∧
    ∀ i, (∀ t, t ∈ targets es → ¬ (t.addr ≤ i ∧ i < t.addr + t.cell.width)) → out.2.image i = m₂ i
  lenient : pcd.imageLoaderRtRelocAllowTargetMismatch = true → out.1 = .ok () ∧
    (b₂ = b₁ → out.2.image = m₂) ∧
    (b₂ ≠ b₁ → out.2.image = shiftAll (sub64 b₂ b₁) (keptTargets s₁.image m₂ es) m₂)
  strict : pcd.imageLoaderRtRelocAllowTargetMismatch = false → b₂ ≠ b₁ →
    (out.1 = .error corrupted ↔ ∃ t, t ∈ targets es ∧ ¬ Kept s₁.image m₂ t)

lemma relocCell_modulus {type : Nat} (hc : relocCell type = some c) : c.modulus ∣ 2^64 := by
  unfold relocCell at hc
  split at hc
  · cases hc
    exact ⟨2^32, by norm_num [Cell.word]⟩
  split at hc
  · cases hc
    exact ⟨1, by norm_num [Cell.word]⟩
  · split at hc
    · cases hc
      exact ⟨2^32, by norm_num [thumbCell]⟩
    · cases hc

lemma kept_sameOn {m m' : Mem} (h : Kept m m' t) : SameOn m m' t.addr (t.addr + t.cell.width) := by
  intro i h1 h2
  obtain ⟨d, rfl⟩ := Nat.exists_eq_add_of_le h1
  exact le_inj h d (by omega)

lemma keptTargets_eq_targets (h : ∀ t, t ∈ targets es → Kept m₁ m₂ t) : keptTargets m₁ m₂ es = targets es := by
  simpa [keptTargets] using h

lemma shift_twice {a b c : Nat} (ha : a < 2^64) (hb : b < 2^64) (hc : c < 2^64)
    (hd : DisjointTargets es) (ht : t ∈ targets es) (hk : Kept (shiftAll (sub64 b a) (targets es) m₀) m₂ t) :
    SameOn (shiftAll (sub64 c b) (targets es) m₂) (shiftAll (sub64 c a) (targets es) m₀)
      t.addr (t.addr + t.cell.width) := by
  obtain ⟨e, he, hte⟩ := mem_targets.mp ht
  obtain ⟨cell, hcell, rfl⟩ := map_eq_some_iff.mp hte
  have hmod : (sub64 b a + sub64 c b) % cell.modulus = sub64 c a % cell.modulus := by
    rw [← sub64_add ha hb hc, mod_mod_of_dvd _ (relocCell_modulus hcell)]
  have h1 := shiftAll_at (x := sub64 c b) (m := m₂) hd ht
  have h2 := shiftAll_at (x := sub64 b a) (m := m₀) hd ht
  have h3 := shiftAll_at (x := sub64 c a) (m := m₀) hd ht
  have h4 := cell.shift_congr (sub64 c b) ((kept_sameOn hk).symm.trans h2)
  rw [cell.shift_shift, cell.shift_eq_of_mod m₀ hmod] at h4
  exact h1.trans (h4.trans h3.symm)

/-- a first relocation that succeeded leaves the second one everything it needs -/
lemma runtimeReady_of_run {rt0 : RuntimeContext} {b₁ n fuel : Nat}
    (hacc : ctx.relocDirSize ≠ 0 → HasRelocDir ctx) (himage : ctx.imageBase < 2^64)
    (hb1 : b₁ < 2^64) (hn : peCoffLoaderGetRuntimeContextSize ctx = .ok n) (hfuel : ctx.relocDirSize < fuel)
    (hrun : peCoffRelocateImage pcd ctx b₁ (some n) fuel (.start m₀ rt0) = (.ok (), s₁))
    (hne : ctx.relocDirSize ≠ 0) (htab : TableOk pcd ctx m₀ ctx.relocDirRva es)
    (hd : DisjointTargets es) (hm2 : SameOn m₂ s₁.image ctx.relocDirRva (dirTop ctx)) :
    RuntimeReady pcd ctx s₁.image m₂ s₁.runtime es ∧ s₁.image = shiftAll (sub64 b₁ ctx.imageBase) (targets es) m₀ ∧
      s₁.pairs = (pairsOf 0 es).reverse := by
  have hsize : ContextSize ctx (some n) := fun _ h => Option.some.inj h ▸ hn
  have hspec := peCoffRelocateImage_spec pcd m₀ hacc himage hb1 hsize hfuel rt0
  obtain ⟨hinv, hhdr, hdone⟩ := wp_ok hspec hrun
  have hskip : ¬ Skips ctx b₁ (some n) := fun h => h.elim hne fun h => nomatch h.1
  obtain ⟨-, es', hes⟩ := hdone.resolve_left fun h => hskip h.1
  obtain rfl : es = es' := htab.unique hes.table
  have htab2 : TableOk pcd ctx m₂ ctx.relocDirRva es := ⟨htab.1.congr (hm2.trans hinv.table).symm le_rfl, htab.2⟩
  refine ⟨⟨hacc hne, hes.fits, htab2, hd, (hhdr rfl).1, (hhdr rfl).2, fun i e he => ?_⟩, hes.image, hes.pairs rfl⟩
  obtain ⟨hi, -⟩ := List.getElem?_eq_some_iff.mp he
  have := fixupsAfter_get (sub64 b₁ ctx.imageBase) 0 m₀ rt0.fixupData hd he
  rw [hes.fixups rfl i hi, hes.image, ← this, zero_add]

lemma peCoffRuntimeRelocateImage_skip (h : rt.relocDirSize = 0 ∨ sub64 b₂ b₁ = 0) :
    peCoffRuntimeRelocateImage pcd b₁ b₂ fuel (.start m₂ rt) = (.ok (), .start m₂ rt) := by
  have hwp : wp (peCoffRuntimeRelocateImage pcd b₁ b₂ fuel) (fun _ s' => s' = .start m₂ rt)
      (fun _ _ => False) (.start m₂ rt) := by
    rw [peCoffRuntimeRelocateImage, wp_bind, wp_gets, wp_ite]
    refine ⟨fun _ => rfl, fun hz => ?_⟩
    rw [wp_ite]
    exact ⟨fun _ => rfl, fun hn => (h.elim hz hn).elim⟩
  obtain ⟨h1, h2⟩ := wp_total hwp
  exact Prod.ext h1 h2

lemma TwoPhase.of_skip {b₁ b₂ : Nat} (hpairs : b₂ ≠ b₁ → s₁.pairs = []) (hes : b₂ ≠ b₁ → es = [])
    (hdirect : ∀ t, t ∈ targets es → Kept s₁.image m₂ t →
      SameOn m₂ (shiftAll (sub64 b₂ ctx.imageBase) (targets es) m₀) t.addr (t.addr + t.cell.width)) :
    TwoPhase pcd ctx b₁ b₂ es m₀ s₁ m₂ (.ok (), .start m₂ rt) where
  terminates := .inl rfl
  paired := fun q hq => absurd hq not_mem_nil
  complete := fun _ hne => (hpairs hne).symm
  direct := fun hk => ⟨rfl, fun t ht => hdirect t ht (hk t ht), fun _ _ => rfl⟩
  lenient := fun _ => ⟨rfl, fun _ => rfl, fun hne => by rw [hes hne]; rfl⟩
  strict := fun _ hne => by simp [hes hne, targets]

lemma TwoPhase.of_ready (hr : RuntimeReady pcd ctx s₁.image m₂ s₁.runtime es)
    (himg : s₁.image = shiftAll (sub64 b₁ ctx.imageBase) (targets es) m₀)
    (hpairs : s₁.pairs = (pairsOf 0 es).reverse) (himage : ctx.imageBase < 2^64)
    (hb1 : b₁ < 2^64) (hb2 : b₂ < 2^64) (hne : b₂ ≠ b₁) (hfuel : ctx.relocDirSize < fuel) :
    TwoPhase pcd ctx b₁ b₂ es m₀ s₁ m₂ (peCoffRuntimeRelocateImage pcd b₁ b₂ fuel (.start m₂ s₁.runtime)) := by
  have hspec := peCoffRuntimeRelocateImage_spec hr (fun h0 => hne ((sub64_eq_zero hb2 hb1).mp h0)) hfuel
  rcases hout : peCoffRuntimeRelocateImage pcd b₁ b₂ fuel (.start m₂ s₁.runtime) with ⟨e | _, s'⟩
  · have hmis := wp_error hspec hout
    obtain rfl := hmis.status
    obtain ⟨t, ht, hchanged⟩ := hmis.changed
    exact {
      terminates := .inr rfl
      paired := fun q hq => by
        rw [hpairs]
        exact mem_reverse.mpr (hmis.pairs q hq)
      complete := fun h => nomatch h
      direct := fun hk => absurd (hk t ht) hchanged
      lenient := fun hp => Bool.noConfusion (hmis.policy.symm.trans hp)
      strict := fun _ _ => ⟨fun _ => ⟨t, ht, hchanged⟩, fun _ => rfl⟩ }
  · have hinv := wp_ok hspec hout
    exact {
      terminates := .inl rfl
      paired := fun q hq => by
        rw [hpairs, ← hinv.pairs]
        exact hq
      complete := fun _ _ => hinv.pairs.trans hpairs.symm
      direct := fun hk => by
        have himg' := hinv.image
        rw [keptTargets_eq_targets hk] at himg'
        refine ⟨rfl, fun t ht => ?_, fun i hi => ?_⟩
        · have hkept := hk t ht
          rw [himg] at hkept
          show SameOn s'.image _ _ _
          rw [himg']
          exact shift_twice himage hb1 hb2 hr.disjoint ht hkept
        · show s'.image i = _
          rw [himg']
          exact shiftAll_frame hi
      lenient := fun _ => ⟨rfl, fun h => absurd h hne, fun _ => hinv.image⟩
      strict := fun hp _ => ⟨fun h => (nomatch h), fun ⟨t, ht, hc⟩ => absurd (hinv.strict hp t ht) hc⟩ }

end

/-- **the second relocation moves exactly the targets that the first one left and nobody changed** -/
theorem peCoffRuntimeRelocateImage_twoPhase {pcd : Pcd} {arch : Arch} {origin : ImageOrigin}
    {f : File} {ctx : PeContext} {log : List Span} {b₁ b₂ n fuel fuel' : Nat}
    {es : List (Nat × Nat)} {m₀ m₂ : Mem} {rt₀ : RuntimeContext} {s₁ : RelocState}
    (hctx : peCoffInitializeContext pcd arch origin f [] = (.ok ctx, log))
    (hb₁ : b₁ < 2^64) (hb₂ : b₂ < 2^64) (hn : peCoffLoaderGetRuntimeContextSize ctx = .ok n)
    (hes : ParsedTable pcd ctx m₀ es) (hd : DisjointTargets es) (hfuel : ctx.relocDirSize < fuel)
    (hrun : peCoffRelocateImage pcd ctx b₁ (some n) fuel (.start m₀ rt₀) = (.ok (), s₁))
    (hm₂ : SameOn m₂ s₁.image ctx.relocDirRva (dirTop ctx)) (hfuel' : ctx.relocDirSize < fuel') :
    TwoPhase pcd ctx b₁ b₂ es m₀ s₁ m₂ (peCoffRuntimeRelocateImage pcd b₁ b₂ fuel' (.start m₂ s₁.runtime)) := by
  obtain ⟨-, h⟩ := accepted_of_run hctx
  have himage : ctx.imageBase < 2^64 := h.base ▸ imageBase_lt f
  rcases hes with ⟨hz, rfl⟩ | ⟨hz, htab⟩
  · -- no table: both calls return at once
    have hsize : ContextSize ctx (some n) := fun _ h => Option.some.inj h ▸ hn
    have hspec := peCoffRelocateImage_spec pcd m₀ h.hasRelocDir himage hb₁ hsize hfuel rt₀
    obtain ⟨-, hhdr, hdone⟩ := wp_ok hspec hrun
    obtain ⟨-, -, hpairs⟩ := hdone.resolve_right fun hc => hc.1 (.inl hz)
    rw [peCoffRuntimeRelocateImage_skip (.inl ((hhdr rfl).2.trans hz))]
    exact TwoPhase.of_skip (fun _ => hpairs) (fun _ => rfl) fun t ht => absurd ht not_mem_nil
  · obtain ⟨hr, himg, hpairs⟩ := runtimeReady_of_run h.hasRelocDir himage hb₁ hn hfuel hrun hz htab hd hm₂
    by_cases hne : b₂ = b₁
    · subst hne
      rw [peCoffRuntimeRelocateImage_skip (.inr ((sub64_eq_zero hb₂ hb₂).mpr rfl))]
      refine TwoPhase.of_skip (fun hc => absurd rfl hc) (fun hc => absurd rfl hc) fun t ht hk => ?_
      rw [← himg]
      exact (kept_sameOn hk).symm
    · exact TwoPhase.of_ready hr himg hpairs himage hb₁ hb₂ hne hfuel'

lemma relocMemory_table : ParsedTable .default relocContext relocMemory [(3, 0x1010), (0, 0x1000)] := by
  have hentries : blockEntries relocMemory 208 = [(3, 0x1010), (0, 0x1000)] := by decide +kernel
  refine .inr ⟨by decide, ?_, ?_⟩
  · have hend : 208 + blockLength .default (le relocMemory (208 + 4) 4) =
        tableEnd .default (dirTop relocContext) := by decide +kernel
    have h := @Table.single .default relocMemory (dirTop relocContext) 208 (by decide)
      (by decide +kernel) (by decide +kernel) (by decide +kernel)
    rwa [hend, hentries] at h
  · intro e he
    rcases mem_cons.mp he with rfl | he
    · exact (entryOk_iff .default relocContext 0x1010 (c := Cell.word 4) (by decide) rfl).mpr
        ⟨by decide, .inr (by decide), fun h => absurd h (by decide)⟩
    · rw [mem_singleton.mp he]
      exact .inl rfl

/-- the state after the first relocation of `relocMemory`, to `0x7000` -/
def relocatedState : RelocState :=
  (peCoffRelocateImage .default relocContext 0x7000 (some 56) 13 (.start relocMemory rawContext)).2

/-- a variable of the driver has been changed since -/
def runtimeMemory : Mem := put relocatedState.image 0x1800 4 0x12345678

theorem runtimeMemory_twoPhase : TwoPhase .default relocContext 0x7000 0x9000 [(3, 0x1010), (0, 0x1000)] relocMemory
      relocatedState runtimeMemory (peCoffRuntimeRelocateImage .default 0x7000 0x9000 13
        (.start runtimeMemory relocatedState.runtime)) ∧ le (peCoffRuntimeRelocateImage .default 0x7000 0x9000 13
      (.start runtimeMemory relocatedState.runtime)).2.image 0x1010 4 = 0xA234 := by
  have hrun : peCoffRelocateImage .default relocContext 0x7000 (some 56) 13
      (.start relocMemory rawContext) = (.ok (), relocatedState) := Prod.ext (by decide +kernel) rfl
  refine ⟨peCoffRuntimeRelocateImage_twoPhase (Prod.ext relocImage_run rfl) (by norm_num)
    (by norm_num) (by decide +kernel) relocMemory_table ?_ (by decide) hrun ?_ (by decide),
    by decide +kernel⟩
  · exact pairwise_singleton _ _
  · intro i h1 h2
    refine put_of_not_mem _ _ fun hc => ?_
    have h3 : i < 208 + 12 := h2
    omega

end Audk.PeCoff
