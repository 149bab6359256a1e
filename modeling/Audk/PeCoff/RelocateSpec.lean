import Audk.PeCoff.RelocTable
import Audk.PeCoff.InitContract

/-!
# What the first relocation does

One specification for each function of the first relocation, up to `PeCoffRelocateImage`.  The point
is that patching never alters the table: every target is outside of it, so the entries still to be
read are those of the memory before.

* `applyFixup_spec`, `internalApplyRelocation_spec`: one entry;
* `blockLoop_spec`, `relocateBlocks_spec`: one block, and all blocks.
-/

namespace Audk.PeCoff

open Bytes Prog Arith List Nat

/-- the directory of an accepted image that has one -/
structure HasRelocDir (ctx : PeContext) : Prop where
  size_lt : ctx.sizeOfImage < 2^32
  min : sizeofBaseRelocationBlock ≤ ctx.relocDirSize
  top_le : ctx.relocDirRva + ctx.relocDirSize ≤ ctx.sizeOfImage
  aligned : 4 ∣ ctx.relocDirRva

lemma Accepted.hasRelocDir {pcd : Pcd} {f : File} {ctx : PeContext} (h : Accepted pcd f ctx)
    (hne : ctx.relocDirSize ≠ 0) : HasRelocDir ctx := by
  obtain ⟨h1, -, h2, h3⟩ := h.reloc hne
  exact ⟨h.size_lt, h1, h2, h3⟩

/-- relative to the memory `m0` before, with a runtime context of `cap` bytes -/
structure RelocInv (ctx : PeContext) (cap : Nat) (m0 : Mem) (s : RelocState) : Prop where
  table : SameOn s.image m0 ctx.relocDirRva (ctx.relocDirRva + ctx.relocDirSize)
  behind : ∀ i, ctx.sizeOfImage ≤ i → s.image i = m0 i
  reads : ∀ r, r ∈ s.reads → r.Within ctx.relocDirRva (ctx.relocDirRva + ctx.relocDirSize)
  writes : ∀ w, w ∈ s.contextWrites → w.Within 0 cap

/-- the run stopped because `P` does not hold -/
def Rejected (ctx : PeContext) (cap : Nat) (m0 : Mem) (P : Prop) (st : Stop) (s : RelocState) :
    Prop := st ≠ .fuel ∧ ¬ P ∧ RelocInv ctx cap m0 s

lemma Rejected.mono {ctx : PeContext} {cap : Nat} {m0 : Mem} {P P' : Prop} {st : Stop}
    {s : RelocState} (h : Rejected ctx cap m0 P st s) (himp : P' → P) :
    Rejected ctx cap m0 P' st s := ⟨h.1, fun hp => h.2.1 (himp hp), h.2.2⟩

lemma wp_tableRead {off n : Nat} {Q : Nat → RelocState → Prop} {E : Stop → RelocState → Prop}
    {s : RelocState} : wp (tableRead off n) Q E s ↔
      Q (le s.image off n) { s with reads := ⟨off, n⟩ :: s.reads } := Iff.rfl

section
variable {pcd : Pcd} {ctx : PeContext} {cap : Nat} {m0 : Mem} {s : RelocState}
variable {adjust : Nat} {runtime : Bool} {k : Nat}

lemma RelocInv.read (h : RelocInv ctx cap m0 s) (off n : Nat) (h1 : ctx.relocDirRva ≤ off)
    (h2 : off + n ≤ ctx.relocDirRva + ctx.relocDirSize) :
    RelocInv ctx cap m0 { s with reads := ⟨off, n⟩ :: s.reads } where
  table := h.table
  behind := h.behind
  reads := by
    intro r hr
    rcases mem_cons.mp hr with rfl | hr
    · exact Span.within_of_le h1 h2
    · exact h.reads r hr
  writes := h.writes

lemma RelocInv.le_eq (h : RelocInv ctx cap m0 s) (off n : Nat) (h1 : ctx.relocDirRva ≤ off)
    (h2 : off + n ≤ ctx.relocDirRva + ctx.relocDirSize) : le s.image off n = le m0 off n :=
  le_congr (h.table.mono h1 h2)

lemma Relocated.of_reads {es : List (Nat × Nat)} {s' : RelocState} {l : List Span}
    (h : Relocated adjust runtime k es { s with reads := l } s') :
    Relocated adjust runtime k es s s' := ⟨h.image, h.fixups, h.pairs, h.rva, h.size⟩

/-! ## one entry -/

variable {E : Stop → RelocState → Prop} {c : Cell} {patch : Mem → Mem} {e : Nat × Nat}

lemma entryOk_iff (pcd : Pcd) (ctx : PeContext) {type : Nat} (t : Nat) (h0 : type ≠ relBasedAbsolute)
    (hc : relocCell type = some c) : EntryOk pcd ctx (type, t) ↔ t + c.width ≤ ctx.sizeOfImage ∧
      (t + c.width ≤ ctx.relocDirRva ∨ ctx.relocDirRva + ctx.relocDirSize ≤ t) ∧
      (type = relBasedArmMov32t → relocTypePolicyArm pcd = true ∧ 2 ∣ t) := by
  have ht : targetOf (type, t) = some ⟨c, t⟩ := by
    show (relocCell type).map _ = _
    rw [hc]
    rfl
  constructor
  · rintro (h | ⟨t', ht', h⟩)
    · exact absurd h h0
    · rw [ht] at ht'
      cases ht'
      exact h
  · intro h
    exact .inr ⟨_, ht, h⟩

lemma entryOk_none {type t : Nat} (h0 : type ≠ relBasedAbsolute) (hc : relocCell type = none) :
    ¬ EntryOk pcd ctx (type, t) := by
  rintro (h | ⟨t', ht', -⟩)
  · exact h0 h
  · have : (relocCell type).map (fun c => (⟨c, t⟩ : Target)) = some t' := ht'
    rw [hc] at this
    cases this

lemma targetOf_addr {t : Target} (h : targetOf e = some t) : t.addr = e.2 := by
  obtain ⟨c, -, rfl⟩ := Option.map_eq_some_iff.mp h
  rfl

lemma EntryOk.le (h : EntryOk pcd ctx e) (h0 : e.1 ≠ relBasedAbsolute) : e.2 ≤ ctx.sizeOfImage := by
  obtain ⟨t, ht, hle, -⟩ := h.resolve_left h0
  rw [targetOf_addr ht] at hle
  omega

lemma storeFixup_inv (h : RelocInv ctx cap m0 s) {i v : Nat}
    (hcap : sizeofRuntimeContext + 8 * i + 8 ≤ cap) : RelocInv ctx cap m0 (storeFixup i v s) where
  table := h.table
  behind := h.behind
  reads := h.reads
  writes := by
    intro w hw
    rcases mem_cons.mp hw with rfl | hw
    · exact Span.within_of_le (zero_le _) hcap
    · exact h.writes w hw

lemma recordAbsolute_spec (adjust t : Nat) (h : RelocInv ctx cap m0 s)
    (hcap : runtime = true → sizeofRuntimeContext + 8 * k + 8 ≤ cap) :
    wp (recordAbsolute (if runtime = true then some k else none))
      (fun _ s' => RelocInv ctx cap m0 s' ∧ Relocated adjust runtime k [(relBasedAbsolute, t)] s s')
      E s := by
  cases runtime with
  | false =>
    exact ⟨h, ⟨rfl, fun hf => Bool.noConfusion hf, fun hf => Bool.noConfusion hf, rfl, rfl⟩⟩
  | true => exact ⟨storeFixup_inv h (hcap rfl), ⟨rfl, fun _ => rfl, fun _ => rfl, rfl, rfl⟩⟩

lemma RelocInv.shift (adjust : Nat) (h : RelocInv ctx cap m0 s) {t : Nat}
    (hsize : t + c.width ≤ ctx.sizeOfImage)
    (hdir : t + c.width ≤ ctx.relocDirRva ∨ ctx.relocDirRva + ctx.relocDirSize ≤ t) (ps : List (Nat × Nat)) :
    RelocInv ctx cap m0 { s with image := c.shift s.image t adjust, pairs := ps } where
  table := (c.sameOn_shift (by omega)).trans h.table
  behind := by
    intro i hi
    rw [← h.behind i hi]
    exact c.shift_frame s.image t adjust i (by omega)
  reads := h.reads
  writes := h.writes

lemma patchTarget_spec {type t : Nat}
    (h0 : type ≠ relBasedAbsolute) (hc : relocCell type = some c)
    (hpatch : ∀ m, patch m = c.shift m t adjust) (h : RelocInv ctx cap m0 s) (hsize : t + c.width ≤ ctx.sizeOfImage)
    (hdir : t + c.width ≤ ctx.relocDirRva ∨ ctx.relocDirRva + ctx.relocDirSize ≤ t)
    (hcap : runtime = true → sizeofRuntimeContext + 8 * k + 8 ≤ cap) :
    wp (patchTarget patch t c.width (if runtime = true then some k else none))
      (fun _ s' => RelocInv ctx cap m0 s' ∧ Relocated adjust runtime k [(type, t)] s s') E s := by
  have ht : targetOf (type, t) = some ⟨c, t⟩ := by
    show (relocCell type).map _ = _
    rw [hc]
    rfl
  have hts : targets [(type, t)] = [⟨c, t⟩] := by
    show List.filterMap targetOf [(type, t)] = _
    rw [filterMap_cons, ht]
    rfl
  have himage : patch s.image = shiftAll adjust (targets [(type, t)]) s.image := by
    rw [hts, hpatch]
    rfl
  cases runtime with
  | false =>
    refine ⟨?_, ⟨himage, fun hf => Bool.noConfusion hf, fun hf => Bool.noConfusion hf, rfl, rfl⟩⟩
    have := h.shift adjust hsize hdir s.pairs
    rw [← hpatch] at this
    exact this
  | true =>
    refine ⟨?_, ⟨himage, fun _ => ?_, fun _ => ?_, rfl, rfl⟩⟩
    · have := h.shift adjust hsize hdir ((k, t) :: s.pairs)
      rw [← hpatch] at this
      exact storeFixup_inv this (hcap rfl)
    · have hrec : recorded (type, t) (patch s.image) = le (patch s.image) t c.width := by
        rw [recorded, ht]
      show (fun i => if i = k then le (patch s.image) t c.width else s.runtime.fixupData i) =
        fun i => if i = k then recorded (type, t) (shiftAll adjust (targets [(type, t)]) s.image)
          else s.runtime.fixupData i
      rw [← himage, hrec]
    · have hp : pairsOf k [(type, t)] = [(k, t)] := if_neg h0
      rw [hp]
      rfl

lemma word4_shift (m : Mem) (t : Nat) : put m t 4 ((le m t 4 + adjust) % 2^32) = (Cell.word 4).shift m t adjust := by
  have e : (2:Nat)^32 = 256^4 := by norm_num
  rfl

lemma word8_shift (m : Mem) (t : Nat) : put m t 8 ((le m t 8 + adjust) % 2^64) = (Cell.word 8).shift m t adjust := by
  have e : (2:Nat)^64 = 256^8 := by norm_num
  rfl

lemma targetsDirectory_iff (hd : HasRelocDir ctx) {t w : Nat} :
    ¬ targetsDirectory ctx t w ↔ (t + w ≤ ctx.relocDirRva ∨ ctx.relocDirRva + ctx.relocDirSize ≤ t) := by
  have h1 := hd.top_le
  have h2 := hd.size_lt
  unfold targetsDirectory
  rw [add32_eq (by omega)]
  omega

/-- the common end of the three cases: the overlap check, then the patch -/
lemma overlapPatch_spec (hd : HasRelocDir ctx) {type t : Nat}
    (h0 : type ≠ relBasedAbsolute) (hc : relocCell type = some c)
    (hpatch : ∀ m, patch m = c.shift m t adjust) (h : RelocInv ctx cap m0 s) (hsize : t + c.width ≤ ctx.sizeOfImage)
    (harm : type = relBasedArmMov32t → relocTypePolicyArm pcd = true ∧ 2 ∣ t)
    (hcap : runtime = true → sizeofRuntimeContext + 8 * k + 8 ≤ cap) : wp (do
        stopIf (targetsDirectory ctx t c.width) corrupted
        patchTarget patch t c.width (if runtime = true then some k else none))
      (fun _ s' => EntryOk pcd ctx (type, t) ∧ RelocInv ctx cap m0 s' ∧ Relocated adjust runtime k [(type, t)] s s')
      (Rejected ctx cap m0 (EntryOk pcd ctx (type, t))) s := by
  have hiff := entryOk_iff pcd ctx t h0 hc
  have hdir := targetsDirectory_iff hd (t := t) (w := c.width)
  refine wp_stopIf_bind (fun hr => ⟨by decide, fun hok => ?_, h⟩) fun hr => ?_
  · exact hdir.mpr (hiff.mp hok).2.1 hr
  · apply wp_post (patchTarget_spec h0 hc hpatch h hsize (hdir.mp hr) hcap) _
    intro _ s' hs'
    exact ⟨hiff.mpr ⟨hsize, hdir.mp hr, harm⟩, hs'⟩

lemma rejected_of_size {type t w : Nat} (h0 : type ≠ relBasedAbsolute)
    (hc : relocCell type = some c) (hw : c.width = w) (h : RelocInv ctx cap m0 s)
    (hr : w > ctx.sizeOfImage - t) (ht : t ≤ ctx.sizeOfImage) :
    Rejected ctx cap m0 (EntryOk pcd ctx (type, t)) corrupted s := by
  refine ⟨by decide, fun hok => ?_, h⟩
  have := ((entryOk_iff pcd ctx t h0 hc).mp hok).1
  omega

lemma applyFixup_spec (hd : HasRelocDir ctx) {type t : Nat} (h0 : type ≠ relBasedAbsolute)
    (h : RelocInv ctx cap m0 s) (ht : t ≤ ctx.sizeOfImage)
    (hcap : runtime = true → sizeofRuntimeContext + 8 * k + 8 ≤ cap) :
    wp (applyFixup pcd ctx type t (ctx.sizeOfImage - t) adjust
        (if runtime = true then some k else none)) (fun _ s' => EntryOk pcd ctx (type, t) ∧ RelocInv ctx cap m0 s' ∧
        Relocated adjust runtime k [(type, t)] s s')
      (Rejected ctx cap m0 (EntryOk pcd ctx (type, t))) s := by
  unfold applyFixup
  by_cases h3 : type = relBasedHighlow
  · have hc : relocCell type = some (Cell.word 4) := if_pos h3
    have harm : type ≠ relBasedArmMov32t := by rw [h3]; decide
    rw [if_pos h3, wp_bind, wp_stopIf]
    refine ⟨fun hr => rejected_of_size h0 hc rfl h hr ht, fun hr => ?_⟩
    exact overlapPatch_spec hd h0 hc (fun m => word4_shift m t) h
      (show t + 4 ≤ ctx.sizeOfImage by omega) (fun ha => absurd ha harm) hcap
  rw [if_neg h3]
  by_cases h10 : type = relBasedDir64
  · have hc : relocCell type = some (Cell.word 8) := (if_neg h3).trans (if_pos h10)
    have harm : type ≠ relBasedArmMov32t := by rw [h10]; decide
    rw [if_pos h10, wp_bind, wp_stopIf]
    refine ⟨fun hr => rejected_of_size h0 hc rfl h hr ht, fun hr => ?_⟩
    exact overlapPatch_spec hd h0 hc (fun m => word8_shift m t) h
      (show t + 8 ≤ ctx.sizeOfImage by omega) (fun ha => absurd ha harm) hcap
  rw [if_neg h10]
  by_cases h7 : type = relBasedArmMov32t
  · have hc : relocCell type = some thumbCell := (if_neg h3).trans ((if_neg h10).trans (if_pos h7))
    have hiff := entryOk_iff pcd ctx t h0 hc
    have h2 : isPow2 2 := by decide
    rw [if_pos h7, wp_bind, wp_stopIf]
    refine ⟨fun hr => ⟨by decide, fun hok => ?_, h⟩, fun harm => ?_⟩
    · have := ((hiff.mp hok).2.2 h7).1
      rw [hr] at this
      exact Bool.noConfusion this
    refine wp_stopIf_bind (fun hr => rejected_of_size h0 hc rfl h hr ht) fun hr => ?_
    rw [wp_bind, wp_stopIf, isAligned_iff h2]
    refine ⟨fun hr => ⟨by decide, fun hok => hr ((hiff.mp hok).2.2 h7).2, h⟩, fun hal => ?_⟩
    exact overlapPatch_spec hd h0 hc (fun m => thumbFixup_eq_shift m t adjust) h
      (show t + 8 ≤ ctx.sizeOfImage by omega)
      (fun _ => ⟨by simpa using harm, not_not.mp hal⟩) hcap
  rw [if_neg h7]
  have hc : relocCell type = none := (if_neg h3).trans ((if_neg h10).trans (if_neg h7))
  exact ⟨by decide, entryOk_none h0 hc, h⟩

lemma internalApplyRelocation_spec (hd : HasRelocDir ctx) {off i : Nat}
    (h : RelocInv ctx cap m0 s) (hlo : ctx.relocDirRva ≤ off)
    (hhi : off + sizeofBaseRelocationBlock + 2 * i + 2 ≤ ctx.relocDirRva + ctx.relocDirSize)
    (hcap : runtime = true → sizeofRuntimeContext + 8 * (k + i) + 8 ≤ cap) :
    wp (internalApplyRelocation pcd ctx off i adjust (if runtime = true then some k else none))
      (fun _ s' => EntryOk pcd ctx (entryAt m0 off i) ∧ RelocInv ctx cap m0 s' ∧
        Relocated adjust runtime (k + i) [entryAt m0 off i] s s')
      (Rejected ctx cap m0 (EntryOk pcd ctx (entryAt m0 off i))) s := by
  have hfix : (if runtime = true then some k else none).map (· + i) =
      if runtime = true then some (k + i) else none := by
    cases runtime <;> rfl
  have hhdr : off + 4 ≤ ctx.relocDirRva + ctx.relocDirSize := by
    have : off + 8 + 2 * i + 2 ≤ ctx.relocDirRva + ctx.relocDirSize := hhi
    omega
  have h1 := h.read (off + sizeofBaseRelocationBlock + 2 * i) 2 (by omega) (by omega)
  have h2 := h1.read off 4 hlo hhdr
  have hreloc := h.le_eq (off + sizeofBaseRelocationBlock + 2 * i) 2 (by omega) (by omega)
  have hva := h.le_eq off 4 hlo hhdr
  rw [internalApplyRelocation, wp_bind, wp_tableRead, hreloc, hfix]
  generalize hr : le m0 (off + sizeofBaseRelocationBlock + 2 * i) 2 = reloc
  have hentry : entryAt m0 off i = (reloc >>> 12, le m0 off 4 + (reloc &&& 0x0FFF)) := by
    rw [entryAt, hr]
  rw [hentry, wp_ite]
  refine ⟨fun h0 => ?_, fun h0 => ?_⟩
  · apply wp_post (recordAbsolute_spec adjust (le m0 off 4 + (reloc &&& 0x0FFF)) h1 hcap) _
    rw [h0]
    rintro _ s' ⟨hinv, hrel⟩
    exact ⟨.inl rfl, hinv, hrel.of_reads⟩
  show wp (do
    stopIf ((baseOverflowAddU32 (le s.image off 4) (reloc &&& 0x0FFF)).1 = true) corrupted
    _) _ _ _
  rw [hva, wp_bind, wp_stopIf]
  have hsz := hd.size_lt
  refine ⟨fun hov => ⟨by decide, fun hok => ?_, h2⟩, fun hov => ?_⟩
  · have hle : le m0 off 4 + (reloc &&& 0x0FFF) ≤ ctx.sizeOfImage := hok.le h0
    rw [baseOverflowAddU32_fst.mpr (by omega)] at hov
    exact Bool.noConfusion hov
  have hov' : (baseOverflowAddU32 (le m0 off 4) (reloc &&& 0x0FFF)).1 = false := by simpa using hov
  rw [baseOverflowAddU32_snd hov', wp_bind, wp_stopIf]
  refine ⟨fun hov2 => ⟨by decide, fun hok => ?_, h2⟩, fun hov2 => ?_⟩
  · rw [baseOverflowSubU32_fst.mpr (hok.le h0)] at hov2
    exact Bool.noConfusion hov2
  have hov2' : (baseOverflowSubU32 ctx.sizeOfImage (le m0 off 4 + (reloc &&& 0x0FFF))).1 = false := by
    simpa using hov2
  rw [baseOverflowSubU32_snd hd.size_lt hov2']
  apply wp_post (applyFixup_spec hd h0 h2 (baseOverflowSubU32_fst.mp hov2') hcap) _
  rintro _ s' ⟨hok, hinv, hrel⟩
  exact ⟨hok, hinv, hrel.of_reads.of_reads⟩

/-! ## blocks -/

lemma blockLoop_spec (hd : HasRelocDir ctx) {off n : Nat} (h : RelocInv ctx cap m0 s) (hlo : ctx.relocDirRva ≤ off)
    (hhi : off + sizeofBaseRelocationBlock + 2 * n ≤ ctx.relocDirRva + ctx.relocDirSize)
    (hcap : runtime = true → sizeofRuntimeContext + 8 * (k + n) ≤ cap) :
    wp (loop (fun i _ => internalApplyRelocation pcd ctx off i adjust
        (if runtime = true then some k else none)) 0 n ())
      (fun _ s' => (∀ e, e ∈ (List.range n).map (entryAt m0 off) → EntryOk pcd ctx e) ∧ RelocInv ctx cap m0 s' ∧
        Relocated adjust runtime k ((List.range n).map (entryAt m0 off)) s s') (Rejected ctx cap m0
        (∀ e, e ∈ (List.range n).map (entryAt m0 off) → EntryOk pcd ctx e)) s := by
  have hloop := wp_loop
    (fun i _ => internalApplyRelocation pcd ctx off i adjust (if runtime = true then some k else none))
    (fun j _ s' => (∀ e, e ∈ (List.range j).map (entryAt m0 off) → EntryOk pcd ctx e) ∧
      RelocInv ctx cap m0 s' ∧
      Relocated adjust runtime k ((List.range j).map (entryAt m0 off)) s s') 0 n ()
    (E := Rejected ctx cap m0 (∀ e, e ∈ (List.range n).map (entryAt m0 off) → EntryOk pcd ctx e))
    ⟨fun e he => absurd he not_mem_nil, h, Relocated.refl _ _ _ _⟩ ?_
  · rwa [zero_add] at hloop
  rintro j _ t - hj ⟨hok, hinv, hrel⟩
  rw [zero_add] at hj
  have hmem : entryAt m0 off j ∈ (List.range n).map (entryAt m0 off) := mem_map_of_mem (mem_range.mpr hj)
  apply wp_mono (internalApplyRelocation_spec hd hinv hlo (by omega) (fun hr => by
    have := hcap hr
    omega))
  · rintro _ t' ⟨hok', hinv', hrel'⟩
    rw [range_succ, map_append]
    refine ⟨fun e he => ?_, hinv', hrel.append ?_⟩
    · rcases mem_append.mp he with he | he
      · exact hok e he
      · rw [mem_singleton.mp he]
        exact hok'
    · rw [length_map, length_range]
      exact hrel'
  · rintro st t' ⟨hst, hno, hinv'⟩
    exact ⟨hst, fun hall => hno (hall _ hmem), hinv'⟩

def dirTop (ctx : PeContext) : Nat := ctx.relocDirRva + ctx.relocDirSize

/-- the table of the memory `m` is well-formed and all its entries are accepted -/
def TableOk (pcd : Pcd) (ctx : PeContext) (m : Mem) (off : Nat) (es : List (Nat × Nat)) : Prop :=
  Table pcd m (dirTop ctx) (tableEnd pcd (dirTop ctx)) off es ∧ ∀ e, e ∈ es → EntryOk pcd ctx e

lemma relocBlockSize_spec {size : Nat} {P : Prop} (h : RelocInv ctx cap m0 s)
    (hlt : size < 2^32) (hlen : ¬ pcd.relocationBlockSizes = false → blockLength pcd size < 2^32)
    (hP : pcd.relocationBlockSizes = false → ¬ 4 ∣ size → ¬ P) : wp (relocBlockSize pcd size)
      (fun r s' => s' = s ∧ r = blockLength pcd size ∧
        (pcd.relocationBlockSizes = false → 4 ∣ size)) (Rejected ctx cap m0 P) s := by
  have h4 : isPow2 4 := by decide
  unfold relocBlockSize blockLength
  unfold blockLength at hlen
  rw [wp_ite]
  refine ⟨fun hs => ?_, fun hs => ?_⟩
  · rw [wp_bind, wp_stopIf, isAligned_iff h4, if_pos hs]
    exact ⟨fun hn => ⟨by decide, hP hs hn, h⟩, fun hn => ⟨rfl, rfl, fun _ => not_not.mp hn⟩⟩
  · have := hlen hs
    rw [if_neg hs] at this ⊢
    exact ⟨rfl, alignValue_eq h4 (by norm_num) hlt this, fun hc => absurd hc hs⟩

lemma not_tableOk {off : Nat} (hoff : off + sizeofBaseRelocationBlock ≤ dirTop ctx)
    (hbad : le m0 (off + 4) 4 < sizeofBaseRelocationBlock ∨
      dirTop ctx < off + le m0 (off + 4) 4 ∨
      pcd.relocationBlockSizes = false ∧ ¬ 4 ∣ le m0 (off + 4) 4) :
    ¬ ∃ es, TableOk pcd ctx m0 off es := by
  rintro ⟨es, ht, -⟩
  have hend := le_tableEnd pcd (dirTop ctx)
  cases ht with
  | done => exact absurd hoff (by show ¬ tableEnd pcd (dirTop ctx) + 8 ≤ _; omega)
  | block _ _ _ hmin hfit halign _ =>
    rcases hbad with h | h | ⟨hs, h⟩
    · omega
    · omega
    · exact h (halign hs)

lemma tableOk_rest {off : Nat} {es : List (Nat × Nat)} (h : TableOk pcd ctx m0 off es)
    (hoff : off + sizeofBaseRelocationBlock ≤ dirTop ctx) : (∀ e, e ∈ blockEntries m0 off → EntryOk pcd ctx e) ∧
      ∃ es', TableOk pcd ctx m0 (off + blockLength pcd (le m0 (off + 4) 4)) es' := by
  obtain ⟨ht, hok⟩ := h
  have hend := le_tableEnd pcd (dirTop ctx)
  cases ht with
  | done => exact absurd hoff (by show ¬ tableEnd pcd (dirTop ctx) + 8 ≤ _; omega)
  | block _ es' _ _ _ _ hrest =>
    exact ⟨fun e he => hok e (mem_append_left _ he), es', hrest, fun e he => hok e (mem_append_right _ he)⟩

/-- what a walk over blocks from `off` on, starting with bookkeeping entry `k`, has achieved -/
structure Walked (pcd : Pcd) (ctx : PeContext) (cap : Nat) (m0 : Mem) (adjust : Nat)
    (runtime : Bool) (off k : Nat) (es : List (Nat × Nat)) (s : RelocState) (r : Nat × Nat)
    (s' : RelocState) : Prop where
  table : Table pcd m0 (dirTop ctx) r.1 off es
  ok : ∀ e, e ∈ es → EntryOk pcd ctx e
  inv : RelocInv ctx cap m0 s'
  run : Relocated adjust runtime k es s s'
  index : runtime = true → r.2 = k + es.length ∧ 2 * r.2 ≤ ctx.relocDirSize

lemma Walked.append {off k : Nat} {es fs : List (Nat × Nat)} {s s' s'' : RelocState}
    {r r' : Nat × Nat} (h : Walked pcd ctx cap m0 adjust runtime off k es s r s')
    (h' : Walked pcd ctx cap m0 adjust runtime r.1 r.2 fs s' r' s'') :
    Walked pcd ctx cap m0 adjust runtime off k (es ++ fs) s r' s'' where
  table := h.table.append h'.table
  ok := fun e he => (mem_append.mp he).elim (h.ok e) (h'.ok e)
  inv := h'.inv
  run := h.run.append (h'.run.of_index fun hr => (h.index hr).1)
  index := fun hr => ⟨by rw [(h'.index hr).1, (h.index hr).1, length_append, add_assoc],
    (h'.index hr).2⟩

/-- a position between two blocks, with the index of its first entry -/
structure AtBlock (pcd : Pcd) (ctx : PeContext) (runtime : Bool) (off k : Nat) : Prop where
  lo : ctx.relocDirRva ≤ off
  aligned : 4 ∣ off
  hi : off ≤ tableEnd pcd (dirTop ctx)
  index : runtime = true → 2 * k ≤ off - ctx.relocDirRva

lemma relocateBlock_spec (hd : HasRelocDir ctx) (hend : tableEnd pcd (dirTop ctx) < 2^32)
    (hcap : runtime = true → sizeofRuntimeContext + 4 * ctx.relocDirSize ≤ cap)
    {off : Nat} (h : RelocInv ctx cap m0 s) (hat : AtBlock pcd ctx runtime off k)
    (hhdr : off + sizeofBaseRelocationBlock ≤ dirTop ctx) :
    wp (relocateBlock pcd ctx adjust (dirTop ctx - sizeofBaseRelocationBlock) runtime off k)
      (fun r s' => AtBlock pcd ctx runtime r.1 r.2 ∧ off + sizeofBaseRelocationBlock ≤ r.1 ∧
        r.1 = off + blockLength pcd (le m0 (off + 4) 4) ∧
        Walked pcd ctx cap m0 adjust runtime off k (blockEntries m0 off) s r s')
      (Rejected ctx cap m0 (∃ es, TableOk pcd ctx m0 off es)) s := by
  have htop : dirTop ctx = ctx.relocDirRva + ctx.relocDirSize := rfl
  have hlt : dirTop ctx < 2^32 := (le_tableEnd pcd (dirTop ctx)).trans_lt hend
  have hlo := hat.lo
  have hhdr8 : off + 8 ≤ dirTop ctx := hhdr
  have h₁ := h.read (off + 4) 4 (by omega) (by omega)
  have hsz : le m0 (off + 4) 4 < 2^32 := le_lt m0 (off + 4) 4
  rw [relocateBlock, wp_bind, wp_tableRead, h.le_eq (off + 4) 4 (by omega) (by omega)]
  have hbad := @not_tableOk pcd ctx m0 off hhdr
  have hrest := fun es => @tableOk_rest pcd ctx m0 off es
  have hsingle := @Table.single pcd m0 (dirTop ctx) off hhdr
  have hbe : blockEntries m0 off = (List.range (numRelocs (le m0 (off + 4) 4))).map (entryAt m0 off) := rfl
  generalize le m0 (off + 4) 4 = size at *
  refine wp_stopIf_bind (fun hov => ⟨by decide, hbad (.inl ?_), h₁⟩) fun hov => ?_
  · by_contra hc
    rw [baseOverflowSubU32_fst.mpr (by omega)] at hov
    exact Bool.noConfusion hov
  have hov' : (baseOverflowSubU32 size sizeofBaseRelocationBlock).1 = false := by simpa using hov
  have h8 : 8 ≤ size := baseOverflowSubU32_fst.mp hov'
  rw [baseOverflowSubU32_snd hsz hov', sub32_eq (le_sub_of_add_le hhdr) (by omega), wp_bind, wp_stopIf]
  have h8' : sizeofBaseRelocationBlock = 8 := rfl
  refine ⟨fun hr => ⟨by decide, hbad (.inr (.inl ?_)), h₁⟩, fun hr => ?_⟩
  · omega
  have hfit : off + size ≤ dirTop ctx := by omega
  have hlen : ¬ pcd.relocationBlockSizes = false → blockLength pcd size < 2^32 := fun hs => by
    have := (blockLength_spec hat.aligned hfit fun hc => absurd hc hs).2
    omega
  apply wp_seq (relocBlockSize_spec h₁ hsz hlen fun hs hn => hbad (.inr (.inr ⟨hs, hn⟩))) _
  rintro len t ⟨rfl, rfl, halign⟩
  have hge := size_le_blockLength pcd size
  obtain ⟨hal4, hle⟩ := blockLength_spec hat.aligned hfit halign
  have hidx : runtime = true → 2 * (k + (size - 8) / 2) ≤ ctx.relocDirSize - 8 := fun hr => by
    have := hat.index hr
    omega
  rw [wp_bind]
  apply wp_mono (blockLoop_spec hd h₁ hlo (n := (size - sizeofBaseRelocationBlock) / 2) (by omega)
    (fun hr => by
      have h1 := hidx hr
      have h2 := hcap hr
      omega))
  · rintro _ t' ⟨hok, hinv, hrel⟩
    have hnext : runtime = true →
        (if runtime = true then add32 k ((size - sizeofBaseRelocationBlock) / 2) else k) =
          k + (size - sizeofBaseRelocationBlock) / 2 := fun hr => by
      have h1 := hidx hr
      rw [if_pos hr, add32_eq (by omega)]
    rw [wp_pure, add32_eq (by omega), hbe]
    refine ⟨⟨by omega, dvd_add hat.aligned hal4, hle, fun hr => ?_⟩, by omega, rfl,
      ⟨?_, hok, hinv, hrel.of_reads, fun hr => ?_⟩⟩
    · have h1 := hat.index hr
      rw [hnext hr]
      show 2 * (k + (size - 8) / 2) ≤ off + blockLength pcd size - ctx.relocDirRva
      omega
    · rw [← hbe]
      exact hsingle h8 hfit halign
    · have h1 := hidx hr
      rw [hnext hr, length_map, length_range]
      exact ⟨rfl, h1.trans (sub_le _ _)⟩
  · intro st t' hrej
    exact hrej.mono fun ⟨es, hes⟩ => by
      have := (hrest es hes hhdr).1
      rw [hbe] at this
      exact this

lemma relocateBlocks_spec (hd : HasRelocDir ctx) (hend : tableEnd pcd (dirTop ctx) < 2^32)
    (hcap : runtime = true → sizeofRuntimeContext + 4 * ctx.relocDirSize ≤ cap) (fuel : Nat)
    {off : Nat} (h : RelocInv ctx cap m0 s) (hat : AtBlock pcd ctx runtime off k)
    (hk : runtime = true → 2 * k ≤ ctx.relocDirSize) (hfuel : tableEnd pcd (dirTop ctx) < off + 8 * fuel) :
    wp (relocateBlocks pcd ctx adjust (dirTop ctx - sizeofBaseRelocationBlock) runtime fuel off k)
      (fun r s' => dirTop ctx < r.1 + sizeofBaseRelocationBlock ∧
        ∃ es, Walked pcd ctx cap m0 adjust runtime off k es s r s')
      (Rejected ctx cap m0 (∃ es, TableOk pcd ctx m0 off es)) s := by
  have hmin : 8 ≤ ctx.relocDirSize := hd.min
  have htop : dirTop ctx = ctx.relocDirRva + ctx.relocDirSize := rfl
  induction fuel generalizing off k s with
  | zero =>
    have := hat.hi
    omega
  | succ fuel ih =>
    rw [relocateBlocks, wp_repeatWhile_succ]
    refine ⟨fun hmax => ?_, fun hmax => ?_⟩
    · have hhdr : off + 8 ≤ dirTop ctx := by
        have : off ≤ dirTop ctx - 8 := hmax
        omega
      apply wp_post (relocateBlock_spec hd hend hcap h hat hhdr) _
      rintro r t ⟨hat', hnext, hr, hw⟩
      apply wp_mono (ih hw.inv hat' (fun hrt => (hw.index hrt).2) (by
        have : off + 8 ≤ r.1 := hnext
        omega))
      · rintro r' t' ⟨hlast, es, hw'⟩
        exact ⟨hlast, _, hw.append hw'⟩
      · intro st t' hrej
        rw [hr] at hrej
        exact hrej.mono fun ⟨es, hes⟩ => (tableOk_rest hes hhdr).2
    · have : ¬ off ≤ dirTop ctx - 8 := hmax
      refine ⟨show dirTop ctx < off + 8 by omega, [], .done, ?_, h, Relocated.refl _ _ _ _, ?_⟩
      · exact fun e he => absurd he not_mem_nil
      · exact fun hrt => ⟨rfl, hk hrt⟩

end

end Audk.PeCoff
