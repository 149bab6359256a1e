import Audk.PeCoff.RelocateSpec

/-!
# `PeCoffRelocateImage` relocates the table it finds

The whole call, on an image accepted by `PeCoffInitializeContext` and arbitrary bytes in memory.

* `peCoffRelocateImage_spec`: what a call does, with its bookkeeping;
* `peCoffRelocateImage_table`: the contract for callers.
-/

namespace Audk.PeCoff

open Bytes Prog Arith List Nat Bool

/-- there is no table, or the image is to stay at its preferred address and needs no bookkeeping -/
def Skips (ctx : PeContext) (baseAddress : Nat) (size : Option Nat) : Prop :=
  ctx.relocDirSize = 0 ∨ size = none ∧ baseAddress = ctx.imageBase

/-- what a call that did not skip has done to the image and to the runtime context -/
structure RelocDone (pcd : Pcd) (ctx : PeContext) (adjust : Nat) (runtime : Bool)
    (es : List (Nat × Nat)) (m₀ : Mem) (F : Nat → Nat) (s' : RelocState) : Prop where
  fits : tableEnd pcd (dirTop ctx) < 2^32
  table : TableOk pcd ctx m₀ ctx.relocDirRva es
  image : s'.image = shiftAll adjust (targets es) m₀
  fixups : runtime = true → ∀ i, i < es.length → s'.runtime.fixupData i = fixupsAfter adjust es 0 m₀ F i
  pairs : runtime = true → s'.pairs = (pairsOf 0 es).reverse

def HeaderSet (ctx : PeContext) (size : Option Nat) (s : RelocState) : Prop :=
  size.isSome = true → s.runtime.relocDirRva = ctx.relocDirRva ∧ s.runtime.relocDirSize = ctx.relocDirSize

/-- the buffer a caller passes for the runtime context -/
def ContextSize (ctx : PeContext) (size : Option Nat) : Prop :=
  ∀ n, size = some n → peCoffLoaderGetRuntimeContextSize ctx = .ok n

section
variable {pcd : Pcd} {ctx : PeContext} {m₀ : Mem} {s : RelocState}
variable {adjust baseAddress fuel : Nat} {size : Option Nat}

lemma peCoffLoaderGetRuntimeContextSize_ok {n : Nat} (h : peCoffLoaderGetRuntimeContextSize ctx = .ok n) :
    n = sizeofRuntimeContext + 4 * ctx.relocDirSize ∧ n < 2^32 := by
  unfold peCoffLoaderGetRuntimeContextSize at h
  by_cases h1 : (baseOverflowMulU32 ctx.relocDirSize 4).1 = true
  · rw [if_pos h1] at h
    cases h
  rw [if_neg h1] at h
  by_cases h2 : (baseOverflowAddU32 (baseOverflowMulU32 ctx.relocDirSize 4).2 sizeofRuntimeContext).1 = true
  · rw [if_pos h2] at h
    cases h
  rw [if_neg h2] at h
  have h1' := eq_false_iff.mpr h1
  have h2' := eq_false_iff.mpr h2
  have hlt := baseOverflowAddU32_fst.mp h2'
  cases h
  rw [baseOverflowAddU32_snd h2']
  rw [baseOverflowMulU32_snd h1'] at hlt ⊢
  exact ⟨by omega, hlt⟩

variable {E : Stop → RelocState → Prop} {cap : Nat}

lemma initRuntimeContext_spec
    (h : RelocInv ctx cap m₀ s) (hcap : ∀ n, size = some n → sizeofRuntimeContext ≤ cap) :
    wp (initRuntimeContext ctx size)
      (fun _ s' => RelocInv ctx cap m₀ s' ∧ HeaderSet ctx size s' ∧ s'.image = s.image ∧
        s'.pairs = s.pairs ∧ s'.runtime.fixupData = s.runtime.fixupData) E s := by
  cases size with
  | none => exact ⟨h, fun hs => Bool.noConfusion hs, rfl, rfl, rfl⟩
  | some n =>
    refine ⟨⟨h.table, h.behind, h.reads, fun w hw => ?_⟩, fun _ => ⟨rfl, rfl⟩, rfl, rfl, rfl⟩
    rcases mem_cons.mp hw with rfl | hw
    · exact Span.within_of_le (zero_le _) (by simpa using hcap n rfl)
    · exact h.writes w hw

lemma alignedTop_spec {P : Prop} (h : RelocInv ctx cap m₀ s) {top : Nat}
    (htop : top < 2^32) (hP : P → tableEnd pcd top < 2^32) : wp (alignedTop pcd top)
      (fun r s' => s' = s ∧ r = tableEnd pcd top ∧ tableEnd pcd top < 2^32)
      (Rejected ctx cap m₀ P) s := by
  have h4 : isPow2 4 := by decide
  unfold alignedTop tableEnd
  unfold tableEnd at hP
  rw [wp_ite]
  refine ⟨fun hs => ?_, fun hs => ?_⟩
  · rw [if_pos hs]
    exact ⟨rfl, rfl, htop⟩
  rw [if_neg hs] at hP ⊢
  have hiff := alignUp_fst_iff (v := top) h4 (by norm_num)
  refine wp_stopIf_bind (fun hov => ⟨by decide, fun hp => ?_, h⟩) fun hov => ?_
  · rw [hiff.mpr (hP hp)] at hov
    exact Bool.noConfusion hov
  · have hov' : (baseOverflowAlignUpU32 top 4).1 = false := by simpa using hov
    exact ⟨rfl, alignUp_ok h4 (by norm_num) hov', hiff.mp hov'⟩

lemma zeroRemaining_spec {cap k : Nat}
    (h : RelocInv ctx cap m₀ s) (hsize : ∀ n, size = some n → n = cap ∧ n < 2^32 ∧ sizeofRuntimeContext + 8 * k ≤ n) :
    wp (zeroRemaining k size) (fun _ s' => RelocInv ctx cap m₀ s' ∧ s'.image = s.image ∧ s'.pairs = s.pairs ∧
        s'.runtime.relocDirRva = s.runtime.relocDirRva ∧ s'.runtime.relocDirSize = s.runtime.relocDirSize ∧
        ∀ i, i < k → s'.runtime.fixupData i = s.runtime.fixupData i) E s := by
  cases size with
  | none => exact ⟨h, rfl, rfl, rfl, rfl, fun _ _ => rfl⟩
  | some n =>
    obtain ⟨rfl, hn, hk⟩ := hsize n rfl
    refine ⟨⟨h.table, h.behind, h.reads, fun w hw => ?_⟩, rfl, rfl, rfl, rfl, fun i hi => ?_⟩
    · rcases mem_cons.mp hw with rfl | hw
      · refine Span.within_of_le (zero_le _) ?_
        show sizeofRuntimeContext + 8 * k + (n + 2^64 - sizeofRuntimeContext - 8 * k) % 2^64 ≤ n
        omega
      · exact h.writes w hw
    · exact if_neg fun hc => absurd hc.1 (not_le.mpr hi)

lemma peCoffRelocateImage_spec (pcd : Pcd) (m₀ : Mem) (hdir : ctx.relocDirSize ≠ 0 → HasRelocDir ctx)
    (himage : ctx.imageBase < 2^64) (hbase : baseAddress < 2^64) (hsize : ContextSize ctx size)
    (hfuel : ctx.relocDirSize < fuel) (rt : RuntimeContext) : wp (peCoffRelocateImage pcd ctx baseAddress size fuel)
      (fun _ s' => RelocInv ctx (size.getD 0) m₀ s' ∧ HeaderSet ctx size s' ∧
        (Skips ctx baseAddress size ∧ s'.image = m₀ ∧ s'.pairs = [] ∨ ¬ Skips ctx baseAddress size ∧
          ∃ es, RelocDone pcd ctx (sub64 baseAddress ctx.imageBase) size.isSome es m₀ rt.fixupData s'))
      (Rejected ctx (size.getD 0) m₀ (Skips ctx baseAddress size ∨
        tableEnd pcd (dirTop ctx) < 2^32 ∧ ∃ es, TableOk pcd ctx m₀ ctx.relocDirRva es))
      (RelocState.start m₀ rt) := by
  have h0 : RelocInv ctx (size.getD 0) m₀ (RelocState.start m₀ rt) :=
    ⟨fun _ _ _ => rfl, fun _ _ => rfl, fun r hr => absurd hr not_mem_nil, fun w hw => absurd hw not_mem_nil⟩
  have hcap : ∀ n, size = some n → n = size.getD 0 ∧ n < 2^32 ∧ n = sizeofRuntimeContext + 4 * ctx.relocDirSize := by
    intro n hn
    obtain ⟨h1, h2⟩ := peCoffLoaderGetRuntimeContextSize_ok (hsize n hn)
    exact ⟨by rw [hn]; rfl, h2, h1⟩
  apply wp_seq (initRuntimeContext_spec h0 fun n hn => by
    obtain ⟨h1, -, h2⟩ := hcap n hn
    omega) _
  rintro _ s ⟨h, hhdr, him, hpairs, hfix⟩
  have himg : s.image = m₀ := him
  rw [wp_ite]
  refine ⟨fun hz => ⟨h, hhdr, .inl ⟨.inl hz, himg, hpairs⟩⟩, fun hz => ?_⟩
  rw [wp_ite, sub64_eq_zero hbase himage]
  refine ⟨fun hs => ⟨h, hhdr, .inl ⟨.inr hs, himg, hpairs⟩⟩, fun hs => ?_⟩
  have hskip : ¬ Skips ctx baseAddress size := fun hsk => hsk.elim hz hs
  have hd := hdir hz
  have htop : dirTop ctx = ctx.relocDirRva + ctx.relocDirSize := rfl
  have htle := hd.top_le
  have hslt := hd.size_lt
  have h8 : 8 ≤ ctx.relocDirSize := hd.min
  have hsub : sub32 (dirTop ctx) sizeofBaseRelocationBlock = dirTop ctx - sizeofBaseRelocationBlock :=
    sub32_eq (show 8 ≤ dirTop ctx by omega) (by omega)
  have hend : tableEnd pcd (dirTop ctx) < dirTop ctx + 4 := tableEnd_lt _ _
  have hge := le_tableEnd pcd (dirTop ctx)
  have hlen : size.isSome = true → sizeofRuntimeContext + 4 * ctx.relocDirSize ≤ size.getD 0 := fun hr => by
    obtain ⟨n, hn⟩ := Option.isSome_iff_exists.mp hr
    obtain ⟨h1, -, h2⟩ := hcap n hn
    omega
  rw [add32_eq (by omega), ← htop, hsub]
  apply wp_seq (alignedTop_spec h (by omega) fun hp => (hp.resolve_left hskip).1) _
  rintro top t ⟨rfl, rfl, hfits⟩
  rw [wp_bind]
  apply wp_mono (relocateBlocks_spec hd hfits hlen fuel h
    ⟨le_rfl, hd.aligned, by omega, fun _ => zero_le _⟩ (fun _ => zero_le _) (by omega))
  · rintro r s' ⟨hlast, es, hw⟩
    refine wp_stopIf_bind (fun hne => ⟨by decide, ?_, hw.inv⟩) fun heq => ?_
    · rintro (hsk | ⟨-, es', htab, -⟩)
      · exact hskip hsk
      · exact hne (hw.table.unique htab hlast (show dirTop ctx < _ + 8 by omega)).1
    · have heq' : r.1 = tableEnd pcd (dirTop ctx) := not_not.mp heq
      have htab : TableOk pcd ctx m₀ ctx.relocDirRva es := ⟨heq' ▸ hw.table, hw.ok⟩
      apply wp_post (zeroRemaining_spec hw.inv fun n hn => ?_) _
      · rintro _ s'' ⟨hinv, him', hpairs', hrva, hsz, hfix'⟩
        refine ⟨hinv, fun hr => ?_, .inr ⟨hskip, es, hfits, htab, ?_, fun hr i hi => ?_, fun hr => ?_⟩⟩
        · rw [hrva, hsz, hw.run.rva, hw.run.size]
          exact hhdr hr
        · rw [him', hw.run.image, himg]
        · rw [hfix' i (by rw [(hw.index hr).1]; omega), hw.run.fixups hr, himg, hfix]
          rfl
        · rw [hpairs', hw.run.pairs hr, hpairs]
          exact append_nil _
      · obtain ⟨h1, h2, h3⟩ := hcap n hn
        have h4 := (hw.index (by rw [hn]; rfl)).2
        exact ⟨h1, h2, by omega⟩
  · intro st s' hrej
    exact hrej.mono fun hp => (hp.resolve_left hskip).2

/-! ## the contract -/

/-- the outcome of a call that started with the memory `m₀` -/
structure TableContract (pcd : Pcd) (ctx : PeContext) (baseAddress : Nat) (size : Option Nat)
    (m₀ : Mem) (out : Except Stop Unit × RelocState) : Prop where
  terminates : out.1 ≠ .error .fuel
  reads : ∀ r, r ∈ out.2.reads → r.Within ctx.relocDirRva (ctx.relocDirRva + ctx.relocDirSize)
  directory : SameOn out.2.image m₀ ctx.relocDirRva (ctx.relocDirRva + ctx.relocDirSize)
  behind : ∀ i, ctx.sizeOfImage ≤ i → out.2.image i = m₀ i
  context : ∀ w, w ∈ out.2.contextWrites → w.Within 0 (size.getD 0)
  succeeds : out.1 = .ok () ↔ Skips ctx baseAddress size ∨
    tableEnd pcd (dirTop ctx) < 2^32 ∧ ∃ es, TableOk pcd ctx m₀ ctx.relocDirRva es
  skipped : out.1 = .ok () → Skips ctx baseAddress size → out.2.image = m₀
  image : out.1 = .ok () → ¬ Skips ctx baseAddress size →
    ∀ es, TableOk pcd ctx m₀ ctx.relocDirRva es →
      out.2.image = shiftAll (sub64 baseAddress ctx.imageBase) (targets es) m₀

lemma TableOk.unique {es es' : List (Nat × Nat)} {off : Nat} (h : TableOk pcd ctx m₀ off es)
    (h' : TableOk pcd ctx m₀ off es') : es = es' := by
  have hge : dirTop ctx < tableEnd pcd (dirTop ctx) + 8 := by
    have := le_tableEnd pcd (dirTop ctx)
    omega
  exact (h.1.unique h'.1 hge hge).2

end

lemma imageBase_lt (f : File) : imageBase f < 2^64 := by
  unfold imageBase
  cases peType f with
  | pe32 => exact (le_lt f.bytes _ 4).trans (by norm_num)
  | pe32Plus => exact le_lt f.bytes _ 8

/-- **relocation applies the table of the memory it is given, and nothing else** -/
theorem peCoffRelocateImage_table {pcd : Pcd} {arch : Arch} {origin : ImageOrigin} {f : File}
    {ctx : PeContext} {log : List Span} {baseAddress fuel : Nat} {size : Option Nat}
    (hrun : peCoffInitializeContext pcd arch origin f [] = (.ok ctx, log))
    (hbase : baseAddress < 2^64) (hsize : ContextSize ctx size) (hfuel : ctx.relocDirSize < fuel)
    (m₀ : Mem) (rt : RuntimeContext) : TableContract pcd ctx baseAddress size m₀
      (peCoffRelocateImage pcd ctx baseAddress size fuel (.start m₀ rt)) := by
  obtain ⟨-, h⟩ := accepted_of_run hrun
  have hspec := peCoffRelocateImage_spec pcd m₀ h.hasRelocDir (h.base ▸ imageBase_lt f) hbase hsize hfuel rt
  rcases hout : peCoffRelocateImage pcd ctx baseAddress size fuel (.start m₀ rt) with ⟨e | _, s'⟩
  · obtain ⟨hst, hno, hinv⟩ := wp_error hspec hout
    exact {
      terminates := fun he => hst (Except.error.inj he)
      reads := hinv.reads
      directory := hinv.table
      behind := hinv.behind
      context := hinv.writes
      succeeds := ⟨fun he => (nomatch he), fun hp => absurd hp hno⟩
      skipped := fun he => (nomatch he)
      image := fun he => (nomatch he) }
  · obtain ⟨hinv, -, hdone⟩ := wp_ok hspec hout
    exact {
      terminates := fun he => (nomatch he)
      reads := hinv.reads
      directory := hinv.table
      behind := hinv.behind
      context := hinv.writes
      succeeds := ⟨fun _ => hdone.elim (fun h => .inl h.1) fun ⟨_, es, hes⟩ =>
        .inr ⟨hes.fits, es, hes.table⟩, fun _ => rfl⟩
      skipped := fun _ hs => hdone.elim (fun h => h.2.1) fun h => absurd hs h.1
      image := fun _ hs es hes => hdone.elim (fun h => absurd h.1 hs) fun ⟨_, es', hes'⟩ => by
        rw [hes'.image, hes'.table.unique hes] }

/-- the same file as `gapImage` with room for two entries -/
def relocImage : File where
  bytes := put gapImage.bytes 164 4 12
  size := 208
  size_lt := gapImage.size_lt

def relocContext : PeContext := { gapContext with relocDirSize := 12 }

lemma relocImage_run : (peCoffInitializeContext .default .x64 .userImage relocImage []).1 = .ok relocContext := by
  decide +kernel

/-- a memory with one `HIGHLOW` entry for `0x1010` and one padding entry -/
def relocMemory : Mem := ofFields [(208, 4, 0x1000), (212, 4, 12), (216, 2, 0x3010), (0x1010, 4, 0x1234)]

/-- a runtime context that was never initialised -/
def rawContext : RuntimeContext := ⟨0xAF, 0xAF, fun _ => 0xAF⟩

theorem relocMemory_relocated : TableContract .default relocContext 0x7000 (some 56) relocMemory
      (peCoffRelocateImage .default relocContext 0x7000 (some 56) 13 (.start relocMemory rawContext)) ∧
    le (peCoffRelocateImage .default relocContext 0x7000 (some 56) 13
      (.start relocMemory rawContext)).2.image 0x1010 4 = 0x8234 :=
  ⟨peCoffRelocateImage_table (Prod.ext relocImage_run rfl) (by norm_num)
    (fun n hn => by cases hn; decide +kernel) (by decide) relocMemory rawContext, by decide +kernel⟩

/-- at its preferred address and without a runtime context, the image is accepted although a block of
size zero starts its table -/
theorem gapImage_table_ignored :
    (peCoffInitializeContext .default .x64 .userImage gapImage []).1 = .ok gapContext ∧
    (peCoffRelocateImage .default gapContext gapContext.imageBase none 9
      (.start (fun _ => 0) rawContext)).1 = .ok () ∧
    ¬ ∃ es, TableOk .default gapContext (fun _ => 0) gapContext.relocDirRva es := by
  refine ⟨gapImage_run, by decide +kernel, ?_⟩
  exact not_tableOk (by decide) (.inl (by decide))

end Audk.PeCoff
