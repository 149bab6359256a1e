import Audk.Ue.TwoPhase

/-!
# What the first phase reads and writes

The first phase once more, with a trace of its accesses to the table and to the image, of the sums that it stores in
`RelocTarget`, and of the fixups in the order in which they are visited.

* `tracedRelocateImage_ok`: it holds of every run, and no loop runs out of fuel;
* `tracedRootStep_keeps`: what the next fixup cannot undo stays.
-/

namespace Audk.Ue

open Bytes Prog Arith List Nat

/-- `sums` are the exact values of the sums -/
structure Trace where
  table : List Span
  image : List Span
  sums : List Nat
  fixups : List (Nat × Nat)

def Trace.empty : Trace := ⟨[], [], [], []⟩

structure TracedState where
  reloc : RelocState
  trace : Trace

abbrev TracedReloc (α : Type) := Prog TracedState Status α

def onReloc {α : Type} (x : UeReloc α) : TracedReloc α := fun s => ((x s.reloc).1, { s with reloc := (x s.reloc).2 })

def noteTable (off len : Nat) : TracedReloc Unit :=
  modify fun s => { s with trace := { s.trace with table := s.trace.table ++ [⟨off, len⟩] } }

def noteImage (off len : Nat) : TracedReloc Unit :=
  modify fun s => { s with trace := { s.trace with image := s.trace.image ++ [⟨off, len⟩] } }

def noteSum (n : Nat) : TracedReloc Unit :=
  modify fun s => { s with trace := { s.trace with sums := s.trace.sums ++ [n] } }

def visit (relocType relocTarget : Nat) : TracedReloc Unit :=
  modify fun s => { s with trace := { s.trace with fixups := s.trace.fixups ++ [(relocType, relocTarget)] } }

/-! ## the first phase with its trace -/

/-- `internalApplyRelocation`: the fixup is read and written -/
def tracedApplyRelocation (imageSize relocType relocTarget adjust fixupData : Nat) : TracedReloc (Nat × Nat) := do
  let rem := baseOverflowSubU32 imageSize relocTarget
  stopIf (rem.1 = true) .volumeCorrupted
  match relocWidth relocType with
  | none => fail .unsupported
  | some width =>
    stopIf (rem.2 < width) .volumeCorrupted
    visit relocType relocTarget
    noteImage relocTarget width
    let image ← onReloc (gets RelocState.image)
    let value := (le image relocTarget width + adjust) % 256^width
    noteImage relocTarget width
    onReloc (modify fun s => { s with image := put s.image relocTarget width value })
    noteSum (relocTarget + width)
    return (add32 relocTarget width, if relocType = ueReloc32NoMeta then value else fixupData)

def tracedChainStep (imageSize adjust : Nat) (c : ChainState) : TracedReloc ChainState := do
  let rem := baseOverflowSubU32 imageSize c.relocTarget
  stopIf (rem.1 = true) .volumeCorrupted
  stopIf (c.relocType ≠ ueReloc64 ∧ c.relocType ≠ ueReloc32) .unsupported
  stopIf (rem.2 < linkWidth c.relocType) .volumeCorrupted
  visit c.relocType c.relocTarget
  noteImage c.relocTarget (linkWidth c.relocType)
  let image ← onReloc (gets RelocState.image)
  match link image c.relocType c.relocTarget with
  | none => fail .unsupported
  | some l =>
    let value := (l.value + adjust) % 256^l.width
    noteImage c.relocTarget l.width
    onReloc (modify fun s => { s with image := put s.image c.relocTarget l.width value })
    onReloc (unchainReloc false (RuntimeContext.append sizeofUeHead (l.nextOffset * 2^4 + c.relocType) (some value)))
    noteSum (c.relocTarget + l.width)
    let relocTarget := add32 c.relocTarget l.width
    if l.nextOffset = ueFixupOffsetEnd then return ⟨c.relocType, relocTarget, true⟩
    else do
      noteSum (relocTarget + l.nextOffset)
      return ⟨l.nextType, add32 relocTarget l.nextOffset, false⟩

def tracedRelocChain (imageSize firstRelocType chainStart adjust : Nat) : TracedReloc Nat := do
  let c ← repeatWhile (fun c => c.finished = false) (tracedChainStep imageSize adjust) .aborted
    (imageSize + 2) ⟨firstRelocType, chainStart, false⟩
  return c.relocTarget

/-- `nextHead`; the sum is stored before the table is tested -/
def tracedNextHead (table : RelocTable) (fixupInfo : Nat) (t : TableState) : TracedReloc TableState :=
  if fixupInfo / 2^4 = ueFixupOffsetEnd then return { t with finished := true }
  else do
    noteSum (t.relocTarget + fixupInfo / 2^4)
    stopIf (sub32 table.size sizeofUeHead < t.tableOffset) .volumeCorrupted
    return { t with relocTarget := add32 t.relocTarget (fixupInfo / 2^4) }

def tracedHeadFixups (imageSize : Nat) (chaining : Bool) (adjust fixupInfo : Nat) (t : TableState) :
    TracedReloc TableState :=
  if chaining = true ∧ fixupInfo % 2^4 ≠ ueReloc32NoMeta then do
    let relocTarget ← tracedRelocChain imageSize (fixupInfo % 2^4) t.relocTarget adjust
    return { t with relocTarget := relocTarget }
  else do
    let r ← tracedApplyRelocation imageSize (fixupInfo % 2^4) t.relocTarget adjust t.fixupData
    onReloc (unchainReloc false (RuntimeContext.append sizeofUeHead fixupInfo (some r.2)))
    return { t with relocTarget := r.1, fixupData := r.2 }

def tracedHeadStep (imageSize : Nat) (table : RelocTable) (chaining : Bool) (adjust : Nat) (t : TableState) :
    TracedReloc TableState := do
  noteTable t.tableOffset 2
  let fixupInfo := le table.bytes t.tableOffset 2
  let t ← tracedHeadFixups imageSize chaining adjust fixupInfo
    { t with tableOffset := add32 t.tableOffset sizeofUeHead }
  onReloc (unchainReloc false (RuntimeContext.setOffset (fixupInfo / 2^4)))
  tracedNextHead table fixupInfo t

def tracedRootStep (table : RelocTable) (heads : TableState → TracedReloc TableState) (t : TableState) :
    TracedReloc TableState := do
  noteTable t.tableOffset 4
  let firstOffset := le table.bytes t.tableOffset 4
  let sum := baseOverflowAddU32 t.relocTarget firstOffset
  stopIf (sum.1 = true) .volumeCorrupted
  noteSum (t.relocTarget + firstOffset)
  onReloc (unchainReloc false (RuntimeContext.append sizeofUeFixupRoot firstOffset none))
  let t ← repeatWhile (fun t => t.finished = false) heads .aborted (table.size + 2)
    { t with
      tableOffset := add32 t.tableOffset sizeofUeFixupRoot
      relocTarget := sum.2
      finished := false }
  return { t with tableOffset := alignValue t.tableOffset sizeofUeFixupRoot }

def tracedRelocateRoots (table : RelocTable) (heads : TableState → TracedReloc TableState) (fixupData : Nat) :
    TracedReloc Unit := do
  let _ ← repeatWhile (fun t => t.tableOffset ≤ sub32 table.size minSizeOfUeFixupRoot)
    (tracedRootStep table heads) .aborted (table.size + 1) ⟨0, 0, fixupData, true⟩
  return ()

def tracedRelocateImage (f : File) (ctx : UeContext) (baseAddress fixupData : Nat) : TracedReloc Unit :=
  let adjust := sub64 baseAddress (linkedAddress ctx)
  let table := relocTable f ctx
  let chaining := ueHeaderChainedFixups f
  if table.size = 0 ∨ (adjust = 0 ∧ chaining = false) then return ()
  else tracedRelocateRoots table (tracedHeadStep ctx.imageSize table chaining adjust) fixupData

/-! ## without the trace -/

section
variable {imageSize adjust : Nat} {table : RelocTable} {chaining : Bool}

lemma erases_onReloc {α : Type} (x : UeReloc α) : Erases TracedState.reloc (onReloc x) x := fun _ => rfl

lemma tracedApplyRelocation_erases (type target data : Nat) :
    Erases TracedState.reloc (tracedApplyRelocation imageSize type target adjust data)
      (internalApplyRelocation imageSize type target adjust data) := by
  refine erases_bind (erases_stopIf _ _) fun _ => ?_
  cases relocWidth type with
  | none => exact erases_fail _
  | some width =>
    refine erases_bind (erases_stopIf _ _) fun _ => erases_modify (fun _ => rfl) (erases_modify (fun _ => rfl) ?_)
    refine erases_bind (erases_onReloc _) fun image => erases_modify (fun _ => rfl) ?_
    refine erases_bind (erases_onReloc _) fun _ => erases_modify (fun _ => rfl) ?_
    exact erases_pure _

lemma tracedChainStep_erases (c : ChainState) :
    Erases TracedState.reloc (tracedChainStep imageSize adjust c) (chainStep imageSize adjust c) := by
  refine erases_bind (erases_stopIf _ _) fun _ => erases_bind (erases_stopIf _ _) fun _ =>
    erases_bind (erases_stopIf _ _) fun _ => erases_modify (fun _ => rfl) (erases_modify (fun _ => rfl) ?_)
  refine erases_bind (erases_onReloc _) fun image => ?_
  cases link image c.relocType c.relocTarget with
  | none => exact erases_fail _
  | some l =>
    refine erases_modify (fun _ => rfl) (erases_bind (erases_onReloc _) fun _ => ?_)
    refine erases_bind (erases_onReloc _) fun _ => erases_modify (fun _ => rfl) ?_
    exact erases_ite _ (fun _ => erases_pure _) fun _ => erases_modify (fun _ => rfl) (erases_pure _)

lemma tracedHeadStep_erases (t : TableState) :
    Erases TracedState.reloc (tracedHeadStep imageSize table chaining adjust t)
      (headStep imageSize table chaining adjust t) := by
  have hfixups : ∀ info t, Erases TracedState.reloc (tracedHeadFixups imageSize chaining adjust info t)
      (headFixups imageSize chaining adjust info t) := by
    intro info t
    refine erases_ite _ (fun _ => ?_) (fun _ => ?_)
    · unfold tracedRelocChain internalProcessRelocChain
      refine erases_bind (erases_bind ?_ fun _ => erases_pure _) fun _ => erases_pure _
      exact erases_repeatWhile tracedChainStep_erases _ _
    · exact erases_bind (tracedApplyRelocation_erases _ _ _) fun _ =>
        erases_bind (erases_onReloc _) fun _ => erases_pure _
  refine erases_modify (fun _ => rfl) (erases_bind (hfixups _ _) fun t => ?_)
  refine erases_bind (erases_onReloc _) fun _ => ?_
  refine erases_ite _ (fun _ => erases_pure _) fun _ => erases_modify (fun _ => rfl) ?_
  exact erases_bind (erases_stopIf _ _) fun _ => erases_pure _

/-- **without the trace it is the first phase** -/
theorem tracedRelocateImage_erases (f : File) (ctx : UeContext) (baseAddress fixupData : Nat) :
    Erases TracedState.reloc (tracedRelocateImage f ctx baseAddress fixupData)
      (ueRelocateImage f ctx baseAddress fixupData) := by
  refine erases_ite _ (fun _ => erases_pure _) fun _ => ?_
  refine erases_bind (erases_repeatWhile (fun t => ?_) _ _) fun _ => erases_pure _
  refine erases_modify (fun _ => rfl) (erases_bind (erases_stopIf _ _) fun _ => erases_modify (fun _ => rfl) ?_)
  refine erases_bind (erases_onReloc _) fun _ => erases_bind ?_ fun _ => erases_pure _
  exact erases_repeatWhile tracedHeadStep_erases _ _

end

/-! ## what holds of the trace -/

/-- the accesses are inside the table and the image, no sum wraps, and the fixups are visited in ascending order and
apart from each other, all below `target` -/
structure TraceOk (tableSize imageSize target : Nat) (a : Trace) : Prop where
  table : ∀ x ∈ a.table, x.off + x.len ≤ tableSize
  image : ∀ x ∈ a.image, x.off + x.len ≤ imageSize
  sums : ∀ n ∈ a.sums, n < 2^32
  apart : a.fixups.Pairwise fun x y => x.2 + spotWidth x ≤ y.2
  width : ∀ x ∈ a.fixups, 0 < spotWidth x
  below : ∀ x ∈ a.fixups, x.2 + spotWidth x ≤ target

lemma forall_mem_concat {α : Type} {p : α → Prop} {l : List α} {x : α} (h : ∀ y ∈ l, p y) (hx : p x) :
    ∀ y ∈ l ++ [x], p y := by
  intro y hy
  rcases mem_append.mp hy with hy | hy
  · exact h y hy
  · rw [mem_singleton.mp hy]
    exact hx

section
variable {tableSize imageSize target : Nat} {a : Trace}

lemma traceOk_empty (tableSize imageSize target : Nat) : TraceOk tableSize imageSize target .empty where
  table := fun _ hx => absurd hx not_mem_nil
  image := fun _ hx => absurd hx not_mem_nil
  sums := fun _ hx => absurd hx not_mem_nil
  apart := List.Pairwise.nil
  width := fun _ hx => absurd hx not_mem_nil
  below := fun _ hx => absurd hx not_mem_nil

section
variable (h : TraceOk tableSize imageSize target a)
include h

lemma TraceOk.move {t : Nat} (ht : target ≤ t) :
    TraceOk tableSize imageSize t a :=
  { h with below := fun x hx => (h.below x hx).trans ht }

lemma TraceOk.noteTable {off len : Nat} (hin : off + len ≤ tableSize) :
    TraceOk tableSize imageSize target { a with table := a.table ++ [⟨off, len⟩] } :=
  { h with table := forall_mem_concat h.table hin }

lemma TraceOk.noteImage {off len : Nat} (hin : off + len ≤ imageSize) :
    TraceOk tableSize imageSize target { a with image := a.image ++ [⟨off, len⟩] } :=
  { h with image := forall_mem_concat h.image hin }

lemma TraceOk.noteSum {n : Nat} (hn : n < 2^32) :
    TraceOk tableSize imageSize target { a with sums := a.sums ++ [n] } :=
  { h with sums := forall_mem_concat h.sums hn }

lemma TraceOk.visit {type w : Nat} (hw : relocWidth type = some w) :
    TraceOk tableSize imageSize (target + w) { a with fixups := a.fixups ++ [(type, target)] } := by
  have hwidth : spotWidth (type, target) = w := by
    show (relocWidth type).getD 0 = w
    rw [hw]
    rfl
  have hpos : 0 < w := by
    rcases relocWidth_cases hw with h | h <;> omega
  exact { h with
    apart := by
      refine pairwise_append.mpr ⟨h.apart, pairwise_singleton _ _, fun x hx y hy => ?_⟩
      rw [mem_singleton.mp hy]
      exact h.below x hx
    width := forall_mem_concat h.width (hwidth ▸ hpos)
    below := by
      refine forall_mem_concat (fun x hx => (h.below x hx).trans (le_add_right _ _)) ?_
      rw [hwidth] }

end

end

/-- a run that stops, and not because a loop has run out of fuel -/
def Stopped (tableSize imageSize : Nat) (e : Status) (s : TracedState) : Prop :=
  e ≠ .aborted ∧ ∃ t, TraceOk tableSize imageSize t s.trace

section
variable {tableSize imageSize adjust : Nat} {s : TracedState}

lemma TraceOk.stopped {t : Nat} (h : TraceOk tableSize imageSize t s.trace) {e : Status} (he : e ≠ .aborted) :
    Stopped tableSize imageSize e s := ⟨he, t, h⟩

variable {E : Status → TracedState → Prop} {Q : Unit → TracedState → Prop}

lemma wp_onReloc_modify {f : RelocState → RelocState} :
    wp (onReloc (modify f)) Q E s ↔ Q () { s with reloc := f s.reloc } := Iff.rfl

lemma wp_onReloc_gets {α : Type} {f : RelocState → α} {Q : α → TracedState → Prop}
    : wp (onReloc (gets f)) Q E s ↔ Q (f s.reloc) s := Iff.rfl

lemma wp_onReloc_unchain {update : RuntimeContext → RuntimeContext} (h : ∀ r, Q () { s with reloc := r }) :
    wp (onReloc (unchainReloc false update)) Q E s := h _

section
variable (himage : imageSize + 2^12 ≤ 2^32)
include himage

lemma tracedApplyRelocation_ok {type target data : Nat}
    (h : TraceOk tableSize imageSize target s.trace) : wp (tracedApplyRelocation imageSize type target adjust data)
      (fun r s' => r.1 ≤ imageSize ∧ TraceOk tableSize imageSize r.1 s'.trace) (Stopped tableSize imageSize) s := by
  refine wp_stopIf_bind (fun _ => h.stopped (by decide)) fun hov => ?_
  have hov' : (baseOverflowSubU32 imageSize target).1 = false := by simpa using hov
  have hle := baseOverflowSubU32_fst.mp hov'
  rw [baseOverflowSubU32_snd (by omega) hov']
  cases hw : relocWidth type with
  | none => exact h.stopped (by decide)
  | some width =>
    show wp (stopIf _ _ >>= _) _ _ s
    refine wp_stopIf_bind (fun _ => h.stopped (by decide)) fun hrem => ?_
    have hfits : target + width ≤ imageSize := by omega
    show add32 target width ≤ imageSize ∧ _
    rw [add32_eq (by omega)]
    exact ⟨hfits, (((h.visit hw).noteImage hfits).noteImage hfits).noteSum (by omega)⟩

lemma tracedChainStep_ok {c : ChainState}
    (h : TraceOk tableSize imageSize c.relocTarget s.trace) : wp (tracedChainStep imageSize adjust c)
      (fun c' s' => TraceOk tableSize imageSize c'.relocTarget s'.trace ∧ c.relocTarget + 4 ≤ imageSize ∧
        c.relocTarget + 4 ≤ c'.relocTarget ∧ (c'.finished = true → c'.relocTarget ≤ imageSize))
      (Stopped tableSize imageSize) s := by
  refine wp_stopIf_bind (fun _ => h.stopped (by decide)) fun hov => ?_
  have hov' : (baseOverflowSubU32 imageSize c.relocTarget).1 = false := by simpa using hov
  have hle := baseOverflowSubU32_fst.mp hov'
  rw [baseOverflowSubU32_snd (by omega) hov', wp_bind, wp_stopIf]
  refine ⟨fun _ => h.stopped (by decide), fun htype => ?_⟩
  refine wp_stopIf_bind (fun _ => h.stopped (by decide)) fun hrem => ?_
  -- the type is one of the two
  have hwidth : relocWidth c.relocType = some (linkWidth c.relocType) := by
    by_cases h64 : c.relocType = ueReloc64
    · rw [h64]
      rfl
    · have h32 : c.relocType = ueReloc32 := not_not.mp fun h32 => htype ⟨h64, h32⟩
      rw [h32]
      rfl
  have hfits : c.relocTarget + linkWidth c.relocType ≤ imageSize := by omega
  have h4 : 4 ≤ linkWidth c.relocType := by
    rcases relocWidth_cases hwidth with h | h <;> omega
  have hv := (h.visit hwidth).noteImage hfits
  rw [wp_bind, visit, wp_modify, wp_bind, noteImage, wp_modify, wp_bind, wp_onReloc_gets]
  cases hl : link s.reloc.image c.relocType c.relocTarget with
  | none => exact hv.stopped (by decide)
  | some l =>
    obtain ⟨hlw, -, hoff, -⟩ := link_spec hl
    have hadd : add32 c.relocTarget l.width = c.relocTarget + linkWidth c.relocType := by
      rw [hlw]
      exact add32_eq (by omega)
    have hv' := hv.noteImage (hlw ▸ hfits)
    show wp (noteImage _ _ >>= _) _ _ _
    rw [wp_bind, noteImage, wp_modify, wp_bind, wp_onReloc_modify, wp_bind]
    refine wp_onReloc_unchain fun r => ?_
    rw [wp_bind, noteSum, wp_modify, hadd, wp_ite]
    have hsum := hv'.noteSum (show c.relocTarget + l.width < 2^32 by omega)
    refine ⟨fun _ => ⟨hsum, by omega, by show c.relocTarget + 4 ≤ _ + _; omega, fun _ => hfits⟩, fun _ => ?_⟩
    have hnext : add32 (c.relocTarget + linkWidth c.relocType) l.nextOffset =
      c.relocTarget + linkWidth c.relocType + l.nextOffset := add32_eq (by omega)
    rw [wp_bind, noteSum, wp_modify, wp_pure, hnext]
    refine ⟨(hsum.noteSum (by omega)).move (le_add_right _ _), by omega, ?_, fun hc => ?_⟩
    · show c.relocTarget + 4 ≤ c.relocTarget + linkWidth c.relocType + l.nextOffset
      omega
    · exact absurd hc Bool.false_ne_true

lemma tracedRelocChain_ok {type target : Nat}
    (h : TraceOk tableSize imageSize target s.trace) : wp (tracedRelocChain imageSize type target adjust)
      (fun t s' => t ≤ imageSize ∧ TraceOk tableSize imageSize t s'.trace) (Stopped tableSize imageSize) s := by
  unfold tracedRelocChain
  rw [wp_bind, show imageSize + 2 = (imageSize - (imageSize - target)) + (imageSize - target) + 2 by omega]
  -- every link is below the end of the image and behind the one before
  refine wp_post (wp_repeatWhile_measure
    (Q := fun c s' => c.relocTarget ≤ imageSize ∧ TraceOk tableSize imageSize c.relocTarget s'.trace)
    (fun k c s => c.finished = false ∧ k = imageSize - c.relocTarget ∧
      TraceOk tableSize imageSize c.relocTarget s.trace)
    (fun k c s hk => ?_) _ _ ⟨rfl, rfl, h⟩) (fun c s' hc => (wp_pure _).mpr hc)
  obtain ⟨hfin, rfl, hok⟩ := hk
  refine ⟨hfin, wp_post (tracedChainStep_ok himage hok) (fun c' s' hc' => ?_)⟩
  obtain ⟨hok', hin, hlt, hend⟩ := hc'
  by_cases hf : c'.finished = true
  · exact .inl ⟨by simp [hf], hend hf, hok'⟩
  · exact .inr ⟨imageSize - c'.relocTarget, by omega, by simpa using hf, rfl, hok'⟩

lemma tracedHeadFixups_ok {chaining : Bool} {info : Nat} {t : TableState}
    (h : TraceOk tableSize imageSize t.relocTarget s.trace) : wp (tracedHeadFixups imageSize chaining adjust info t)
      (fun t' s' => t'.tableOffset = t.tableOffset ∧ t'.finished = t.finished ∧ t'.relocTarget ≤ imageSize ∧
        TraceOk tableSize imageSize t'.relocTarget s'.trace) (Stopped tableSize imageSize) s := by
  unfold tracedHeadFixups
  rw [wp_ite]
  refine ⟨fun _ => ?_, fun _ => ?_⟩
  · rw [wp_bind]
    exact wp_post (tracedRelocChain_ok himage h) (fun u s' hu => ⟨rfl, rfl, hu⟩)
  · refine wp_seq (tracedApplyRelocation_ok himage h) (fun r s' hr => ?_)
    rw [wp_bind]
    exact wp_onReloc_unchain fun _ => ⟨rfl, rfl, hr⟩

end

end

/-! ## the table -/

section
variable {imageSize adjust : Nat} {table : RelocTable} {chaining : Bool} {s : TracedState}

section
variable (himage : imageSize + 2^12 ≤ 2^32)
include himage

lemma tracedHeadStep_ok (hlt : table.size < 2^32) {t : TableState}
    (hoff : t.tableOffset + 2 ≤ table.size) (h : TraceOk table.size imageSize t.relocTarget s.trace) :
    wp (tracedHeadStep imageSize table chaining adjust t)
      (fun t' s' => t'.tableOffset = t.tableOffset + 2 ∧ TraceOk table.size imageSize t'.relocTarget s'.trace ∧
        (t'.finished = false → t'.tableOffset + 2 ≤ table.size)) (Stopped table.size imageSize) s := by
  have hadd : add32 t.tableOffset sizeofUeHead = t.tableOffset + 2 :=
    add32_eq (show t.tableOffset + 2 < 2^32 by omega)
  have hinfo : le table.bytes t.tableOffset 2 < 2^16 := le_lt table.bytes t.tableOffset 2
  have h2 : sizeofUeHead = 2 := rfl
  unfold tracedHeadStep
  rw [wp_bind, noteTable, wp_modify, wp_bind, hadd]
  generalize le table.bytes t.tableOffset 2 = info at hinfo
  refine wp_post (tracedHeadFixups_ok himage (h.noteTable hoff)) (fun u s' hu => ?_)
  obtain ⟨huoff, hufin, hule, hu⟩ := hu
  have huoff' : u.tableOffset = t.tableOffset + 2 := huoff
  rw [wp_bind]
  refine wp_onReloc_unchain fun r => ?_
  unfold tracedNextHead
  rw [wp_ite]
  refine ⟨fun _ => ⟨huoff', hu, fun hc => Bool.noConfusion hc⟩, fun _ => ?_⟩
  have hsum := hu.noteSum (show u.relocTarget + info / 2^4 < 2^32 by omega)
  rw [wp_bind, noteSum, wp_modify, wp_bind, wp_stopIf, sub32_eq (by omega) hlt, h2]
  refine ⟨fun _ => hsum.stopped (by decide), fun hmax => ?_⟩
  have hnext : add32 u.relocTarget (info / 2^4) = u.relocTarget + info / 2^4 := add32_eq (by omega)
  rw [wp_pure, hnext]
  exact ⟨huoff', hsum.move (le_add_right _ _), fun _ => by
    show u.tableOffset + 2 ≤ table.size
    omega⟩

lemma tracedRootStep_ok (h4 : 4 ∣ table.size) (hlt : table.size < 2^32)
    {t : TableState} (hdvd : 4 ∣ t.tableOffset) (hoff : t.tableOffset + 6 ≤ table.size)
    (h : TraceOk table.size imageSize t.relocTarget s.trace) :
    wp (tracedRootStep table (tracedHeadStep imageSize table chaining adjust) t)
      (fun t' s' => t.tableOffset < t'.tableOffset ∧ 4 ∣ t'.tableOffset ∧
        TraceOk table.size imageSize t'.relocTarget s'.trace) (Stopped table.size imageSize) s := by
  have hadd : add32 t.tableOffset sizeofUeFixupRoot = t.tableOffset + 4 :=
    add32_eq (show t.tableOffset + 4 < 2^32 by omega)
  unfold tracedRootStep
  rw [wp_bind, noteTable, wp_modify, wp_bind, wp_stopIf, hadd]
  have htable := h.noteTable (show t.tableOffset + 4 ≤ table.size by omega)
  refine ⟨fun _ => htable.stopped (by decide), fun hov => ?_⟩
  have hov' : (baseOverflowAddU32 t.relocTarget (le table.bytes t.tableOffset 4)).1 = false := by simpa using hov
  have hlt' := baseOverflowAddU32_fst.mp hov'
  rw [baseOverflowAddU32_snd hov', wp_bind, noteSum, wp_modify, wp_bind]
  refine wp_onReloc_unchain fun r => ?_
  have hsum := (htable.noteSum hlt').move (le_add_right _ (le table.bytes t.tableOffset 4))
  rw [wp_bind, show table.size + 2 = (t.tableOffset + 4) + (table.size - (t.tableOffset + 4)) + 2 by omega]
  -- every head moves the offset on
  refine wp_post (wp_repeatWhile_measure
    (Q := fun u s' => t.tableOffset + 4 < u.tableOffset ∧ u.tableOffset ≤ table.size ∧
      TraceOk table.size imageSize u.relocTarget s'.trace)
    (fun k u s => u.finished = false ∧ k = table.size - u.tableOffset ∧ t.tableOffset + 4 ≤ u.tableOffset ∧
      u.tableOffset + 2 ≤ table.size ∧ TraceOk table.size imageSize u.relocTarget s.trace)
    (fun k u s hk => ?_) _ _ ⟨rfl, rfl, le_rfl, by show t.tableOffset + 4 + 2 ≤ _; omega, hsum⟩) (fun u s' hu => ?_)
  · obtain ⟨hfin, rfl, hlow, hup, hok⟩ := hk
    refine ⟨hfin, wp_post (tracedHeadStep_ok himage hlt hup hok) (fun u' s' hu' => ?_)⟩
    obtain ⟨hoff', hok', hopen⟩ := hu'
    by_cases hf : u'.finished = true
    · exact .inl ⟨by simp [hf], by omega, by omega, hok'⟩
    · have hf' : u'.finished = false := by simpa using hf
      have hup' := hopen hf'
      exact .inr ⟨table.size - u'.tableOffset, by omega, hf', rfl, by omega, hup', hok'⟩
  · obtain ⟨hlow, hup, hok⟩ := hu
    have hround := le_roundUp u.tableOffset (show 0 < 4 by decide)
    have hle : roundUp u.tableOffset 4 ≤ table.size := roundUp_le (by decide) h4 hup
    have halign : alignValue u.tableOffset sizeofUeFixupRoot = roundUp u.tableOffset 4 :=
      alignValue_eq (by decide) (by decide) (by omega) (show roundUp u.tableOffset 4 < 2^32 by omega)
    rw [wp_pure, halign]
    exact ⟨by show t.tableOffset < roundUp u.tableOffset 4; omega, dvd_roundUp _ _, hok⟩

lemma tracedRelocateRoots_ok (h8 : 8 ∣ table.size) (hpos : 0 < table.size)
    (hlt : table.size < 2^32) {fixupData : Nat} (h : TraceOk table.size imageSize 0 s.trace) :
    wp (tracedRelocateRoots table (tracedHeadStep imageSize table chaining adjust) fixupData)
      (fun _ s' => ∃ t, TraceOk table.size imageSize t s'.trace) (Stopped table.size imageSize) s := by
  have hsub : sub32 table.size minSizeOfUeFixupRoot = table.size - 6 := sub32_eq (by
    show 6 ≤ table.size
    omega) hlt
  unfold tracedRelocateRoots
  rw [wp_bind, show table.size + 1 = 5 + (table.size - 6) + 2 by omega]
  refine wp_post (wp_repeatWhile_measure (Q := fun t s' => TraceOk table.size imageSize t.relocTarget s'.trace)
    (fun k t s => t.tableOffset ≤ table.size - 6 ∧ k = table.size - 6 - t.tableOffset ∧ 4 ∣ t.tableOffset ∧
      TraceOk table.size imageSize t.relocTarget s.trace)
    (fun k t s hk => ?_) _ _ ⟨zero_le _, rfl, dvd_zero 4, h⟩) (fun t s' ht => ⟨_, ht⟩)
  obtain ⟨hle, rfl, hdvd, hok⟩ := hk
  rw [hsub]
  refine ⟨hle, wp_post (tracedRootStep_ok himage (dvd_trans (by decide) h8) hlt hdvd (by omega) hok)
    (fun t' s' ht' => ?_)⟩
  obtain ⟨hlow, hdvd', hok'⟩ := ht'
  by_cases hc : t'.tableOffset ≤ table.size - 6
  · exact .inr ⟨_, by omega, hc, rfl, hdvd', hok'⟩
  · exact .inl ⟨hc, hok'⟩

end

end

/-- **every run of the first phase ends, and its trace is fine** -/
theorem tracedRelocateImage_ok {f : File} {ctx : UeContext} (hok : Relocatable f ctx) (baseAddress fixupData : Nat)
    (reloc : RelocState) : wp (tracedRelocateImage f ctx baseAddress fixupData)
      (fun _ s => ∃ t, TraceOk ctx.relocTableSize ctx.imageSize t s.trace) (Stopped ctx.relocTableSize ctx.imageSize)
      ⟨reloc, .empty⟩ := by
  unfold tracedRelocateImage
  rw [wp_ite]
  refine ⟨fun _ => ⟨0, traceOk_empty _ _ _⟩, fun hc => ?_⟩
  have hpos : 0 < ctx.relocTableSize := pos_of_ne_zero fun h0 => hc (.inl h0)
  exact tracedRelocateRoots_ok hok.image (show 8 ∣ (relocTable f ctx).size from hok.table_dvd) hpos hok.table_lt (traceOk_empty _ _ _)

/-! ## what one more fixup brings about, and no later one undoes -/

section
variable {imageSize adjust : Nat} {table : RelocTable} {chaining : Bool} {P : List (Nat × Nat) → Prop}
  {s : TracedState}

lemma tracedChainStep_visits (c : ChainState) (h : ∀ x, P (s.trace.fixups ++ [x])) :
    wp (tracedChainStep imageSize adjust c) (fun _ s' => P s'.trace.fixups) (fun _ _ => True) s := by
  refine wp_stopIf_bind (fun _ => trivial) fun _ => ?_
  refine wp_stopIf_bind (fun _ => trivial) fun _ => ?_
  refine wp_stopIf_bind (fun _ => trivial) fun _ => ?_
  rw [wp_bind, visit, wp_modify, wp_bind, noteImage, wp_modify, wp_bind, wp_onReloc_gets]
  cases link s.reloc.image c.relocType c.relocTarget with
  | none => exact trivial
  | some l =>
    show wp (noteImage _ _ >>= _) _ _ _
    rw [wp_bind, noteImage, wp_modify, wp_bind, wp_onReloc_modify, wp_bind]
    refine wp_onReloc_unchain fun r => ?_
    rw [wp_bind, noteSum, wp_modify, wp_ite]
    exact ⟨fun _ => h _, fun _ => h _⟩

lemma tracedApplyRelocation_visits (type target data : Nat) (h : ∀ x, P (s.trace.fixups ++ [x])) :
    wp (tracedApplyRelocation imageSize type target adjust data) (fun _ s' => P s'.trace.fixups)
      (fun _ _ => True) s := by
  refine wp_stopIf_bind (fun _ => trivial) fun _ => ?_
  cases relocWidth type with
  | none => exact trivial
  | some width =>
    show wp (stopIf _ _ >>= _) _ _ s
    rw [wp_bind, wp_stopIf]
    exact ⟨fun _ => trivial, fun _ => h _⟩

variable (hP : ∀ xs x, P xs → P (xs ++ [x]))
include hP

lemma tracedChainStep_keeps (c : ChainState) (h : P s.trace.fixups) :
    wp (tracedChainStep imageSize adjust c) (fun _ s' => P s'.trace.fixups) (fun _ _ => True) s :=
  tracedChainStep_visits c fun x => hP _ x h

lemma tracedRelocChain_visits (type target : Nat) (h : ∀ x, P (s.trace.fixups ++ [x])) :
    wp (tracedRelocChain imageSize type target adjust) (fun _ s' => P s'.trace.fixups) (fun _ _ => True) s := by
  unfold tracedRelocChain
  rw [wp_bind, wp_repeatWhile_succ]
  refine ⟨fun _ => ?_, fun hfalse => absurd rfl hfalse⟩
  refine wp_post (tracedChainStep_visits _ h) (fun c s' hs' => ?_)
  exact wp_post (wp_repeatWhile (fun _ s => P s.trace.fixups) (fun c s h _ => tracedChainStep_keeps hP c h)
    (fun _ => trivial) _ hs') (fun _ _ h => (wp_pure _).mpr h)

lemma tracedHeadStep_visits (t : TableState) (h : ∀ x, P (s.trace.fixups ++ [x])) :
    wp (tracedHeadStep imageSize table chaining adjust t) (fun _ s' => P s'.trace.fixups) (fun _ _ => True) s := by
  have hfixups : ∀ info t (s : TracedState), (∀ x, P (s.trace.fixups ++ [x])) →
      wp (tracedHeadFixups imageSize chaining adjust info t) (fun _ s' => P s'.trace.fixups) (fun _ _ => True) s := by
    intro info t s h
    unfold tracedHeadFixups
    rw [wp_ite]
    refine ⟨fun _ => ?_, fun _ => ?_⟩
    · rw [wp_bind]
      exact wp_post (tracedRelocChain_visits hP _ _ h) (fun _ _ h => h)
    · refine wp_seq (tracedApplyRelocation_visits _ _ _ h) (fun r s' hr => ?_)
      rw [wp_bind]
      exact wp_onReloc_unchain fun _ => hr
  unfold tracedHeadStep
  rw [wp_bind, noteTable, wp_modify]
  refine wp_seq (hfixups _ _ _ h) (fun u s' hu => ?_)
  rw [wp_bind]
  refine wp_onReloc_unchain fun r => ?_
  unfold tracedNextHead
  rw [wp_ite]
  refine ⟨fun _ => hu, fun _ => ?_⟩
  rw [wp_bind, noteSum, wp_modify, wp_bind, wp_stopIf]
  exact ⟨fun _ => trivial, fun _ => hu⟩

lemma tracedHeadStep_keeps (t : TableState) (h : P s.trace.fixups) :
    wp (tracedHeadStep imageSize table chaining adjust t) (fun _ s' => P s'.trace.fixups) (fun _ _ => True) s :=
  tracedHeadStep_visits hP t fun x => hP _ x h

lemma tracedRootStep_visits (t : TableState) (h : ∀ x, P (s.trace.fixups ++ [x])) :
    wp (tracedRootStep table (tracedHeadStep imageSize table chaining adjust) t) (fun _ s' => P s'.trace.fixups)
      (fun _ _ => True) s := by
  unfold tracedRootStep
  rw [wp_bind, noteTable, wp_modify, wp_bind, wp_stopIf]
  refine ⟨fun _ => trivial, fun _ => ?_⟩
  rw [wp_bind, noteSum, wp_modify, wp_bind]
  refine wp_onReloc_unchain fun r => ?_
  rw [wp_bind, wp_repeatWhile_succ]
  refine ⟨fun _ => ?_, fun hfalse => absurd rfl hfalse⟩
  refine wp_post (tracedHeadStep_visits hP _ h) (fun t s' hs' => ?_)
  exact wp_post (wp_repeatWhile (fun _ s => P s.trace.fixups) (fun t s h _ => tracedHeadStep_keeps hP t h)
    (fun _ => trivial) _ hs') (fun _ _ h => (wp_pure _).mpr h)

lemma tracedRootStep_keeps (t : TableState) (h : P s.trace.fixups) :
    wp (tracedRootStep table (tracedHeadStep imageSize table chaining adjust) t) (fun _ s' => P s'.trace.fixups)
      (fun _ _ => True) s :=
  tracedRootStep_visits hP t fun x => hP _ x h

end

end Audk.Ue
