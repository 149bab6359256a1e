import Audk.PeCoff.Accepted

/-!
# The contract of `PeCoffInitializeContext`

`WellFormed` lists what the later loader functions may assume of an accepted image.  All of it holds
but for one gap: under the relaxed section policy the relocation directory is only required to start
behind the headers, so it may lie in front of the first section.

* `peCoffInitializeContext_wellFormed_iff`: an accepted image is well-formed exactly when its
  relocation directory is not in that gap;
* `gapImage`: a file that is accepted with its relocation directory in the gap.
-/

namespace Audk.PeCoff

open Bytes Prog Arith

section
variable (pcd : Pcd) (f : File) (ctx : PeContext) (log : List Span)

structure WellFormed : Prop where
  reads : ∀ s, s ∈ log → s.Within 0 f.size
  table : ctx.sectionsOffset + 40 * ctx.numberOfSections ≤ ctx.sizeOfHeaders
  headers : ctx.sizeOfHeaders ≤ f.size
  nonempty : 0 < ctx.numberOfSections
  sorted : ∀ i j, i < j → j < ctx.numberOfSections →
    (sectionAt f ctx.sectionsOffset i).virtualAddress ≤ (sectionAt f ctx.sectionsOffset j).virtualAddress
  disjoint : ∀ i j, i < j → j < ctx.numberOfSections →
    Span.Disjoint
      ⟨(sectionAt f ctx.sectionsOffset i).virtualAddress, (sectionAt f ctx.sectionsOffset i).virtualSize⟩
      ⟨(sectionAt f ctx.sectionsOffset j).virtualAddress, (sectionAt f ctx.sectionsOffset j).virtualSize⟩
  noWrap : ∀ j, j < ctx.numberOfSections → (sectionAt f ctx.sectionsOffset j).top < 2^32
  below : ∀ j, j < ctx.numberOfSections → (sectionAt f ctx.sectionsOffset j).top ≤ ctx.sizeOfImage
  first : (sectionAt f ctx.sectionsOffset 0).virtualAddress = 0 ∨
    ctx.sizeOfHeaders ≤ (sectionAt f ctx.sectionsOffset 0).virtualAddress
  raw : ∀ j, j < ctx.numberOfSections → 0 < (sectionAt f ctx.sectionsOffset j).sizeOfRawData →
    (sectionAt f ctx.sectionsOffset j).pointerToRawData + (sectionAt f ctx.sectionsOffset j).sizeOfRawData ≤ f.size
  alignment : ∃ k, ctx.sectionAlignment = 2^k
  alignedSections : ∀ j, j < ctx.numberOfSections →
    ctx.sectionAlignment ∣ (sectionAt f ctx.sectionsOffset j).virtualAddress
  alignedBase : ctx.sectionAlignment ∣ ctx.imageBase
  alignedSize : ctx.sectionAlignment ∣ ctx.sizeOfImage
  size : ctx.sizeOfImage =
    roundUp (sectionAt f ctx.sectionsOffset (ctx.numberOfSections - 1)).top ctx.sectionAlignment
  entry : ctx.addressOfEntryPoint < ctx.sizeOfImage
  reloc : ctx.relocDirSize ≠ 0 →
    (sectionAt f ctx.sectionsOffset 0).virtualAddress ≤ ctx.relocDirRva ∧
      ctx.relocDirRva + ctx.relocDirSize ≤ ctx.sizeOfImage
  contiguous : pcd.contiguousSections = false →
    ((sectionAt f ctx.sectionsOffset 0).virtualAddress = 0 ∨
      (sectionAt f ctx.sectionsOffset 0).virtualAddress = roundUp ctx.sizeOfHeaders ctx.sectionAlignment) ∧
    ∀ j, j + 1 < ctx.numberOfSections →
      (sectionAt f ctx.sectionsOffset (j+1)).virtualAddress =
        roundUp (sectionAt f ctx.sectionsOffset j).top ctx.sectionAlignment

/-- the sections need not be contiguous and the file has a relocation directory that starts in front
of its first section -/
def RelocDirInGap : Prop :=
  pcd.contiguousSections = true ∧ dirSize f directoryEntryBaseReloc ≠ 0 ∧
    dirRva f directoryEntryBaseReloc < (sectionAt f (sectionsOffset f) 0).virtualAddress

end

section
variable {pcd : Pcd} {arch : Arch} {origin : ImageOrigin} {f : File} {ctx : PeContext} {log : List Span}

/-- outside the gap the start that the relocation check uses is the first section -/
lemma Accepted.reloc_after_first (h : Accepted pcd f ctx) (hgap : ¬ RelocDirInGap pcd f)
    (hne : ctx.relocDirSize ≠ 0) :
    (sectionAt f ctx.sectionsOffset 0).virtualAddress ≤ ctx.relocDirRva := by
  have hstart : startAddress pcd f ctx ≤ ctx.relocDirRva := (h.reloc hne).2.1
  unfold startAddress at hstart
  by_cases h0 : (sectionAt f ctx.sectionsOffset 0).virtualAddress = 0
  · rw [h0]
    exact Nat.zero_le _
  rw [if_neg h0] at hstart
  by_cases hs : pcd.contiguousSections = false
  · rwa [if_pos hs] at hstart
  · rw [h.relocSize] at hne
    rw [h.relocRva, h.offset]
    by_contra hlt
    exact hgap ⟨by simpa using hs, hne, not_le.mp hlt⟩

/-- **an accepted image is well-formed unless its relocation directory lies in the gap between the
headers and the first section** -/
theorem peCoffInitializeContext_wellFormed_iff
    (hrun : peCoffInitializeContext pcd arch origin f [] = (.ok ctx, log)) :
    WellFormed pcd f ctx log ↔ ¬ RelocDirInGap pcd f := by
  obtain ⟨hlog, h⟩ := accepted_of_run hrun
  constructor
  · rintro hw ⟨-, hne, hlt⟩
    rw [← h.relocSize] at hne
    rw [← h.relocRva, ← h.offset] at hlt
    exact absurd (hw.reloc hne).1 (not_le.mpr hlt)
  · intro hgap
    exact {
      reads := hlog
      table := h.headers
      headers := h.headers_le
      nonempty := h.pos
      sorted := fun i j hij hj => (Nat.le_add_right _ _).trans (h.sorted i j hij hj)
      disjoint := fun i j hij hj => .inl (h.sorted i j hij hj)
      noWrap := fun j hj => lt_of_le_of_lt (h.top_le j hj) h.size_lt
      below := h.top_le
      first := h.first
      raw := h.raw
      alignment := isPow2_iff.mp h.pow2
      alignedSections := h.aligned
      alignedBase := h.base_dvd
      alignedSize := h.size_eq ▸ dvd_roundUp _ _
      size := h.size_eq
      entry := h.entry
      reloc := fun hne => ⟨h.reloc_after_first hgap hne, (h.reloc hne).2.2.1⟩
      contiguous := h.strict }

end

/-! ## an image with its relocation directory in the gap -/

/-- a PE32 file of `208` bytes: one section at `0x1000`, a relocation directory at `208` -/
def gapImage : File where
  bytes := ofFields [(0, 4, 0x4550), (4, 2, 0x14c), (6, 2, 1), (20, 2, 144), (24, 2, 0x10b),
    (40, 4, 0x1000), (56, 4, 0x1000), (84, 4, 208), (92, 2, 10), (116, 4, 6), (160, 4, 208),
    (164, 4, 8), (176, 4, 0x1000), (180, 4, 0x1000), (204, 4, 0x60000020)]
  size := 208
  size_lt := by norm_num

def gapContext : PeContext where
  imageBase := 0
  fileSize := 208
  sectionsOffset := 168
  numberOfSections := 1
  sizeOfImage := 0x2000
  sectionAlignment := 0x1000
  exeHdrOffset := 0
  sizeOfHeaders := 208
  addressOfEntryPoint := 0x1000
  relocsStripped := false
  imageType := .pe32
  subsystem := 10
  machine := 0x14c
  relocDirRva := 208
  relocDirSize := 8
  secDirOffset := 0
  secDirSize := 0

lemma gapImage_run : (peCoffInitializeContext .default .x64 .userImage gapImage []).1 = .ok gapContext := by
  decide +kernel

theorem gapImage_not_wellFormed :
    ∃ log, peCoffInitializeContext .default .x64 .userImage gapImage [] = (.ok gapContext, log) ∧
      ¬ WellFormed .default gapImage gapContext log := by
  refine ⟨_, Prod.ext gapImage_run rfl, fun hw => ?_⟩
  have h : ¬ (sectionAt gapImage gapContext.sectionsOffset 0).virtualAddress ≤
      gapContext.relocDirRva := by decide +kernel
  exact h (hw.reloc (by decide)).1

/-- the same file without a relocation directory -/
def plainImage : File where
  bytes := put gapImage.bytes 164 4 0
  size := 208
  size_lt := by norm_num

theorem plainImage_wellFormed :
    ∃ ctx log, peCoffInitializeContext .default .x64 .userImage plainImage [] = (.ok ctx, log) ∧
      WellFormed .default plainImage ctx log := by
  have hrun : (peCoffInitializeContext .default .x64 .userImage plainImage []).1 =
      .ok { gapContext with relocDirSize := 0 } := by decide +kernel
  refine ⟨_, _, Prod.ext hrun rfl, ?_⟩
  refine (peCoffInitializeContext_wellFormed_iff (Prod.ext hrun rfl)).mpr ?_
  rintro ⟨-, hne, -⟩
  exact hne (by decide +kernel)

end Audk.PeCoff
