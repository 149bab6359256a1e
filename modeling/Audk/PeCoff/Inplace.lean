import Audk.PeCoff.ImageRecord
import Audk.PeCoff.Load

/-!
# `PeCoffLoad.c`: an image that is used where its file is

`PeCoffLoadImageInplaceNoBase` copies nothing.  It compares the raw with the virtual position of every section and then
takes the file buffer for the image buffer.

* `SectionHeader.Inplace`: what the loop ensures for a section;
* `SameSections`: two memories hold the same sections.

The sections are as `PeCoffLoadImage` would have loaded them.  A section without data has no position in the file, so
nothing bounds the image by the file if it is the last one.
-/

namespace Audk.PeCoff

open Bytes Prog Arith Nat

/-! ## the code -/

def inplaceSection (f : File) (ctx : PeContext) (i : Nat) (_ : Unit) : Loader Unit := do
  let hdr := ctx.sectionsOffset + sizeofSectionHeader * i
  let virtualSize ← load32 f (hdr + 8)
  let alignedSize := alignValue virtualSize ctx.sectionAlignment
  let pointerToRawData ← load32 f (hdr + 20)
  let va ← load32 f (hdr + 12)
  stopIf (pointerToRawData ≠ va) .volumeCorrupted
  let sizeOfRawData ← load32 f (hdr + 16)
  stopIf (sizeOfRawData ≠ alignedSize) .volumeCorrupted

def peCoffLoadImageInplaceNoBase (f : File) (ctx : PeContext) : Loader Unit := do
  loop (inplaceSection f ctx) 0 ctx.numberOfSections ()
  modify fun s => { s with image := f.bytes }

/-! ## the sections -/

/-- the section is in the file where it is in memory, and as long -/
def SectionHeader.Inplace (x : SectionHeader) (sectionAlignment : Nat) : Prop :=
  x.pointerToRawData = x.virtualAddress ∧ x.sizeOfRawData = alignValue x.virtualSize sectionAlignment

/-- the memories agree on every section -/
def SameSections (f : File) (ctx : PeContext) (m m' : Mem) : Prop :=
  ∀ j, j < ctx.numberOfSections → ∀ i, (sectionAt f ctx.sectionsOffset j).virtualAddress ≤ i →
    i < (sectionAt f ctx.sectionsOffset j).virtualAddress + (sectionAt f ctx.sectionsOffset j).virtualSize →
    m i = m' i

def lastSection (f : File) (ctx : PeContext) : SectionHeader :=
  sectionAt f ctx.sectionsOffset (ctx.numberOfSections - 1)

section
variable {pcd : Pcd} {f : File} {ctx : PeContext} {s : LoadState}

lemma inplaceSection_spec (i : Nat) : wp (inplaceSection f ctx i ())
      (fun _ _ => (sectionAt f ctx.sectionsOffset i).Inplace ctx.sectionAlignment) (fun _ _ => True) s := by
  show wp (stopIf _ _ >>= _) _ _ _
  refine wp_stopIf_bind (fun _ => trivial) fun hpointer => ?_
  show wp (stopIf _ _) _ _ _
  rw [wp_stopIf]
  exact ⟨fun _ => trivial, fun hsize => ⟨not_not.mp hpointer, not_not.mp hsize⟩⟩

lemma peCoffLoadImageInplaceNoBase_spec : wp (peCoffLoadImageInplaceNoBase f ctx)
      (fun _ s' => s'.image = f.bytes ∧ ∀ j, j < ctx.numberOfSections →
        (sectionAt f ctx.sectionsOffset j).Inplace ctx.sectionAlignment) (fun _ _ => True) s := by
  have hloop := wp_loop (s := s) (inplaceSection f ctx)
    (fun k _ _ => ∀ j, j < k → (sectionAt f ctx.sectionsOffset j).Inplace ctx.sectionAlignment) 0
    ctx.numberOfSections () (fun j hj => absurd hj (not_lt_zero j)) fun k _ s' _ _ h => by
      refine wp_post (inplaceSection_spec k) (fun _ _ hk j hj => ?_)
      rcases Nat.lt_succ_iff_lt_or_eq.mp hj with hj | rfl
      · exact h j hj
      · exact hk
  rw [zero_add] at hloop
  rw [peCoffLoadImageInplaceNoBase, wp_bind]
  exact wp_post hloop (fun _ _ h => ⟨rfl, h⟩)

lemma Accepted.alignedSize (h : Accepted pcd f ctx) {j : Nat} (hj : j < ctx.numberOfSections) :
    alignValue (sectionAt f ctx.sectionsOffset j).virtualSize ctx.sectionAlignment =
      roundUp (sectionAt f ctx.sectionsOffset j).virtualSize ctx.sectionAlignment := by
  have hend : sectionEnd f ctx j < 2^32 := lt_of_le_of_lt (h.sectionEnd_le_size hj) h.size_lt
  exact alignValue_eq h.pow2 h.align_lt (f.u32_lt _) (lt_of_le_of_lt (le_add_left _ _) hend)

lemma Accepted.inplace_dataSize (h : Accepted pcd f ctx) {j : Nat} (hj : j < ctx.numberOfSections)
    (hin : (sectionAt f ctx.sectionsOffset j).Inplace ctx.sectionAlignment) :
    (sectionAt f ctx.sectionsOffset j).dataSize = (sectionAt f ctx.sectionsOffset j).virtualSize := by
  unfold SectionHeader.dataSize
  rw [hin.2, h.alignedSize hj]
  exact min_eq_right (le_roundUp _ (isPow2_pos h.pow2))

lemma sameSections_of_inplace (h : Accepted pcd f ctx)
    (hin : ∀ j, j < ctx.numberOfSections → (sectionAt f ctx.sectionsOffset j).Inplace ctx.sectionAlignment)
    {size : Nat} {m : Mem} (href : ReferenceImage pcd f ctx size m) : SameSections f ctx f.bytes m := by
  intro j hj i hlow hhigh
  have hholds : (sectionAt f ctx.sectionsOffset j).Holds i :=
    ⟨hlow, by rw [h.inplace_dataSize hj (hin j hj)]; exact hhigh⟩
  rw [href.sections j hj i hholds, (hin j hj).1, Nat.add_sub_cancel' hlow]

lemma Accepted.sizeOfImage_eq (h : Accepted pcd f ctx) : ctx.sizeOfImage = (lastSection f ctx).virtualAddress +
      roundUp (lastSection f ctx).virtualSize ctx.sectionAlignment := by
  have hpos := h.pos
  rw [h.size_eq]
  exact roundUp_add _ (isPow2_pos h.pow2) (h.aligned (ctx.numberOfSections - 1) (by omega))

/-- the image is in the file if the last section has data or starts in the file -/
lemma Accepted.sizeOfImage_le_iff (h : Accepted pcd f ctx)
    (hin : ∀ j, j < ctx.numberOfSections → (sectionAt f ctx.sectionsOffset j).Inplace ctx.sectionAlignment) :
    ctx.sizeOfImage ≤ f.size ↔ (lastSection f ctx).virtualSize ≠ 0 ∨ (lastSection f ctx).virtualAddress ≤ f.size := by
  have hpos := h.pos
  have halign := isPow2_pos h.pow2
  have hlast : ctx.numberOfSections - 1 < ctx.numberOfSections := by omega
  obtain ⟨hpointer, hraw⟩ := hin _ hlast
  rw [h.alignedSize hlast] at hraw
  have hbound := h.raw _ hlast
  rw [hpointer, hraw] at hbound
  have hle := le_roundUp (lastSection f ctx).virtualSize halign
  rw [h.sizeOfImage_eq]
  constructor
  · exact fun hsize => .inr ((le_add_right _ _).trans hsize)
  · rintro (hne | hstart)
    · exact hbound (lt_of_lt_of_le (pos_of_ne_zero hne) hle)
    · by_cases hzero : (lastSection f ctx).virtualSize = 0
      · rw [hzero, roundUp_eq_self halign (dvd_zero _)]
        exact hstart
      · exact hbound (lt_of_lt_of_le (pos_of_ne_zero hzero) hle)

/-- **an accepted image that is used in its place** has the sections that loading gives, whatever was in the
destination; it is inside the file if and only if its last section has data or starts in the file -/
theorem peCoffLoadImageInplaceNoBase_iff {arch : Arch} {origin : ImageOrigin} {log : List Span}
    (hrun : peCoffInitializeContext pcd arch origin f [] = (.ok ctx, log)) {s' : LoadState}
    (hin : peCoffLoadImageInplaceNoBase f ctx s = (.ok (), s')) (m : Mem) {size : Nat}
    (hsize : ctx.sizeOfImage ≤ size) (hlt : size < 2^32) : (ctx.sizeOfImage ≤ f.size ∧
        SameSections f ctx s'.image (peCoffLoadImage pcd f ctx size (.start m)).2.image ↔
      (lastSection f ctx).virtualSize ≠ 0 ∨ (lastSection f ctx).virtualAddress ≤ f.size) ∧
    SameSections f ctx s'.image (peCoffLoadImage pcd f ctx size (.start m)).2.image := by
  obtain ⟨-, ha⟩ := accepted_of_run hrun
  obtain ⟨hbytes, hsections⟩ := wp_ok peCoffLoadImageInplaceNoBase_spec hin
  have hsame : SameSections f ctx s'.image (peCoffLoadImage pcd f ctx size (.start m)).2.image := by
    rw [hbytes]
    exact sameSections_of_inplace ha hsections (peCoffLoadImage_reference hrun m hsize hlt).2.1
  refine ⟨?_, hsame⟩
  rw [← ha.sizeOfImage_le_iff hsections]
  exact ⟨fun h => h.1, fun h => ⟨h, hsame⟩⟩

end

/-- a file of one section, with `virtualSize` bytes at `0x1000` in memory and in the file -/
def inplaceImage (virtualSize size : Nat) (hsize : size < 2^32) : File where
  bytes := ofFields [(0, 4, 0x4550), (4, 2, 0x14c), (6, 2, 1), (20, 2, 144), (24, 2, 0x10b), (56, 4, 0x1000),
    (84, 4, 208), (92, 2, 10), (116, 4, 6), (176, 4, virtualSize), (180, 4, 0x1000), (184, 4, virtualSize),
    (188, 4, 0x1000), (204, 4, 0x60000020)]
  size := size
  size_lt := hsize

def inplaceContext (size sizeOfImage : Nat) : PeContext :=
  { gapContext with
    fileSize := size
    sizeOfImage := sizeOfImage
    addressOfEntryPoint := 0
    relocDirRva := 0
    relocDirSize := 0 }

theorem inplaceImage_inside :
    ∃ s, peCoffLoadImageInplaceNoBase (inplaceImage 0x1000 0x2000 (by decide)) (inplaceContext 0x2000 0x2000)
        (.start fun _ => 0) = (.ok (), s) ∧
      (inplaceContext 0x2000 0x2000).sizeOfImage ≤ (inplaceImage 0x1000 0x2000 (by decide)).size ∧
      SameSections (inplaceImage 0x1000 0x2000 (by decide)) (inplaceContext 0x2000 0x2000) s.image
        (peCoffLoadImage .default (inplaceImage 0x1000 0x2000 (by decide)) (inplaceContext 0x2000 0x2000) 0x3000
          (.start fun _ => 0xAF)).2.image := by
  have hrun : (peCoffInitializeContext .default .x64 .userImage (inplaceImage 0x1000 0x2000 (by decide)) []).1 =
    .ok (inplaceContext 0x2000 0x2000) := by decide +kernel
  have hin : (peCoffLoadImageInplaceNoBase (inplaceImage 0x1000 0x2000 (by decide)) (inplaceContext 0x2000 0x2000)
    (.start fun _ => 0)).1 = .ok () := by decide +kernel
  refine ⟨_, Prod.ext hin rfl, ?_⟩
  refine (peCoffLoadImageInplaceNoBase_iff (Prod.ext hrun rfl) (Prod.ext hin rfl) (fun _ => 0xAF) (by decide)
    (by norm_num)).1.mpr (.inl ?_)
  decide +kernel

/-- without data the check succeeds, and the image of a page is longer than its file of 208 bytes -/
theorem inplaceImage_outside :
    (peCoffInitializeContext .default .x64 .userImage (inplaceImage 0 208 (by decide)) []).1 =
      .ok (inplaceContext 208 0x1000) ∧
    (peCoffLoadImageInplaceNoBase (inplaceImage 0 208 (by decide)) (inplaceContext 208 0x1000)
      (.start fun _ => 0)).1 = .ok () ∧
    ¬ (inplaceContext 208 0x1000).sizeOfImage ≤ (inplaceImage 0 208 (by decide)).size := by
  refine ⟨by decide +kernel, by decide +kernel, ?_⟩
  decide +kernel

end Audk.PeCoff
