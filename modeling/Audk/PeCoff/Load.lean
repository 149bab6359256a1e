import Audk.PeCoff.InitContract

/-!
# `PeCoffLoad.c`: loading an accepted image

The destination is a memory; the state also keeps every span that is read from the file or written
to the destination, and whether a length came out of a subtraction that went below zero.

* `ReferenceImage`: what the destination has to hold;
* `peCoffLoadImage_reference`: it does, for every previous content.
-/

namespace Audk.PeCoff

open Bytes Prog Arith List Nat

structure LoadState where
  image : Mem
  reads : List Span
  writes : List Span
  wrapped : Bool

abbrev Loader (α : Type) := Prog LoadState Status α

def LoadState.start (m : Mem) : LoadState := ⟨m, [], [], false⟩

/-! ## the code -/

def load32 (f : File) (off : Nat) : Loader Nat := fun s => (.ok (f.u32 off), { s with reads := ⟨off, 4⟩ :: s.reads })

def lengthOf (lo hi : Nat) : Loader Nat :=
  fun s => (.ok (sub32 hi lo), { s with wrapped := s.wrapped || decide (hi < lo) })

def zeroMem (dst len : Nat) : Loader Unit :=
  modify fun s => { s with image := zero s.image dst len, writes := ⟨dst, len⟩ :: s.writes }

def copyMem (dst : Nat) (f : File) (off len : Nat) : Loader Unit :=
  modify fun s => { s with
    image := copy s.image dst f.bytes off len
    reads := ⟨off, len⟩ :: s.reads
    writes := ⟨dst, len⟩ :: s.writes }

/-- one section: clear up to it, copy its data; returns `PreviousTopRva` -/
def internalLoadSection (f : File) (sectionsOffset i previousTopRva : Nat) : Loader Nat := do
  let hdr := sectionsOffset + sizeofSectionHeader * i
  let va ← load32 f (hdr + 12)
  let gap ← lengthOf previousTopRva va
  zeroMem previousTopRva gap
  let sizeOfRawData ← load32 f (hdr + 16)
  let virtualSize ← load32 f (hdr + 8)
  let dataSize := if sizeOfRawData ≤ virtualSize then sizeOfRawData else virtualSize
  let pointerToRawData ← load32 f (hdr + 20)
  copyMem va f pointerToRawData dataSize
  pure (add32 va dataSize)

def internalLoadSections (f : File) (ctx : PeContext) (loadedHeaderSize destinationSize : Nat) : Loader Unit := do
  let top ← loop (internalLoadSection f ctx.sectionsOffset) 0 ctx.numberOfSections loadedHeaderSize
  let trailer ← lengthOf top destinationSize
  zeroMem top trailer

/-- the headers go first, if the policy asks for them and no section starts the image -/
def loadHeaders (pcd : Pcd) (f : File) (ctx : PeContext) : Loader Nat := do
  let va ← load32 f (ctx.sectionsOffset + 12)
  if pcd.imageLoaderLoadHeader = true ∧ va ≠ 0 then do
    copyMem 0 f 0 ctx.sizeOfHeaders
    pure ctx.sizeOfHeaders
  else pure 0

def peCoffLoadImage (pcd : Pcd) (f : File) (ctx : PeContext) (destinationSize : Nat) : Loader Unit := do
  let loadedHeaderSize ← loadHeaders pcd f ctx
  internalLoadSections f ctx loadedHeaderSize destinationSize

/-! ## what has to be loaded -/

def SectionHeader.dataSize (s : SectionHeader) : Nat := min s.sizeOfRawData s.virtualSize

def SectionHeader.Holds (s : SectionHeader) (i : Nat) : Prop :=
  s.virtualAddress ≤ i ∧ i < s.virtualAddress + s.dataSize

def loadedHeaderSize (pcd : Pcd) (f : File) (ctx : PeContext) : Nat :=
  if pcd.imageLoaderLoadHeader = true ∧ (sectionAt f ctx.sectionsOffset 0).virtualAddress ≠ 0 then
    ctx.sizeOfHeaders
  else 0

/-- the memory `m` is the image of the file, in a destination of `size` bytes -/
structure ReferenceImage (pcd : Pcd) (f : File) (ctx : PeContext) (size : Nat) (m : Mem) : Prop where
  sections : ∀ j, j < ctx.numberOfSections → ∀ i, (sectionAt f ctx.sectionsOffset j).Holds i →
    m i = f.bytes ((sectionAt f ctx.sectionsOffset j).pointerToRawData +
      (i - (sectionAt f ctx.sectionsOffset j).virtualAddress))
  headers : ∀ i, i < loadedHeaderSize pcd f ctx → m i = f.bytes i
  zeros : ∀ i, i < size → loadedHeaderSize pcd f ctx ≤ i →
    (∀ j, j < ctx.numberOfSections → ¬ (sectionAt f ctx.sectionsOffset j).Holds i) → m i = 0

/-- all accesses so far are in bounds and no length was negative -/
structure InBounds (f : File) (size : Nat) (s : LoadState) : Prop where
  reads : ∀ r, r ∈ s.reads → r.Within 0 f.size
  writes : ∀ w, w ∈ s.writes → w.Within 0 size
  wrapped : s.wrapped = false

section
variable {f : File} {size : Nat} {s : LoadState}

section
variable (h : InBounds f size s)
include h

lemma InBounds.load (off : Nat) (hoff : off + 4 ≤ f.size) :
    InBounds f size { s with reads := ⟨off, 4⟩ :: s.reads } where
  reads := by
    intro r hr
    rcases mem_cons.mp hr with rfl | hr
    · exact Span.within_of_le (zero_le _) hoff
    · exact h.reads r hr
  writes := h.writes
  wrapped := h.wrapped

lemma InBounds.length {lo hi : Nat} (hle : lo ≤ hi) :
    InBounds f size { s with wrapped := s.wrapped || decide (hi < lo) } where
  reads := h.reads
  writes := h.writes
  wrapped := by
    show (s.wrapped || decide (hi < lo)) = false
    rw [h.wrapped, decide_eq_false (not_lt.mpr hle)]
    rfl

lemma InBounds.zero (dst len : Nat) (hle : dst + len ≤ size) : InBounds f size { s with
      image := Bytes.zero s.image dst len, writes := ⟨dst, len⟩ :: s.writes } where
  reads := h.reads
  writes := by
    intro w hw
    rcases mem_cons.mp hw with rfl | hw
    · exact Span.within_of_le (zero_le _) hle
    · exact h.writes w hw
  wrapped := h.wrapped

lemma InBounds.copy (dst off len : Nat) (hle : dst + len ≤ size)
    (hoff : 0 < len → off + len ≤ f.size) : InBounds f size { s with
      image := Bytes.copy s.image dst f.bytes off len
      reads := ⟨off, len⟩ :: s.reads
      writes := ⟨dst, len⟩ :: s.writes } where
  reads := by
    intro r hr
    rcases mem_cons.mp hr with rfl | hr
    · exact fun hpos => ⟨zero_le _, hoff hpos⟩
    · exact h.reads r hr
  writes := by
    intro w hw
    rcases mem_cons.mp hw with rfl | hw
    · exact Span.within_of_le (zero_le _) hle
    · exact h.writes w hw
  wrapped := h.wrapped

end

/-! ## the loop -/

/-- the first `k` sections are loaded and everything below `prev` is final -/
structure Loaded (f : File) (ctx : PeContext) (size hdr k prev : Nat) (s : LoadState) : Prop
    extends InBounds f size s where
  prev_le : prev ≤ size
  hdr_le : hdr ≤ prev
  next : ∀ j, k ≤ j → j < ctx.numberOfSections → prev ≤ (sectionAt f ctx.sectionsOffset j).virtualAddress
  data_le : ∀ j, j < k → (sectionAt f ctx.sectionsOffset j).virtualAddress +
    (sectionAt f ctx.sectionsOffset j).dataSize ≤ prev
  sections : ∀ j, j < k → ∀ i, (sectionAt f ctx.sectionsOffset j).Holds i →
    s.image i = f.bytes ((sectionAt f ctx.sectionsOffset j).pointerToRawData +
      (i - (sectionAt f ctx.sectionsOffset j).virtualAddress))
  headers : ∀ i, i < hdr → s.image i = f.bytes i
  zeros : ∀ i, i < prev → hdr ≤ i → (∀ j, j < k → ¬ (sectionAt f ctx.sectionsOffset j).Holds i) → s.image i = 0

variable {pcd : Pcd} {ctx : PeContext} {hdr k prev : Nat}

lemma dataSize_eq (x : SectionHeader) :
    (if x.sizeOfRawData ≤ x.virtualSize then x.sizeOfRawData else x.virtualSize) = x.dataSize := by
  rw [SectionHeader.dataSize, min_def]

lemma Accepted.data_spec (h : Accepted pcd f ctx) {j : Nat} (hj : j < ctx.numberOfSections) :
    (sectionAt f ctx.sectionsOffset j).virtualAddress +
        (sectionAt f ctx.sectionsOffset j).dataSize ≤ (sectionAt f ctx.sectionsOffset j).top ∧
      (0 < (sectionAt f ctx.sectionsOffset j).dataSize → (sectionAt f ctx.sectionsOffset j).pointerToRawData +
          (sectionAt f ctx.sectionsOffset j).dataSize ≤ f.size) := by
  have hraw := h.raw j hj
  have hmin : (sectionAt f ctx.sectionsOffset j).dataSize =
    min (sectionAt f ctx.sectionsOffset j).sizeOfRawData (sectionAt f ctx.sectionsOffset j).virtualSize := rfl
  have htop : (sectionAt f ctx.sectionsOffset j).top =
    (sectionAt f ctx.sectionsOffset j).virtualAddress + (sectionAt f ctx.sectionsOffset j).virtualSize := rfl
  constructor
  · omega
  · intro hpos
    omega

lemma Loaded.step (h : Loaded f ctx size hdr k prev s) (ha : Accepted pcd f ctx)
    (hk : k < ctx.numberOfSections) (hsize : ctx.sizeOfImage ≤ size) {s' : LoadState} (hb : InBounds f size s')
    (hm : s'.image = copy (zero s.image prev ((sectionAt f ctx.sectionsOffset k).virtualAddress - prev))
      (sectionAt f ctx.sectionsOffset k).virtualAddress f.bytes (sectionAt f ctx.sectionsOffset k).pointerToRawData
      (sectionAt f ctx.sectionsOffset k).dataSize) :
    Loaded f ctx size hdr (k+1) ((sectionAt f ctx.sectionsOffset k).virtualAddress +
      (sectionAt f ctx.sectionsOffset k).dataSize) s' := by
  have hva : prev ≤ (sectionAt f ctx.sectionsOffset k).virtualAddress := h.next k le_rfl hk
  have htop := ha.top_le k hk
  have hdata := (ha.data_spec hk).1
  -- below the section's start the image changes only by zeros at or behind `prev`
  have hlow : ∀ i, i < prev → s'.image i = s.image i := by
    intro i hi
    rw [hm]
    show (if _ then _ else if _ then _ else _) = _
    rw [if_neg (by omega), if_neg (by omega)]
  exact { hb with
    prev_le := hdata.trans (htop.trans hsize)
    hdr_le := h.hdr_le.trans (hva.trans (le_add_right _ _))
    next := fun j hkj hj => hdata.trans (ha.sorted k j hkj hj)
    data_le := by
      intro j hj
      rcases Nat.lt_succ_iff_lt_or_eq.mp hj with hj | rfl
      · exact (h.data_le j hj).trans (hva.trans (le_add_right _ _))
      · exact le_rfl
    sections := by
      intro j hj i hi
      rcases Nat.lt_succ_iff_lt_or_eq.mp hj with hj | rfl
      · have hlt : i < prev := lt_of_lt_of_le hi.2 (h.data_le j hj)
        rw [hlow i hlt]
        exact h.sections j hj i hi
      · rw [hm]
        exact if_pos hi
    headers := by
      intro i hi
      rw [hlow i (lt_of_lt_of_le hi h.hdr_le)]
      exact h.headers i hi
    zeros := by
      intro i hi hih hnone
      have hnk := hnone k (lt_succ_self k)
      by_cases hp : i < prev
      · rw [hlow i hp]
        exact h.zeros i hp hih (fun j hj => hnone j (lt_succ_of_lt hj))
      have hiva : i < (sectionAt f ctx.sectionsOffset k).virtualAddress := by
        by_contra hc
        exact hnk ⟨not_lt.mp hc, hi⟩
      rw [hm]
      show (if _ then _ else if _ then _ else _) = _
      rw [if_neg (by omega), if_pos (by omega)] }

lemma internalLoadSection_spec (h : Loaded f ctx size hdr k prev s) (ha : Accepted pcd f ctx)
    (hk : k < ctx.numberOfSections) (hsize : ctx.sizeOfImage ≤ size) :
    wp (internalLoadSection f ctx.sectionsOffset k prev)
      (fun prev' s' => Loaded f ctx size hdr (k+1) prev' s') (fun _ _ => False) s := by
  have hhdr : ctx.sectionsOffset + sizeofSectionHeader * k + 40 ≤ f.size := by
    have h1 := ha.headers
    have h2 := ha.headers_le
    show ctx.sectionsOffset + 40 * k + 40 ≤ f.size
    omega
  have hva : prev ≤ (sectionAt f ctx.sectionsOffset k).virtualAddress := h.next k le_rfl hk
  have htop := ha.top_le k hk
  have hlt := ha.size_lt
  obtain ⟨hdata, hraw⟩ := ha.data_spec hk
  have hsub : sub32 (sectionAt f ctx.sectionsOffset k).virtualAddress prev =
      (sectionAt f ctx.sectionsOffset k).virtualAddress - prev :=
    sub32_eq hva (f.u32_lt _)
  have hadd : add32 (sectionAt f ctx.sectionsOffset k).virtualAddress
      (sectionAt f ctx.sectionsOffset k).dataSize = _ := add32_eq (by omega)
  have h₁ := h.toInBounds.load (ctx.sectionsOffset + sizeofSectionHeader * k + 12) (by omega)
  have h₂ := (h₁.length hva).zero prev (sub32 (sectionAt f ctx.sectionsOffset k).virtualAddress prev) (by omega)
  have h3 := h₂.load (ctx.sectionsOffset + sizeofSectionHeader * k + 16) (by omega)
  have h4 := h3.load (ctx.sectionsOffset + sizeofSectionHeader * k + 8) (by omega)
  have h5 := h4.load (ctx.sectionsOffset + sizeofSectionHeader * k + 20) (by omega)
  have h6 := h5.copy (sectionAt f ctx.sectionsOffset k).virtualAddress
    (sectionAt f ctx.sectionsOffset k).pointerToRawData
    (sectionAt f ctx.sectionsOffset k).dataSize (by omega) hraw
  have hstep := h.step ha hk hsize h6 (by rw [← hsub])
  rw [← hadd] at hstep
  exact hstep

/-! ## the whole image -/

lemma loadHeaders_spec (ha : Accepted pcd f ctx) (hsize : ctx.sizeOfImage ≤ size) (hb : InBounds f size s) :
    wp (loadHeaders pcd f ctx) (fun hdr s' => hdr = loadedHeaderSize pcd f ctx ∧ Loaded f ctx size hdr 0 hdr s')
      (fun _ _ => False) s := by
  have h1 := ha.headers
  have h2 := ha.headers_le
  have hpos := ha.pos
  have h₁ := hb.load (ctx.sectionsOffset + 12) (by omega)
  have hnone : ∀ j, ¬ j < 0 := not_lt_zero
  show wp (if pcd.imageLoaderLoadHeader = true ∧
    (sectionAt f ctx.sectionsOffset 0).virtualAddress ≠ 0 then _ else _) _ _ _
  rw [wp_ite]
  refine ⟨fun hc => ?_, fun hc => ?_⟩
  · -- the first section is behind the headers
    have hfirst := ha.first.resolve_left hc.2
    have htop := ha.top_le 0 hpos
    have hle : ctx.sizeOfHeaders ≤ size := hfirst.trans ((le_add_right _ _).trans (htop.trans hsize))
    have h₂ := h₁.copy 0 0 ctx.sizeOfHeaders (by omega) (fun _ => by omega)
    refine ⟨(if_pos hc).symm, { h₂ with
      prev_le := hle
      hdr_le := le_rfl
      next := ?_
      data_le := fun j hj => absurd hj (hnone j)
      sections := fun j hj => absurd hj (hnone j)
      headers := ?_
      zeros := fun i hi hle => absurd hi (not_lt.mpr hle) }⟩
    · intro j _ hj
      rcases Nat.eq_zero_or_pos j with rfl | hj0
      · exact hfirst
      · exact hfirst.trans ((le_add_right _ _).trans (ha.sorted 0 j hj0 hj))
    · intro i hi
      show (if 0 ≤ i ∧ i < 0 + ctx.sizeOfHeaders then f.bytes (0 + (i - 0)) else _) = _
      rw [if_pos (by omega), Nat.zero_add, Nat.sub_zero]
  · exact ⟨(if_neg hc).symm, { h₁ with
      prev_le := zero_le _
      hdr_le := le_rfl
      next := fun j _ _ => zero_le _
      data_le := fun j hj => absurd hj (hnone j)
      sections := fun j hj => absurd hj (hnone j)
      headers := fun i hi => absurd hi (hnone i)
      zeros := fun i hi => absurd hi (hnone i) }⟩

lemma internalLoadSections_spec (h : Loaded f ctx size hdr 0 hdr s) (ha : Accepted pcd f ctx)
    (hhdr : hdr = loadedHeaderSize pcd f ctx) (hsize : ctx.sizeOfImage ≤ size) (hlt : size < 2^32) :
    wp (internalLoadSections f ctx hdr size) (fun _ s' => InBounds f size s' ∧ ReferenceImage pcd f ctx size s'.image)
      (fun _ _ => False) s := by
  have hloop := wp_loop (internalLoadSection f ctx.sectionsOffset)
    (fun k prev s' => Loaded f ctx size hdr k prev s') 0 ctx.numberOfSections hdr h
    (fun k prev s' _ hk hl => internalLoadSection_spec hl ha (by omega) hsize)
  rw [zero_add] at hloop
  apply wp_seq hloop _
  intro prev t ht
  have hsub : sub32 size prev = size - prev := sub32_eq ht.prev_le hlt
  have hb := (ht.toInBounds.length ht.prev_le).zero prev (sub32 size prev) (by have := ht.prev_le; omega)
  have hlow : ∀ i, i < prev → zero t.image prev (sub32 size prev) i = t.image i := by
    intro i hi
    exact if_neg (by omega)
  refine ⟨hb, ?_, ?_, ?_⟩
  · intro j hj i hi
    exact (hlow i (lt_of_lt_of_le hi.2 (ht.data_le j hj))).trans (ht.sections j hj i hi)
  · intro i hi
    rw [← hhdr] at hi
    exact (hlow i (lt_of_lt_of_le hi ht.hdr_le)).trans (ht.headers i hi)
  · intro i hi hih hnone
    rw [← hhdr] at hih
    by_cases hp : i < prev
    · exact (hlow i hp).trans (ht.zeros i hp hih hnone)
    · show (if _ then _ else _) = _
      rw [if_pos (by omega)]

lemma peCoffLoadImage_spec (ha : Accepted pcd f ctx) (hsize : ctx.sizeOfImage ≤ size)
    (hlt : size < 2^32) (m : Mem) : wp (peCoffLoadImage pcd f ctx size)
      (fun _ s' => InBounds f size s' ∧ ReferenceImage pcd f ctx size s'.image)
      (fun _ _ => False) (.start m) := by
  have hb : InBounds f size (.start m) :=
    ⟨fun r hr => absurd hr not_mem_nil, fun w hw => absurd hw not_mem_nil, rfl⟩
  apply wp_seq (loadHeaders_spec ha hsize hb) _
  rintro hdr t ⟨rfl, ht⟩
  exact internalLoadSections_spec ht ha rfl hsize hlt

/-- **loading an accepted image leaves the reference image in the destination**, whatever it held
before, with all accesses in bounds and no negative length -/
theorem peCoffLoadImage_reference {arch : Arch} {origin : ImageOrigin} {log : List Span}
    (hrun : peCoffInitializeContext pcd arch origin f [] = (.ok ctx, log)) (m : Mem)
    (hsize : ctx.sizeOfImage ≤ size) (hlt : size < 2^32) : (peCoffLoadImage pcd f ctx size (.start m)).1 = .ok () ∧
      ReferenceImage pcd f ctx size (peCoffLoadImage pcd f ctx size (.start m)).2.image ∧
      (peCoffLoadImage pcd f ctx size (.start m)).2.wrapped = false ∧
      (∀ r, r ∈ (peCoffLoadImage pcd f ctx size (.start m)).2.reads → r.Within 0 f.size) ∧
      (∀ w, w ∈ (peCoffLoadImage pcd f ctx size (.start m)).2.writes → w.Within 0 size) := by
  obtain ⟨-, ha⟩ := accepted_of_run hrun
  obtain ⟨hok, hb, href⟩ := wp_total (peCoffLoadImage_spec ha hsize hlt m)
  exact ⟨hok, href, hb.wrapped, hb.reads, hb.writes⟩

end

theorem gapImage_loaded :
    gapContext.sizeOfImage ≤ 0x3000 ∧ ReferenceImage .default gapImage gapContext 0x3000
        (peCoffLoadImage .default gapImage gapContext 0x3000 (.start fun _ => 0xAF)).2.image :=
  ⟨by decide, (peCoffLoadImage_reference (Prod.ext gapImage_run rfl) (fun _ => 0xAF) (by decide) (by norm_num)).2.1⟩

end Audk.PeCoff
