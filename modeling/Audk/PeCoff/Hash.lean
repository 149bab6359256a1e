import Audk.PeCoff.Accepted

/-!
# `PeCoffHash.c`: the Authenticode hash of an image

`HashUpdate` is a function of the caller: it takes the hash context and the data and says whether it
succeeded.  All data that it is given is kept in the state, with the ranges of the file it comes from.

* `internalHashSections`, `peCoffHashImageAuthenticode`: the functions of the source;
* `peCoffHashImageAuthenticode_spec`: what a successful call has hashed.
-/

namespace Audk.PeCoff

open Bytes Prog List

/-- `PE_COFF_LOADER_HASH_UPDATE` on a hash context of type `η` -/
abbrev HashUpdate (η : Type) := η → List UInt8 → Bool × η

structure HashState (η : Type) where
  context : η
  fed : List UInt8
  ranges : List Span

def HashState.start {η : Type} (c : η) : HashState η := ⟨c, [], []⟩

/-- the functions return `FALSE` on every failure -/
abbrev Hasher (η : Type) (α : Type) := Prog (HashState η) Unit α

section
variable {η : Type}

def hashRange (update : HashUpdate η) (f : File) (off len : Nat) : Hasher η Bool :=
  fun s => (.ok (update s.context (chunk f.bytes off len)).1,
    ⟨(update s.context (chunk f.bytes off len)).2, s.fed ++ chunk f.bytes off len, s.ranges ++ [⟨off, len⟩]⟩)

/-! ## sections -/

/-- the inner loop of the insertion sort; the table is kept with its last element first, as the loop
runs through it -/
def insertSection (s : SectionHeader) : List SectionHeader → List SectionHeader
  | [] => [s]
  | t :: ts =>
    if t.pointerToRawData > s.pointerToRawData then t :: insertSection s ts else s :: t :: ts

def sectionTable (f : File) (ctx : PeContext) : List SectionHeader :=
  (List.range ctx.numberOfSections).map (sectionAt f ctx.sectionsOffset)

def sortedSections (ss : List SectionHeader) : List SectionHeader :=
  (ss.foldl (fun table s => insertSection s table) []).reverse

/-- one section; the pair is `SectionTop` and `CurHashSize` -/
def hashSection (pcd : Pcd) (update : HashUpdate η) (f : File) (s : SectionHeader)
    (sizes : Nat × Nat) : Hasher η (Nat × Nat) := do
  stopIf (pcd.imageLoaderHashProhibitOverlap = true ∧ sizes.1 > s.pointerToRawData) ()
  let sectionTop := if pcd.imageLoaderHashProhibitOverlap = true then
    add32 s.pointerToRawData s.sizeOfRawData else sizes.1
  if s.sizeOfRawData > 0 then do
    let result ← hashRange update f s.pointerToRawData s.sizeOfRawData
    stopIf (result = false) ()
    if pcd.imageLoaderHashProhibitOverlap = true then
      pure (sectionTop, add32 sizes.2 s.sizeOfRawData)
    else do
      let curHashSize := baseOverflowAddU32 sizes.2 s.sizeOfRawData
      stopIf (curHashSize.1 = true) ()
      pure (sectionTop, curHashSize.2)
  else pure (sectionTop, sizes.2)

/-- returns `SumBytesHashed`; `allocated` is whether `AllocatePool` returned a buffer -/
def internalHashSections (pcd : Pcd) (update : HashUpdate η) (f : File) (ctx : PeContext)
    (allocated : Bool) : Hasher η Nat := do
  stopIf (allocated = false) ()
  let sizes ← forEach (hashSection pcd update f) (sortedSections (sectionTable f ctx)) (0, 0)
  pure sizes.2

/-! ## the image -/

/-- the offset of `CheckSum` in both kinds of `EFI_IMAGE_NT_HEADERS` -/
def offsetofCheckSum : Nat := 88

/-- the headers; the checksum and the entry of the security directory are left out -/
def hashHeaders (update : HashUpdate η) (f : File) (ctx : PeContext) (numberOfRvaAndSizes : Nat) : Hasher η Unit := do
  let checksumOffset := ctx.exeHdrOffset + offsetofCheckSum
  let securityDirOffset := ctx.exeHdrOffset + ctx.imageType.sizeofNtHeaders +
    sizeofDataDirectory * directoryEntrySecurity
  let result ← hashRange update f 0 checksumOffset
  stopIf (result = false) ()
  let currentOffset ← (if directoryEntrySecurity < numberOfRvaAndSizes then do
      let result ← hashRange update f (checksumOffset + 4) (sub32 securityDirOffset (checksumOffset + 4))
      stopIf (result = false) ()
      pure (securityDirOffset + sizeofDataDirectory)
    else pure (checksumOffset + 4) : Hasher η Nat)
  let result ← hashRange update f currentOffset (sub32 ctx.sizeOfHeaders currentOffset)
  stopIf (result = false) ()

def peCoffHashImageAuthenticode (pcd : Pcd) (update : HashUpdate η) (f : File) (ctx : PeContext)
    (allocated : Bool) : Hasher η Unit := do
  let numberOfRvaAndSizes := f.u32 (ctx.exeHdrOffset + ctx.imageType.numberOfRvaAndSizes)
  let securityDirSize := if directoryEntrySecurity < numberOfRvaAndSizes then
    f.u32 (ctx.exeHdrOffset + ctx.imageType.sizeofNtHeaders + sizeofDataDirectory * directoryEntrySecurity + 4) else 0
  hashHeaders update f ctx numberOfRvaAndSizes
  let sectionBytes ← internalHashSections pcd update f ctx allocated
  let sumBytesHashed := baseOverflowAddU32 sectionBytes ctx.sizeOfHeaders
  stopIf (sumBytesHashed.1 = true) ()
  let fileSize := sub32 ctx.fileSize securityDirSize
  if sumBytesHashed.2 < fileSize then do
    let result ← hashRange update f sumBytesHashed.2 (fileSize - sumBytesHashed.2)
    stopIf (result = false) ()
  else pure ()

/-! ## what is hashed -/

/-- the headers behind the checksum, without the entry of the security directory -/
def hashedTail (f : File) : List UInt8 :=
  if directoryEntrySecurity < numberOfRvaAndSizes f then
    chunk f.bytes (exeHdrOffset f + offsetofCheckSum + 4)
      (dirEntry f directoryEntrySecurity - (exeHdrOffset f + offsetofCheckSum + 4)) ++
    chunk f.bytes (dirEntry f directoryEntrySecurity + sizeofDataDirectory)
      (sizeOfHeaders f - (dirEntry f directoryEntrySecurity + sizeofDataDirectory))
  else chunk f.bytes (exeHdrOffset f + offsetofCheckSum + 4)
    (sizeOfHeaders f - (exeHdrOffset f + offsetofCheckSum + 4))

def hashedHeaders (f : File) : List UInt8 := chunk f.bytes 0 (exeHdrOffset f + offsetofCheckSum) ++ hashedTail f

def rawData (f : File) (s : SectionHeader) : List UInt8 := chunk f.bytes s.pointerToRawData s.sizeOfRawData

variable {pcd : Pcd} {update : HashUpdate η} {f : File} {ctx : PeContext} {s : HashState η}

lemma mem_insertSection {x s : SectionHeader} {table : List SectionHeader} :
    x ∈ insertSection s table ↔ x = s ∨ x ∈ table := by
  induction table with
  | nil => simp [insertSection]
  | cons t ts ih =>
    unfold insertSection
    split
    · simp only [mem_cons, ih]
      tauto
    · simp

lemma mem_sortedSections {x : SectionHeader} {ss : List SectionHeader} : x ∈ sortedSections ss ↔ x ∈ ss := by
  have key : ∀ table, x ∈ ss.foldl (fun table s => insertSection s table) table ↔ x ∈ table ∨ x ∈ ss := by
    induction ss with
    | nil => simp
    | cons s ss ih =>
      intro table
      simp only [foldl_cons, ih, mem_insertSection, mem_cons]
      tauto
  simp [sortedSections, key]

lemma wp_hashRange {off len : Nat} {Q : Bool → HashState η → Prop} {E : Unit → HashState η → Prop}
    (h : ∀ r c, Q r ⟨c, s.fed ++ chunk f.bytes off len, s.ranges ++ [⟨off, len⟩]⟩) :
    wp (hashRange update f off len) Q E s :=
  h _ _

lemma hashSection_spec (sh : SectionHeader) (sizes : Nat × Nat) :
    wp (hashSection pcd update f sh sizes) (fun _ s' => s'.fed = s.fed ++ rawData f sh) (fun _ _ => True) s := by
  refine wp_stopIf_bind (fun _ => trivial) fun _ => ?_
  rw [wp_ite]
  refine ⟨fun _ => ?_, fun hz => ?_⟩
  · rw [wp_bind]
    apply wp_hashRange
    intro r c
    refine wp_stopIf_bind (fun _ => trivial) fun _ => ?_
    rw [wp_ite]
    refine ⟨fun _ => rfl, fun _ => ?_⟩
    rw [wp_bind, wp_stopIf]
    exact ⟨fun _ => trivial, fun _ => rfl⟩
  · have h0 : sh.sizeOfRawData = 0 := by omega
    rw [wp_pure]
    simp [rawData, h0, chunk]

lemma internalHashSections_spec (allocated : Bool) : wp (internalHashSections pcd update f ctx allocated)
      (fun _ s' => s'.fed = s.fed ++ (sortedSections (sectionTable f ctx)).flatMap (rawData f))
      (fun _ _ => True) s := by
  refine wp_stopIf_bind (fun _ => trivial) fun _ => ?_
  rw [wp_bind]
  have hloop := wp_forEach (hashSection pcd update f)
    (fun ss _ s' => s'.fed = s.fed ++ ss.flatMap (rawData f)) (E := fun _ _ => True) []
    (sortedSections (sectionTable f ctx)) (0, 0) (s := s) (by simp) ?_
  · apply wp_post hloop _
    intro _ _ h
    exact h
  · intro ys x sizes t _ ht
    apply wp_post (hashSection_spec x sizes) _
    intro _ t' ht'
    rw [ht', ht]
    simp

lemma Accepted.header_order (h : Accepted pcd f ctx) :
    exeHdrOffset f + offsetofCheckSum + 32 ≤ exeHdrOffset f + (peType f).sizeofNtHeaders ∧
    exeHdrOffset f + (peType f).sizeofNtHeaders ≤ sectionsOffset f ∧
    sectionsOffset f + 40 * numberOfSections f ≤ sizeOfHeaders f ∧ sizeOfHeaders f ≤ f.size ∧
    (directoryEntrySecurity < numberOfRvaAndSizes f →
      dirEntry f directoryEntrySecurity + sizeofDataDirectory ≤ sectionsOffset f) := by
  have h1 := h.dir_le
  have h2 := h.headers
  have h3 := h.headers_le
  rw [h.offset] at h1 h2
  rw [h.number, h.hdrs] at h2
  rw [h.hdrs] at h3
  have h4 : 120 ≤ (peType f).sizeofNtHeaders := by cases peType f <;> decide
  unfold dirEntry at h1 ⊢
  rw [show sizeofDataDirectory = 8 from rfl] at h1 ⊢
  rw [show directoryEntrySecurity = 4 from rfl, show offsetofCheckSum = 88 from rfl]
  exact ⟨by omega, by omega, h2, h3, fun hn => by omega⟩

lemma hashHeaders_spec (h : Accepted pcd f ctx) : wp (hashHeaders update f ctx (numberOfRvaAndSizes f))
      (fun _ s' => s'.fed = s.fed ++ hashedHeaders f) (fun _ _ => True) s := by
  obtain ⟨h1, h2, h3, h4, h5⟩ := h.header_order
  have hlt := f.size_lt
  have hsec : exeHdrOffset f + (peType f).sizeofNtHeaders + sizeofDataDirectory * directoryEntrySecurity =
    dirEntry f directoryEntrySecurity := rfl
  unfold hashHeaders hashedHeaders hashedTail
  rw [h.exe, h.type, h.hdrs, hsec, wp_bind]
  apply wp_hashRange
  intro r c
  refine wp_stopIf_bind (fun _ => trivial) fun _ => ?_
  rw [wp_bind, wp_ite]
  refine ⟨fun hn => ?_, fun hn => ?_⟩
  · have h6 := h5 hn
    rw [if_pos hn, wp_bind]
    apply wp_hashRange
    intro r' c'
    refine wp_stopIf_bind (fun _ => trivial) fun _ => ?_
    rw [wp_pure, wp_bind]
    apply wp_hashRange
    intro r'' c''
    rw [wp_stopIf]
    refine ⟨fun _ => trivial, fun _ => ?_⟩
    have h7 : exeHdrOffset f + offsetofCheckSum + 4 ≤ dirEntry f directoryEntrySecurity := by
      omega
    rw [sub32_eq h7 (by omega), sub32_eq (by omega) (by omega)]
    simp
  · rw [if_neg hn, wp_pure, wp_bind]
    apply wp_hashRange
    intro r' c'
    rw [wp_stopIf]
    refine ⟨fun _ => trivial, fun _ => ?_⟩
    rw [sub32_eq (by omega) (by omega)]
    simp

/-- a successful call has hashed the headers and all sections, and perhaps more -/
lemma peCoffHashImageAuthenticode_spec (update : HashUpdate η) (s : HashState η)
    (h : Accepted pcd f ctx) (allocated : Bool) : wp (peCoffHashImageAuthenticode pcd update f ctx allocated)
      (fun _ s' => ∃ trailer, s'.fed = s.fed ++ (hashedHeaders f ++
        ((sortedSections (sectionTable f ctx)).flatMap (rawData f) ++ trailer)))
      (fun _ _ => True) s := by
  have hn : f.u32 (ctx.exeHdrOffset + ctx.imageType.numberOfRvaAndSizes) = numberOfRvaAndSizes f := by
    rw [h.exe, h.type]
    rfl
  unfold peCoffHashImageAuthenticode
  rw [hn]
  apply wp_seq (hashHeaders_spec h) _
  intro _ t ht
  apply wp_seq (internalHashSections_spec allocated) _
  intro n t' ht'
  rw [ht] at ht'
  refine wp_stopIf_bind (fun _ => trivial) fun _ => ?_
  rw [wp_ite]
  refine ⟨fun _ => ?_, fun _ => ?_⟩
  · rw [wp_bind]
    apply wp_hashRange
    intro r c
    rw [wp_stopIf, ht', append_assoc, append_assoc]
    exact ⟨fun _ => trivial, fun _ => ⟨_, rfl⟩⟩
  · refine ⟨[], ?_⟩
    rw [append_nil, ht', append_assoc]

end

end Audk.PeCoff
