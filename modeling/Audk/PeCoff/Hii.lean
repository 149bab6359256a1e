import Audk.PeCoff.Load

/-!
# `PeCoffHii.c`: the HII resource of a loaded image

The state is the list of the spans that are read from the image.  Directory offsets are relative to the start of
the Resource Directory Table.

* `NestedFits`: the directories on the way down lie in the table;
* `peCoffGetHiiDataRva_safe_iff`: the reads stay in the table exactly in that case.
-/

namespace Audk.PeCoff

open Bytes Prog

/-! ## the code -/

def directoryEntryResource : Nat := 2
def sizeofResourceDirectory : Nat := 16
def sizeofResourceDirectoryEntry : Nat := 8
def sizeofResourceDirectoryString : Nat := 2
def sizeofResourceDataEntry : Nat := 16

def readImage (m : Mem) (off n : Nat) : Parser Nat := fun log => (.ok (le m off n), ⟨off, n⟩ :: log)

/-- the Resource Directory Table: `VirtualAddress` and `Size` -/
structure ResDirTable where
  virtualAddress : Nat
  size : Nat

/-- whether the string at `offset` is `HII`; its length was read -/
def isHiiString (m : Mem) (offset length : Nat) : Parser Bool :=
  if length = 3 then do
    let c0 ← readImage m (offset + 2) 2
    if c0 = 0x48 then do
      let c1 ← readImage m (offset + 4) 2
      if c1 = 0x49 then do
        let c2 ← readImage m (offset + 6) 2
        pure (decide (c2 = 0x49))
      else pure false
    else pure false
  else pure false

/-- whether the name of an entry is `HII`; `u1` is the first word of the entry -/
def isHiiName (m : Mem) (t : ResDirTable) (u1 : Nat) : Parser Bool := do
  let nameOffset := u1 % 2^31
  let top := baseOverflowAddU32 nameOffset sizeofResourceDirectoryString
  stopIf (top.1 = true ∨ top.2 > t.size) .volumeCorrupted
  stopIf (¬ isAligned (add32 t.virtualAddress nameOffset) 2) .volumeCorrupted
  let length ← readImage m (add32 t.virtualAddress nameOffset) 2
  let top' := baseOverflowAddU32 top.2 (length * 2)
  stopIf (top'.1 = true ∨ top'.2 > t.size) .volumeCorrupted
  isHiiString m (add32 t.virtualAddress nameOffset) length

/-- the body of the loop over the named entries -/
def isHii (m : Mem) (t : ResDirTable) (i : Nat) : Parser Bool := do
  let u1 ← readImage m (t.virtualAddress + sizeofResourceDirectory + sizeofResourceDirectoryEntry * i) 4
  if u1 < 2^31 then pure false else isHiiName m t u1

/-- the loop over `n` named entries from number `i` on: the entry that was found -/
def findHii (body : Nat → Parser Bool) : Nat → Nat → Parser (Option Nat)
  | 0, _ => pure none
  | n+1, i => do
    let found ← body i
    if found = true then pure (some i) else findHii body n (i+1)

/-- one level down; `u2` is the second word of an entry, and so is the result -/
def nextDirectory (m : Mem) (t : ResDirTable) (u2 : Nat) : Parser Nat := do
  stopIf (u2 % 2^31 > t.size - sizeofResourceDirectory + sizeofResourceDirectoryEntry) .volumeCorrupted
  stopIf (¬ isAligned (add32 t.virtualAddress (u2 % 2^31)) 4) .volumeCorrupted
  let ids ← readImage m (add32 t.virtualAddress (u2 % 2^31) + 14) 2
  let named ← readImage m (add32 t.virtualAddress (u2 % 2^31) + 12) 2
  stopIf (ids + named = 0) .volumeCorrupted
  readImage m (add32 t.virtualAddress (u2 % 2^31) + sizeofResourceDirectory + 4) 4

def walkLevels (m : Mem) (t : ResDirTable) : Nat → Nat → Parser Nat
  | 0, u2 => pure u2
  | k+1, u2 => if u2 < 2^31 then pure u2 else do
    let next ← nextDirectory m t u2
    walkLevels m t k next

def hiiData (m : Mem) (t : ResDirTable) (sizeOfImage u2 : Nat) : Parser (Nat × Nat) := do
  stopIf (2^31 ≤ u2) .volumeCorrupted
  stopIf (u2 > t.size - sizeofResourceDataEntry) .volumeCorrupted
  stopIf (¬ isAligned (add32 t.virtualAddress u2) 4) .volumeCorrupted
  let rva ← readImage m (add32 t.virtualAddress u2) 4
  let size ← readImage m (add32 t.virtualAddress u2 + 4) 4
  let hiiRvaEnd := baseOverflowAddU32 rva size
  stopIf (hiiRvaEnd.1 = true ∨ hiiRvaEnd.2 > sizeOfImage) .volumeCorrupted
  pure (rva, size)

def hiiFromTable (m : Mem) (t : ResDirTable) (sizeOfImage : Nat) : Parser (Nat × Nat) := do
  let named ← readImage m (t.virtualAddress + 12) 2
  let ids ← readImage m (t.virtualAddress + 14) 2
  stopIf (sizeofResourceDirectory + sizeofResourceDirectoryEntry * (named + ids) > t.size) .volumeCorrupted
  let found ← findHii (isHii m t) named 0
  match found with
  | none => fail .notFound
  | some i => do
    let u2 ← readImage m (t.virtualAddress + sizeofResourceDirectory + sizeofResourceDirectoryEntry * i + 4) 4
    let u2 ← walkLevels m t 2 u2
    hiiData m t sizeOfImage u2

def resDirTable (f : File) (ctx : PeContext) : ResDirTable where
  virtualAddress := f.u32 (ctx.exeHdrOffset + ctx.imageType.sizeofNtHeaders +
    sizeofDataDirectory * directoryEntryResource)
  size := f.u32 (ctx.exeHdrOffset + ctx.imageType.sizeofNtHeaders + sizeofDataDirectory * directoryEntryResource + 4)

def peCoffGetHiiDataRva (f : File) (ctx : PeContext) (m : Mem) : Parser (Nat × Nat) := do
  let t := resDirTable f ctx
  stopIf (f.u32 (ctx.exeHdrOffset + ctx.imageType.numberOfRvaAndSizes) ≤ directoryEntryResource) .notFound
  stopIf (t.size < sizeofResourceDirectory + sizeofResourceDirectoryEntry) .notFound
  stopIf (¬ isAligned t.virtualAddress 4) .volumeCorrupted
  let top := baseOverflowAddU32 t.virtualAddress t.size
  stopIf (top.1 = true ∨ top.2 > ctx.sizeOfImage) .volumeCorrupted
  hiiFromTable m t ctx.sizeOfImage

/-! ## what the walk depends on -/

def Inside (t : ResDirTable) (log : List Span) : Prop :=
  ∀ s ∈ log, s.Within t.virtualAddress (t.virtualAddress + t.size)

def nameWord (m : Mem) (t : ResDirTable) (i : Nat) : Nat :=
  le m (t.virtualAddress + sizeofResourceDirectory + sizeofResourceDirectoryEntry * i) 4

def nameAddress (m : Mem) (t : ResDirTable) (i : Nat) : Nat := t.virtualAddress + nameWord m t i % 2^31
def nameLength (m : Mem) (t : ResDirTable) (i : Nat) : Nat := le m (nameAddress m t i) 2

/-- the name of the entry is no string or lies in the table -/
def NameOk (m : Mem) (t : ResDirTable) (i : Nat) : Prop :=
  2^31 ≤ nameWord m t i →
    nameWord m t i % 2^31 + 2 ≤ t.size ∧ isAligned (nameAddress m t i) 2 ∧
      nameWord m t i % 2^31 + 2 + nameLength m t i * 2 ≤ t.size

/-- the name of the entry is the string `HII` -/
def NamedHii (m : Mem) (t : ResDirTable) (i : Nat) : Prop :=
  2^31 ≤ nameWord m t i ∧ nameLength m t i = 3 ∧ le m (nameAddress m t i + 2) 2 = 0x48 ∧
    le m (nameAddress m t i + 4) 2 = 0x49 ∧ le m (nameAddress m t i + 6) 2 = 0x49

/-- the loop over the named entries ends with the entry `i` -/
structure Finds (m : Mem) (t : ResDirTable) (named i : Nat) : Prop where
  lt : i < named
  hii : NamedHii m t i
  ok : ∀ j, j ≤ i → NameOk m t j
  first : ∀ j, j < i → ¬ NamedHii m t j

/-- the directories on the way down, at most `k` levels, lie in the table as far as they are read -/
def NestedFits (m : Mem) (t : ResDirTable) : Nat → Nat → Prop
  | 0, _ => True
  | k+1, u2 =>
    2^31 ≤ u2 → u2 % 2^31 ≤ t.size - sizeofResourceDirectory + sizeofResourceDirectoryEntry →
      isAligned (t.virtualAddress + u2 % 2^31) 4 →
      u2 % 2^31 + sizeofResourceDirectory ≤ t.size ∧
        (le m (t.virtualAddress + u2 % 2^31 + 14) 2 + le m (t.virtualAddress + u2 % 2^31 + 12) 2 ≠ 0 →
          u2 % 2^31 + sizeofResourceDirectory + sizeofResourceDirectoryEntry ≤ t.size ∧
            NestedFits m t k (le m (t.virtualAddress + u2 % 2^31 + sizeofResourceDirectory + 4) 4))

section
variable {m : Mem} {t : ResDirTable} {log : List Span} {i : Nat}

variable {off n : Nat} {named : Nat}

lemma wp_readImage {Q : Nat → List Span → Prop} {E : Status → List Span → Prop} :
    wp (readImage m off n) Q E log ↔ Q (le m off n) (⟨off, n⟩ :: log) := Iff.rfl

lemma inside_cons : Inside t (⟨off, n⟩ :: log) ↔
    (Span.mk off n).Within t.virtualAddress (t.virtualAddress + t.size) ∧ Inside t log := List.forall_mem_cons

lemma Inside.read (h : Inside t log) (off n : Nat) (h1 : t.virtualAddress ≤ off)
    (h2 : off + n ≤ t.virtualAddress + t.size) : Inside t (⟨off, n⟩ :: log) :=
  inside_cons.mpr ⟨Span.within_of_le h1 h2, h⟩

lemma add32_table (ht : t.virtualAddress + t.size < 2^32) {o : Nat} (ho : o ≤ t.size) :
    add32 t.virtualAddress o = t.virtualAddress + o := add32_eq (by omega)

/-! ## the named entries -/

lemma isHiiString_spec {offset length : Nat} (h : Inside t log) (h1 : t.virtualAddress ≤ offset)
    (h2 : offset + 2 + length * 2 ≤ t.virtualAddress + t.size) : wp (isHiiString m offset length)
      (fun b l => Inside t l ∧ (b = true ↔ length = 3 ∧ le m (offset + 2) 2 = 0x48 ∧
        le m (offset + 4) 2 = 0x49 ∧ le m (offset + 6) 2 = 0x49))
      (fun _ _ => False) log := by
  unfold isHiiString
  rw [wp_ite]
  refine ⟨fun h3 => ?_, fun h3 => ⟨h, nofun, fun hh => absurd hh.1 h3⟩⟩
  have hr0 := h.read (offset + 2) 2 (by omega) (by omega)
  rw [wp_bind, wp_readImage, wp_ite]
  refine ⟨fun hc0 => ?_, fun hc0 => ⟨hr0, nofun, fun hh => absurd hh.2.1 hc0⟩⟩
  have hr1 := hr0.read (offset + 4) 2 (by omega) (by omega)
  rw [wp_bind, wp_readImage, wp_ite]
  refine ⟨fun hc1 => ?_, fun hc1 => ⟨hr1, nofun, fun hh => absurd hh.2.2.1 hc1⟩⟩
  have hr2 := hr1.read (offset + 6) 2 (by omega) (by omega)
  rw [wp_bind, wp_readImage, wp_pure, decide_eq_true_iff]
  exact ⟨hr2, fun hc2 => ⟨h3, hc0, hc1, hc2⟩, fun hh => hh.2.2.2⟩

lemma exceeds_iff {a b n : Nat} (hn : n < 2^32) :
    (baseOverflowAddU32 a b).1 = true ∨ (baseOverflowAddU32 a b).2 > n ↔ n < a + b := by
  by_cases h : (baseOverflowAddU32 a b).1 = false
  · rw [baseOverflowAddU32_snd h, h]
    simp
  · have h1 := (not_congr baseOverflowAddU32_fst).mp h
    rw [Bool.not_eq_false] at h
    exact ⟨fun _ => by omega, fun _ => .inl h⟩

lemma isHiiName_spec (ht : t.virtualAddress + t.size < 2^32) (h : Inside t log) (hs : 2^31 ≤ nameWord m t i) :
    wp (isHiiName m t (nameWord m t i)) (fun b l => Inside t l ∧ NameOk m t i ∧ (b = true ↔ NamedHii m t i))
      (fun _ l => Inside t l ∧ ¬ NameOk m t i) log := by
  have hsize : t.size < 2^32 := by omega
  unfold isHiiName
  rw [wp_bind, wp_stopIf, exceeds_iff hsize]
  refine ⟨fun hc => ⟨h, fun hok => absurd (hok hs).1 (not_le.mpr hc)⟩, fun hc => ?_⟩
  have ho : nameWord m t i % 2^31 + 2 ≤ t.size := not_lt.mp hc
  have hadd : add32 t.virtualAddress (nameWord m t i % 2^31) = nameAddress m t i := add32_table ht (by omega)
  have htop : (baseOverflowAddU32 (nameWord m t i % 2^31) sizeofResourceDirectoryString).2 =
      nameWord m t i % 2^31 + 2 := baseOverflowAddU32_snd (baseOverflowAddU32_fst.mpr (lt_of_le_of_lt ho hsize))
  rw [hadd, htop, wp_bind, wp_stopIf]
  refine ⟨fun hc => ⟨h, fun hok => absurd (hok hs).2.1 hc⟩, fun hal => ?_⟩
  have hlo : t.virtualAddress ≤ nameAddress m t i := Nat.le_add_right _ _
  have hat : nameAddress m t i = t.virtualAddress + nameWord m t i % 2^31 := rfl
  have h1 : Inside t (⟨nameAddress m t i, 2⟩ :: log) := h.read _ 2 hlo (by omega)
  rw [wp_bind, wp_readImage, wp_bind, wp_stopIf, exceeds_iff hsize]
  refine ⟨fun hc => ⟨h1, fun hok => absurd (hok hs).2.2 (not_le.mpr hc)⟩, fun hc => ?_⟩
  have hlen := not_lt.mp hc
  refine wp_mono (isHiiString_spec h1 hlo (by omega)) (fun b l hb => ?_) (fun _ _ => False.elim)
  exact ⟨hb.1, fun _ => ⟨ho, not_not.mp hal, hlen⟩, hb.2.trans ⟨fun hh => ⟨hs, hh⟩, fun hh => hh.2⟩⟩

lemma isHii_spec (ht : t.virtualAddress + t.size < 2^32) (h : Inside t log)
    (hi : sizeofResourceDirectory + sizeofResourceDirectoryEntry * (i + 1) ≤ t.size) : wp (isHii m t i)
      (fun b l => Inside t l ∧ NameOk m t i ∧ (b = true ↔ NamedHii m t i))
      (fun _ l => Inside t l ∧ ¬ NameOk m t i) log := by
  have h0 : Inside t (⟨t.virtualAddress + sizeofResourceDirectory + sizeofResourceDirectoryEntry * i, 4⟩ :: log) := by
    rw [show sizeofResourceDirectoryEntry = 8 from rfl] at hi ⊢
    exact h.read _ 4 (by omega) (by omega)
  unfold isHii
  rw [wp_bind, wp_readImage, wp_ite]
  refine ⟨fun hn => ?_, fun hn => isHiiName_spec ht h0 (not_lt.mp hn)⟩
  exact ⟨h0, fun hs => absurd hs (not_le.mpr hn), nofun, fun hh => absurd hh.1 (not_le.mpr hn)⟩

/-- what the loop has seen before the entry `i` -/
structure Seen (m : Mem) (t : ResDirTable) (i : Nat) : Prop where
  ok : ∀ j, j < i → NameOk m t j
  other : ∀ j, j < i → ¬ NamedHii m t j

lemma Seen.step (h : Seen m t i) (hok : NameOk m t i) (hi : ¬ NamedHii m t i) : Seen m t (i + 1) where
  ok j hj := (Nat.lt_succ_iff_lt_or_eq.mp hj).elim (h.ok j) (fun e => e ▸ hok)
  other j hj := (Nat.lt_succ_iff_lt_or_eq.mp hj).elim (h.other j) (fun e => e ▸ hi)

lemma Seen.finds (h : Seen m t i) (hok : NameOk m t i) (hi : NamedHii m t i)
    (hlt : i < named) : Finds m t named i where
  lt := hlt
  hii := hi
  ok j hj := (Nat.lt_or_eq_of_le hj).elim (h.ok j) (fun e => e ▸ hok)
  first := h.other

lemma Finds.unique {named j : Nat} (hi : Finds m t named i) (hj : Finds m t named j) : i = j := by
  rcases lt_trichotomy i j with h | h | h
  · exact absurd hi.hii (hj.first i h)
  · exact h
  · exact absurd hj.hii (hi.first j h)

lemma findHii_spec (ht : t.virtualAddress + t.size < 2^32)
    (hn : sizeofResourceDirectory + sizeofResourceDirectoryEntry * named ≤ t.size) :
    ∀ (n i : Nat) (log : List Span), i + n = named → Inside t log → Seen m t i → wp (findHii (isHii m t) n i)
        (fun r l => Inside t l ∧ ∀ j, r = some j ↔ Finds m t named j)
        (fun _ l => Inside t l ∧ ∀ j, ¬ Finds m t named j) log := by
  intro n
  induction n with
  | zero =>
    intro i log hi h hseen
    exact ⟨h, fun j => ⟨nofun, fun hj => absurd hj.hii (hseen.other j (by have := hj.lt; omega))⟩⟩
  | succ n ih =>
    intro i log hi h hseen
    have hfit : sizeofResourceDirectory + sizeofResourceDirectoryEntry * (i + 1) ≤ t.size :=
      le_trans (Nat.add_le_add_left (Nat.mul_le_mul_left _ (by omega)) _) hn
    unfold findHii
    rw [wp_bind]
    refine wp_mono (isHii_spec ht h hfit) (fun b l hb => ?_) (fun _ l hb => ⟨hb.1, fun j hj => ?_⟩)
    · obtain ⟨hl, hok, hb⟩ := hb
      rw [wp_ite]
      refine ⟨fun hfound => ?_, fun hnot => ?_⟩
      · have hfinds := hseen.finds hok (hb.mp hfound) (show i < named by omega)
        exact ⟨hl, fun j => ⟨fun e => Option.some.inj e ▸ hfinds, fun hj => congrArg some (hfinds.unique hj)⟩⟩
      · exact ih (i+1) l (by omega) hl (hseen.step hok (fun hh => hnot (hb.mpr hh)))
    · -- the loop stops at an earlier entry whose name does not lie in the table
      by_cases hij : i ≤ j
      · exact hb.2 (hj.ok i hij)
      · exact hseen.other j (not_le.mp hij) hj.hii

/-! ## the way down -/

lemma within_iff {off n lo hi : Nat} (hn : 0 < n) : (Span.mk off n).Within lo hi ↔ lo ≤ off ∧ off + n ≤ hi := by
  simp [Span.Within, hn]

lemma inside_read (o : Nat) (ho : off = t.virtualAddress + o) (hn : 0 < n) :
    Inside t (⟨off, n⟩ :: log) ↔ o + n ≤ t.size ∧ Inside t log := by
  rw [inside_cons, within_iff hn]
  exact and_congr_left fun _ => ⟨fun h => by omega, fun h => by omega⟩

section
variable (ht : t.virtualAddress + t.size < 2^32)
include ht

section
variable (hsize : sizeofResourceDirectory + sizeofResourceDirectoryEntry ≤ t.size)
include hsize

lemma nextDirectory_spec {k u2 : Nat} (hd : 2^31 ≤ u2) :
    wp (nextDirectory m t u2)
      (fun next l => Inside t l ∧ NestedFits m t k next ↔ Inside t log ∧ NestedFits m t (k+1) u2)
      (fun _ l => Inside t l ↔ Inside t log ∧ NestedFits m t (k+1) u2) log := by
  have h16 : sizeofResourceDirectory = 16 := rfl
  have h8 : sizeofResourceDirectoryEntry = 8 := rfl
  refine wp_stopIf_bind (fun hc => ⟨fun h => ⟨h, fun _ hle => absurd hle (not_le.mpr hc)⟩, And.left⟩) fun hc => ?_
  have hle := not_lt.mp hc
  rw [wp_bind, wp_stopIf, add32_table ht (show u2 % 2^31 ≤ t.size by omega)]
  refine ⟨fun hc => ⟨fun h => ⟨h, fun _ _ hal => absurd hal hc⟩, And.left⟩, fun hc => ?_⟩
  have hal := not_not.mp hc
  -- the counts are read before anything is known about the end of the directory
  have hhead : Inside t (⟨t.virtualAddress + u2 % 2^31 + 12, 2⟩ ::
      ⟨t.virtualAddress + u2 % 2^31 + 14, 2⟩ :: log) ↔
      u2 % 2^31 + sizeofResourceDirectory ≤ t.size ∧ Inside t log := by
    rw [inside_read (u2 % 2^31 + 12) (add_assoc _ _ _) (by norm_num),
      inside_read (u2 % 2^31 + 14) (add_assoc _ _ _) (by norm_num), ← and_assoc]
    exact and_congr_left fun _ => ⟨fun h => by omega, fun h => by omega⟩
  rw [wp_bind, wp_readImage, wp_bind, wp_readImage, wp_bind, wp_stopIf]
  refine ⟨fun hz => ?_, fun hz => ?_⟩
  · rw [hhead]
    exact ⟨fun h => ⟨h.2, fun _ _ _ => ⟨h.1, fun hnz => absurd hz hnz⟩⟩, fun h => ⟨(h.2 hd hle hal).1, h.1⟩⟩
  · have hfits : NestedFits m t (k+1) u2 ↔ u2 % 2^31 + sizeofResourceDirectory ≤ t.size ∧
        u2 % 2^31 + sizeofResourceDirectory + sizeofResourceDirectoryEntry ≤ t.size ∧
          NestedFits m t k (le m (t.virtualAddress + u2 % 2^31 + sizeofResourceDirectory + 4) 4) :=
      ⟨fun h => ⟨(h hd hle hal).1, (h hd hle hal).2 hz⟩, fun h _ _ _ => ⟨h.1, fun _ => h.2⟩⟩
    have hentry : u2 % 2^31 + sizeofResourceDirectory + 4 + 4 =
        u2 % 2^31 + sizeofResourceDirectory + sizeofResourceDirectoryEntry := rfl
    rw [wp_readImage, inside_read (u2 % 2^31 + sizeofResourceDirectory + 4) (by omega) (by norm_num), hentry,
      hhead, hfits]
    tauto

lemma walkLevels_spec : ∀ (k u2 : Nat) (log : List Span),
      wp (walkLevels m t k u2) (fun _ l => Inside t l ↔ Inside t log ∧ NestedFits m t k u2)
        (fun _ l => Inside t l ↔ Inside t log ∧ NestedFits m t k u2) log := by
  intro k
  induction k with
  | zero => intro u2 log; exact ⟨fun h => ⟨h, trivial⟩, And.left⟩
  | succ k ih =>
    intro u2 log
    unfold walkLevels
    rw [wp_ite]
    refine ⟨fun hd => ⟨fun h => ⟨h, fun hd' => absurd hd' (not_le.mpr hd)⟩, And.left⟩, fun hd => ?_⟩
    refine wp_seq (nextDirectory_spec ht hsize (not_lt.mp hd)) (fun next l hl => ?_)
    exact wp_mono (ih next l) (fun _ l' h => h.trans hl) (fun _ l' h => h.trans hl)

end

lemma hiiData_spec (hsize : sizeofResourceDataEntry ≤ t.size)
    {sizeOfImage u2 : Nat} (himg : sizeOfImage < 2^32) : wp (hiiData m t sizeOfImage u2)
      (fun r l => (Inside t l ↔ Inside t log) ∧ r.1 + r.2 ≤ sizeOfImage)
      (fun _ l => Inside t l ↔ Inside t log) log := by
  have h16 : sizeofResourceDataEntry = 16 := rfl
  refine wp_stopIf_bind (fun _ => Iff.rfl) fun hc => ?_
  refine wp_stopIf_bind (fun _ => Iff.rfl) fun hc => ?_
  refine wp_stopIf_bind (fun _ => Iff.rfl) fun _ => ?_
  rw [add32_table ht (show u2 ≤ t.size by omega), wp_bind, wp_readImage, wp_bind, wp_readImage, wp_bind,
    wp_stopIf, exceeds_iff himg]
  have hin : Inside t (⟨t.virtualAddress + u2 + 4, 4⟩ :: ⟨t.virtualAddress + u2, 4⟩ :: log) ↔ Inside t log := by
    rw [inside_read (u2 + 4) (add_assoc _ _ _) (by norm_num), inside_read u2 rfl (by norm_num)]
    exact ⟨fun h => h.2.2, fun h => ⟨by omega, by omega, h⟩⟩
  exact ⟨fun _ => hin, fun hc => ⟨hin, not_lt.mp hc⟩⟩

end

def dataWord (m : Mem) (t : ResDirTable) (i : Nat) : Nat :=
  le m (t.virtualAddress + sizeofResourceDirectory + sizeofResourceDirectoryEntry * i + 4) 4

def numberOfNamedEntries (m : Mem) (t : ResDirTable) : Nat := le m (t.virtualAddress + 12) 2
def numberOfEntries (m : Mem) (t : ResDirTable) : Nat := numberOfNamedEntries m t + le m (t.virtualAddress + 14) 2

/-- the directories behind the entry `HII` lie in the table as far as they are read -/
def HiiFits (m : Mem) (t : ResDirTable) : Prop :=
  sizeofResourceDirectory + sizeofResourceDirectoryEntry * numberOfEntries m t ≤ t.size →
    ∀ i, Finds m t (numberOfNamedEntries m t) i → NestedFits m t 2 (dataWord m t i)

lemma hiiFromTable_spec (ht : t.virtualAddress + t.size < 2^32)
    (hsize : sizeofResourceDirectory + sizeofResourceDirectoryEntry ≤ t.size)
    {sizeOfImage : Nat} (himg : sizeOfImage < 2^32) : wp (hiiFromTable m t sizeOfImage)
      (fun r l => (Inside t l ↔ HiiFits m t) ∧ r.1 + r.2 ≤ sizeOfImage)
      (fun _ l => Inside t l ↔ HiiFits m t) [] := by
  have h16 : sizeofResourceDirectory = 16 := rfl
  have h8 : sizeofResourceDirectoryEntry = 8 := rfl
  have hcounts : Inside t (⟨t.virtualAddress + 14, 2⟩ :: [⟨t.virtualAddress + 12, 2⟩]) := by
    rw [inside_read 14 rfl (by norm_num), inside_read 12 rfl (by norm_num)]
    exact ⟨by omega, by omega, nofun⟩
  unfold hiiFromTable
  rw [wp_bind, wp_readImage, wp_bind, wp_readImage, wp_bind, wp_stopIf]
  refine ⟨fun hc => iff_of_true hcounts (fun hle => absurd hle (not_le.mpr hc)), fun hc => ?_⟩
  have hall := not_lt.mp hc
  have hnamed : sizeofResourceDirectory + sizeofResourceDirectoryEntry * numberOfNamedEntries m t ≤ t.size :=
    le_trans (Nat.add_le_add_left (Nat.mul_le_mul_left _ (Nat.le_add_right _ _)) _) hall
  rw [wp_bind]
  refine wp_mono (findHii_spec ht hnamed _ 0 _ (Nat.zero_add _) hcounts ⟨nofun, nofun⟩)
    (fun r l hr => ?_) (fun _ l hl => iff_of_true hl.1 (fun _ i hi => absurd hi (hl.2 i)))
  obtain ⟨hl, hr⟩ := hr
  rcases r with _ | i
  · exact iff_of_true hl (fun _ i hi => absurd ((hr i).mpr hi) nofun)
  have hi := (hr i).mp rfl
  have hentry : sizeofResourceDirectory + sizeofResourceDirectoryEntry * i + 4 + 4 ≤ t.size := by
    rw [h8] at hnamed ⊢
    have := hi.lt
    omega
  have hread : Inside t
      (⟨t.virtualAddress + sizeofResourceDirectory + sizeofResourceDirectoryEntry * i + 4, 4⟩ :: l) := by
    rw [inside_read (sizeofResourceDirectory + sizeofResourceDirectoryEntry * i + 4)
      (by rw [h8]; omega) (by norm_num)]
    exact ⟨hentry, hl⟩
  have hfits : HiiFits m t ↔ NestedFits m t 2 (dataWord m t i) :=
    ⟨fun h => h hall i hi, fun h _ j hj => hi.unique hj ▸ h⟩
  show wp (readImage m _ 4 >>= _) _ _ l
  rw [wp_bind, wp_readImage, wp_bind]
  refine wp_mono (walkLevels_spec ht hsize 2 _ _) (fun u l' hl' => ?_) (fun _ l' hl' => ?_)
  · have hl' : Inside t l' ↔ HiiFits m t := by
      rw [hl', hfits]
      exact ⟨And.right, fun h => ⟨hread, h⟩⟩
    exact wp_mono (hiiData_spec ht (by have : sizeofResourceDataEntry = 16 := rfl; omega) himg)
      (fun r l'' h => ⟨h.1.trans hl', h.2⟩) (fun _ l'' h => h.trans hl')
  · rw [hl', hfits]
    exact ⟨And.right, fun h => ⟨hread, h⟩⟩

/-! ## the whole function -/

variable {pcd : Pcd} {f : File} {ctx : PeContext}

/-- the checks before the first read of the image -/
structure HiiTableOk (f : File) (ctx : PeContext) : Prop where
  present : directoryEntryResource < f.u32 (ctx.exeHdrOffset + ctx.imageType.numberOfRvaAndSizes)
  size : sizeofResourceDirectory + sizeofResourceDirectoryEntry ≤ (resDirTable f ctx).size
  aligned : isAligned (resDirTable f ctx).virtualAddress 4
  inImage : (resDirTable f ctx).virtualAddress + (resDirTable f ctx).size ≤ ctx.sizeOfImage

structure HiiSafe (f : File) (ctx : PeContext) (r : Except Status (Nat × Nat) × List Span) : Prop where
  inside : Inside (resDirTable f ctx) r.2
  inImage : r.2 ≠ [] → (resDirTable f ctx).virtualAddress + (resDirTable f ctx).size ≤ ctx.sizeOfImage
  result : ∀ hiiRva hiiSize, r.1 = .ok (hiiRva, hiiSize) → hiiRva + hiiSize ≤ ctx.sizeOfImage

lemma HiiSafe.of_stopped {m : Mem} (hno : ¬ HiiTableOk f ctx) (e : Status) :
    HiiSafe f ctx (.error e, []) ↔ (HiiTableOk f ctx → HiiFits m (resDirTable f ctx)) :=
  iff_of_true ⟨nofun, fun hne => absurd rfl hne, nofun⟩ (fun h => absurd h hno)

lemma peCoffGetHiiDataRva_spec {m : Mem} (himg : ctx.sizeOfImage < 2^32) : wp (peCoffGetHiiDataRva f ctx m)
      (fun r l => HiiSafe f ctx (.ok r, l) ↔ (HiiTableOk f ctx → HiiFits m (resDirTable f ctx)))
      (fun e l => HiiSafe f ctx (.error e, l) ↔ (HiiTableOk f ctx → HiiFits m (resDirTable f ctx))) [] := by
  refine wp_stopIf_bind (fun hc => HiiSafe.of_stopped (fun h => absurd h.present (not_lt.mpr hc)) _) fun hpresent => ?_
  refine wp_stopIf_bind (fun hc => HiiSafe.of_stopped (fun h => absurd h.size (not_le.mpr hc)) _) fun hsize => ?_
  refine wp_stopIf_bind (fun hc => HiiSafe.of_stopped (fun h => absurd h.aligned hc) _) fun haligned => ?_
  rw [wp_bind, wp_stopIf, exceeds_iff himg]
  refine ⟨fun hc => HiiSafe.of_stopped (fun h => absurd h.inImage (not_le.mpr hc)) _, fun hin => ?_⟩
  have hok : HiiTableOk f ctx := ⟨not_le.mp hpresent, not_lt.mp hsize, not_not.mp haligned, not_lt.mp hin⟩
  refine wp_mono (hiiFromTable_spec (lt_of_le_of_lt hok.inImage himg) hok.size himg)
    (fun r l h => ?_) (fun e l h => ?_)
  · rw [forall_prop_of_true hok, ← h.1]
    exact ⟨HiiSafe.inside, fun hl => ⟨hl, fun _ => hok.inImage, by rintro a b ⟨⟩; exact h.2⟩⟩
  · rw [forall_prop_of_true hok, ← h]
    exact ⟨HiiSafe.inside, fun hl => ⟨hl, fun _ => hok.inImage, nofun⟩⟩

/-- **the reads of an accepted image stay in the Resource Directory Table, the table in the image and the result
in the image, exactly if the directories behind the entry `HII` lie in the table** -/
theorem peCoffGetHiiDataRva_safe_iff {arch : Arch} {origin : ImageOrigin} {log : List Span}
    (hrun : peCoffInitializeContext pcd arch origin f [] = (.ok ctx, log)) (m : Mem) :
    HiiSafe f ctx (peCoffGetHiiDataRva f ctx m []) ↔ (HiiTableOk f ctx → HiiFits m (resDirTable f ctx)) := by
  obtain ⟨-, h⟩ := accepted_of_run hrun
  have hspec := peCoffGetHiiDataRva_spec (m := m) (f := f) h.size_lt
  rcases hr : peCoffGetHiiDataRva f ctx m [] with ⟨e | r, l⟩
  · have h := wp_error hspec hr
    exact h
  · have h := wp_ok hspec hr
    exact h

end

/-! ## an image with its last directory at the end of the table -/

/-- the file `gapImage` without a relocation directory, with `0x1000` bytes for its section and a Resource
Directory Table of `size` bytes at `va` in the section; its one entry `HII` leads to the directory at `32` -/
def hiiBytes (va size : Nat) : Mem :=
  let table := 208 + (va - 0x1000)
  put (put (put (put (put (put (put (put (put (put gapImage.bytes 164 4 0)
    136 4 va) 140 4 size) 184 4 0x1000) 188 4 208)
    (table + 12) 2 1) (table + 16) 4 0x80000018) (table + 20) 4 0x80000020)
    (table + 24) 4 0x00480003) (table + 28) 4 0x00490049

/-- the table ends with the image, and the directory has only `8` bytes -/
def endImage : File where
  bytes := hiiBytes 0x1FD8 40
  size := 208 + 0x1000
  size_lt := by norm_num

def endContext : PeContext := { gapContext with fileSize := 208 + 0x1000, relocDirSize := 0 }

lemma endImage_run : (peCoffInitializeContext .default .x64 .userImage endImage []).1 = .ok endContext := by
  decide +kernel

def endLoaded : Mem := (peCoffLoadImage .default endImage endContext 0x2000 (.start fun _ => 0)).2.image

/-- the counts of the directory at `32` are read behind the table, and behind the image -/
theorem endImage_reads_behind :
    (∃ log, peCoffInitializeContext .default .x64 .userImage endImage [] = (.ok endContext, log)) ∧
    (peCoffLoadImage .default endImage endContext 0x2000 (.start fun _ => 0)).1 = .ok () ∧
    endContext.sizeOfImage = 0x2000 ∧
    (⟨0x2006, 2⟩ : Span) ∈ (peCoffGetHiiDataRva endImage endContext endLoaded []).2 ∧
    ¬ HiiSafe endImage endContext (peCoffGetHiiDataRva endImage endContext endLoaded []) := by
  have hmem : (⟨0x2006, 2⟩ : Span) ∈ (peCoffGetHiiDataRva endImage endContext endLoaded []).2 := by decide +kernel
  refine ⟨⟨_, Prod.ext endImage_run rfl⟩, rfl, rfl, hmem, fun h => ?_⟩
  have := h.inside _ hmem
  revert this
  decide +kernel

/-- the directory leads to a data entry at `56`, for `16` bytes at `0x1000` -/
def fitImage : File where
  bytes := put (put (put (put (hiiBytes 0x1F00 72) (0xFD0 + 46) 2 1) (0xFD0 + 52) 4 56)
    (0xFD0 + 56) 4 0x1000) (0xFD0 + 60) 4 16
  size := 208 + 0x1000
  size_lt := by norm_num

lemma fitImage_run : (peCoffInitializeContext .default .x64 .userImage fitImage []).1 = .ok endContext := by
  decide +kernel

def fitLoaded : Mem := (peCoffLoadImage .default fitImage endContext 0x2000 (.start fun _ => 0)).2.image

theorem fitImage_safe :
    (peCoffGetHiiDataRva fitImage endContext fitLoaded []).1 = .ok (0x1000, 16) ∧
    HiiSafe fitImage endContext (peCoffGetHiiDataRva fitImage endContext fitLoaded []) := by
  refine ⟨by decide +kernel, ?_⟩
  refine (peCoffGetHiiDataRva_safe_iff (Prod.ext fitImage_run rfl) fitLoaded).mpr (fun _ _ i hi => ?_)
  have hone : numberOfNamedEntries fitLoaded (resDirTable fitImage endContext) = 1 := by decide +kernel
  have hlt := hi.lt
  obtain rfl : i = 0 := by omega
  have hdir : dataWord fitLoaded (resDirTable fitImage endContext) 0 = 0x80000020 := by decide +kernel
  refine fun _ _ _ => ⟨by decide +kernel, fun _ => ⟨by decide +kernel, fun hd => ?_⟩⟩
  exact absurd hd (by decide +kernel)

end Audk.PeCoff
