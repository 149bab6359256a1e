import Audk.Ue.UnchainedTable

/-!
# The fixups of a UE image, and what the first phase does to them

The walk over a relocation table only reads: links of chains are read before they are overwritten,
because targets ascend.  So the fixups of an image do not depend on the address it is relocated to,
and the relocation runs in lockstep with a walk over the unmodified image.

* `ContextRel`: the runtime context describes the same fixups, and their values;
* `relocateRoots_sim`: the relocation and the walk in lockstep.
-/

namespace Audk.Ue

open Bytes Prog Arith List Nat

/-- a fixup with its value in the file; `recorded` if the first phase records the relocated value -/
structure Fixup where
  relocType : Nat
  target : Nat
  width : Nat
  value : Nat
  recorded : Bool
deriving DecidableEq

/-- the value of the fixup in an image that was moved by `adjust` -/
def Fixup.moved (adjust : Nat) (x : Fixup) : Nat := (x.value + adjust) % 256^x.width

def Fixup.spot (x : Fixup) : Nat × Nat := (x.relocType, x.target)

/-! ## the walk -/

/-- a walk collects fixups -/
abbrev Walk (α : Type) := Prog (List Fixup) Status α

def walkChainStep (imageSize : Nat) (image : Mem) (c : ChainState) : Walk ChainState := do
  let rem := baseOverflowSubU32 imageSize c.relocTarget
  stopIf (rem.1 = true) .volumeCorrupted
  stopIf (c.relocType ≠ ueReloc64 ∧ c.relocType ≠ ueReloc32) .unsupported
  stopIf (rem.2 < linkWidth c.relocType) .volumeCorrupted
  match link image c.relocType c.relocTarget with
  | none => fail .unsupported
  | some l =>
    modify fun xs => xs ++ [⟨c.relocType, c.relocTarget, l.width, l.value, true⟩]
    let relocTarget := add32 c.relocTarget l.width
    if l.nextOffset = ueFixupOffsetEnd then return ⟨c.relocType, relocTarget, true⟩
    else return ⟨l.nextType, add32 relocTarget l.nextOffset, false⟩

def walkChain (imageSize firstRelocType chainStart : Nat) (image : Mem) : Walk Nat := do
  let c ← repeatWhile (fun c => c.finished = false) (walkChainStep imageSize image) .aborted
    (imageSize + 2) ⟨firstRelocType, chainStart, false⟩
  return c.relocTarget

def walkFixup (imageSize relocType relocTarget : Nat) (image : Mem) : Walk Nat := do
  let rem := baseOverflowSubU32 imageSize relocTarget
  stopIf (rem.1 = true) .volumeCorrupted
  match relocWidth relocType with
  | none => fail .unsupported
  | some width =>
    stopIf (rem.2 < width) .volumeCorrupted
    modify fun xs => xs ++ [⟨relocType, relocTarget, width, le image relocTarget width,
      decide (relocType = ueReloc32NoMeta)⟩]
    return add32 relocTarget width

def walkHeadFixups (imageSize : Nat) (chaining : Bool) (image : Mem) (fixupInfo : Nat)
    (t : TableState) : Walk TableState :=
  if chaining = true ∧ fixupInfo % 2^4 ≠ ueReloc32NoMeta then do
    let relocTarget ← walkChain imageSize (fixupInfo % 2^4) t.relocTarget image
    return { t with relocTarget := relocTarget }
  else do
    let relocTarget ← walkFixup imageSize (fixupInfo % 2^4) t.relocTarget image
    return { t with relocTarget := relocTarget }

def walkHeadStep (imageSize : Nat) (table : RelocTable) (chaining : Bool) (image : Mem)
    (t : TableState) : Walk TableState := do
  let fixupInfo := le table.bytes t.tableOffset 2
  let t ← walkHeadFixups imageSize chaining image fixupInfo
    { t with tableOffset := add32 t.tableOffset sizeofUeHead }
  nextHead table fixupInfo t

def walkRootStep (imageSize : Nat) (table : RelocTable) (chaining : Bool) (image : Mem)
    (t : TableState) : Walk TableState := do
  let firstOffset := le table.bytes t.tableOffset 4
  let sum := baseOverflowAddU32 t.relocTarget firstOffset
  stopIf (sum.1 = true) .volumeCorrupted
  let t ← repeatWhile (fun t => t.finished = false) (walkHeadStep imageSize table chaining image)
    .aborted (table.size + 2)
    { t with
      tableOffset := add32 t.tableOffset sizeofUeFixupRoot
      relocTarget := sum.2
      finished := false }
  return { t with tableOffset := alignValue t.tableOffset sizeofUeFixupRoot }

def walkRoots (imageSize : Nat) (table : RelocTable) (chaining : Bool) (image : Mem) : Walk Unit := do
  let _ ← repeatWhile (fun t => t.tableOffset ≤ sub32 table.size minSizeOfUeFixupRoot)
    (walkRootStep imageSize table chaining image) .aborted (table.size + 1) ⟨0, 0, 0, true⟩
  return ()

/-! ## the image -/

/-- the fixups below `target` have been moved by `adjust` -/
structure ImageRel (imageSize adjust : Nat) (image0 : Mem) (xs : List Fixup) (target : Nat)
    (image : Mem) : Prop where
  below : ∀ x, x ∈ xs → x.target + x.width ≤ target
  width : ∀ x, x ∈ xs → relocWidth x.relocType = some x.width
  fits : ∀ x, x ∈ xs → x.target + x.width ≤ imageSize
  apart : xs.Pairwise fun x y => x.target + x.width ≤ y.target
  value : ∀ x, x ∈ xs → le image x.target x.width = x.moved adjust
  frame : ∀ a, (∀ x, x ∈ xs → ¬ (x.target ≤ a ∧ a < x.target + x.width)) → image a = image0 a

section
variable {imageSize adjust : Nat} {image0 image : Mem} {xs : List Fixup} {target : Nat}

lemma imageRel_nil (imageSize adjust target : Nat) (image0 : Mem) :
    ImageRel imageSize adjust image0 [] target image0 where
  below := fun _ hx => absurd hx not_mem_nil
  width := fun _ hx => absurd hx not_mem_nil
  fits := fun _ hx => absurd hx not_mem_nil
  apart := List.Pairwise.nil
  value := fun _ hx => absurd hx not_mem_nil
  frame := fun _ _ => rfl

section
variable (h : ImageRel imageSize adjust image0 xs target image)
include h

lemma ImageRel.move {t : Nat}
    (ht : target ≤ t) : ImageRel imageSize adjust image0 xs t image :=
  { h with below := fun x hx => (h.below x hx).trans ht }

lemma ImageRel.sameOn (hi : Nat) :
    SameOn image image0 target hi := by
  intro a h1 _
  apply h.frame
  intro x hx hc
  have := h.below x hx
  omega

lemma ImageRel.push {x : Fixup}
    (htarget : x.target = target) (hwidth : relocWidth x.relocType = some x.width)
    (hfits : target + x.width ≤ imageSize) : ImageRel imageSize adjust image0 (xs ++ [x]) (target + x.width)
      (put image target x.width (x.moved adjust)) where
  below := by
    intro y hy
    rcases mem_append.mp hy with hy | hy
    · exact (h.below y hy).trans (le_add_right _ _)
    · rw [mem_singleton.mp hy, htarget]
  width := by
    intro y hy
    rcases mem_append.mp hy with hy | hy
    · exact h.width y hy
    · rw [mem_singleton.mp hy, hwidth]
  fits := by
    intro y hy
    rcases mem_append.mp hy with hy | hy
    · exact h.fits y hy
    · rw [mem_singleton.mp hy, htarget]
      exact hfits
  apart := by
    rw [pairwise_append]
    refine ⟨h.apart, pairwise_singleton _ _, fun y hy z hz => ?_⟩
    rw [mem_singleton.mp hz, htarget]
    exact h.below y hy
  value := by
    intro y hy
    rcases mem_append.mp hy with hy | hy
    · rw [le_put_disjoint _ (.inl (h.below y hy))]
      exact h.value y hy
    · rw [mem_singleton.mp hy, htarget, le_put_same]
      exact mod_mod _ _
  frame := by
    intro a ha
    have hx := ha x (mem_append_right _ mem_cons_self)
    rw [htarget] at hx
    rw [put_of_not_mem _ _ hx]
    exact h.frame a fun y hy => ha y (mem_append_left _ hy)

lemma ImageRel.unique {adjust' target' : Nat} {image' : Mem} (h' : ImageRel imageSize adjust' image0 xs target' image')
    (hmoved : ∀ x, x ∈ xs → x.moved adjust = x.moved adjust') : image = image' := by
  funext a
  by_cases ha : ∃ x, x ∈ xs ∧ x.target ≤ a ∧ a < x.target + x.width
  · obtain ⟨x, hx, h1, h2⟩ := ha
    have hle : le image x.target x.width = le image' x.target x.width := by
      rw [h.value x hx, h'.value x hx, hmoved x hx]
    obtain ⟨i, rfl⟩ := Nat.exists_eq_add_of_le h1
    exact le_inj hle i (by omega)
  · have hout : ∀ x, x ∈ xs → ¬ (x.target ≤ a ∧ a < x.target + x.width) := fun x hx hc => ha ⟨x, hx, hc⟩
    rw [h.frame a hout, h'.frame a hout]

end

/-! ## the runtime context -/

/-- what `FixupData` holds after the fixups -/
def staleData (fixupData adjust : Nat) : List Fixup → Nat
  | [] => fixupData
  | x :: xs => staleData (if x.recorded = true then x.moved adjust else fixupData) adjust xs

/-- what is recorded for each of the fixups -/
def recordedData (fixupData adjust : Nat) : List Fixup → List Nat
  | [] => []
  | x :: xs =>
    let d := if x.recorded = true then x.moved adjust else fixupData
    d :: recordedData d adjust xs

variable {fixupData : Nat}

lemma recordedData_length (xs : List Fixup) : (recordedData fixupData adjust xs).length = xs.length := by
  induction xs generalizing fixupData with
  | nil => rfl
  | cons x xs ih => rw [recordedData, length_cons, length_cons, ih]

lemma staleData_append (xs : List Fixup) (x : Fixup) :
    staleData fixupData adjust (xs ++ [x]) =
      if x.recorded = true then x.moved adjust else staleData fixupData adjust xs := by
  induction xs generalizing fixupData with
  | nil => rfl
  | cons y xs ih => rw [cons_append, staleData, ih, staleData]

lemma recordedData_append (xs : List Fixup) (x : Fixup) :
    recordedData fixupData adjust (xs ++ [x]) =
      recordedData fixupData adjust xs ++
        [if x.recorded = true then x.moved adjust else staleData fixupData adjust xs] := by
  induction xs generalizing fixupData with
  | nil => rfl
  | cons y xs ih => rw [cons_append, recordedData, ih, recordedData, cons_append, staleData]

end

/-- how far the table in the runtime context is -/
inductive Stage where
  | between (rs : List Root)
  | inRoot (rs : List Root) (first : Nat) (hs : List Head)

namespace Stage

def Holds (c : RuntimeContext) : Stage → Prop
  | between rs => Between c rs
  | inRoot rs first hs => InRoot c rs first hs

def spots : Stage → List (Nat × Nat)
  | between rs => rootSpots 0 rs
  | inRoot rs first hs => rootSpots 0 rs ++ headSpots (rootEnd 0 rs + first) hs

end Stage

/-- the context describes the fixups -/
structure ContextRel (fixupData adjust : Nat) (xs : List Fixup) (stage : Stage)
    (c : RuntimeContext) : Prop where
  table : stage.Holds c
  spots : stage.spots = xs.map Fixup.spot
  data : c.fixupData = recordedData fixupData adjust xs
  size : c.fixupSize = 8 * xs.length % 2^32

def Head.Open (h : Head) : Prop := h.next < ueFixupOffsetEnd

/-- only the last head of a root ends it -/
def Root.Ok (r : Root) : Prop := ∃ hs h, r.heads = hs ++ [h] ∧ h.next = ueFixupOffsetEnd ∧ ∀ x, x ∈ hs → x.Open

namespace Stage

/-- behind `n` roots, the target is `t` -/
def Closed (n t : Nat) (st : Stage) : Prop :=
  ∃ rs, st = between rs ∧ rs.length = n ∧ (∀ r, r ∈ rs → r.Ok) ∧ rootEnd 0 rs = t

/-- in the root behind `n` roots, the target of the next fixup is `t` -/
def Opened (n t : Nat) (st : Stage) : Prop :=
  ∃ rs first hs, st = inRoot rs first hs ∧ rs.length = n ∧ (∀ r, r ∈ rs → r.Ok) ∧
    (∀ x, x ∈ hs → x.Open) ∧ headEnd (rootEnd 0 rs + first) hs = t

/-- as `Opened`, with one more head, for a fixup at `t` -/
def Appended (n t : Nat) (h : Head) (st : Stage) : Prop :=
  ∃ rs first hs, st = inRoot rs first (hs ++ [h]) ∧ rs.length = n ∧ (∀ r, r ∈ rs → r.Ok) ∧
    (∀ x, x ∈ hs → x.Open) ∧ headEnd (rootEnd 0 rs + first) hs = t

/-- as `Appended`, for some head that ends at `t` and whose offset is not known yet -/
def Pending (n t : Nat) (st : Stage) : Prop := ∃ u h, u + h.width = t ∧ h.relocType < 2^4 ∧ Appended n u h st

end Stage

/-- the state has a context that describes the fixups, as long as the sizes do not wrap -/
def Tracks (live : Prop) (fixupData adjust : Nat) (xs : List Fixup) (P : Stage → Prop)
    (context : Option RuntimeContext) : Prop :=
  live → ∃ c, context = some c ∧ (xs.length ≤ 2^29 → ∃ st, P st ∧ ContextRel fixupData adjust xs st c)

section
variable {live : Prop} {fixupData adjust n t size : Nat} {xs : List Fixup} {context : Option RuntimeContext}

lemma Tracks.mono {P Q : Stage → Prop} (h : Tracks live fixupData adjust xs P context)
    (hPQ : ∀ st, P st → Q st) : Tracks live fixupData adjust xs Q context := by
  intro hl
  obtain ⟨c, hc, hx⟩ := h hl
  refine ⟨c, hc, fun hlen => ?_⟩
  obtain ⟨st, hP, hrel⟩ := hx hlen
  exact ⟨st, hPQ st hP, hrel⟩

variable {hd : Head} {first : Nat} {st : Stage} {x : Fixup}

lemma table_lt {rs : List Root} {hs : List Head}
    (hspots : (Stage.inRoot rs first hs).spots = xs.map Fixup.spot) (hlen : xs.length ≤ 2^29)
    (hsize : 8 * (rs.length + 1) ≤ size) (hlt : size + 8 ≤ 2^32) :
    rootsSize rs + 4 + 2 * hs.length + 4 < 2^32 := by
  have h1 := rootsSize_le 0 rs
  have h2 := congrArg List.length hspots
  rw [Stage.spots, length_append, headSpots_length, length_map] at h2
  omega

lemma Tracks.root (h : Tracks live fixupData adjust xs (Stage.Closed n t) context)
    (hsize : 8 * (n + 1) ≤ size) (hlt : size + 8 ≤ 2^32) (hfirst : first < 2^32) :
    Tracks live fixupData adjust xs (Stage.Opened n (t + first))
      (context.map (RuntimeContext.append sizeofUeFixupRoot first none)) := by
  intro hl
  obtain ⟨c, rfl, hx⟩ := h hl
  refine ⟨_, rfl, fun hlen => ?_⟩
  obtain ⟨st, ⟨rs, rfl, hn, hok, hend⟩, hrel⟩ := hx hlen
  have hspots : (Stage.inRoot rs first []).spots = xs.map Fixup.spot := by
    rw [← hrel.spots]
    exact append_nil _
  have hfit := table_lt hspots hlen (hn ▸ hsize) hlt
  refine ⟨.inRoot rs first [], ⟨rs, first, [], rfl, hn, hok, ?_, ?_⟩, ?_⟩
  · exact fun x hx => absurd hx not_mem_nil
  · rw [headEnd, hend]
  · exact ⟨Between.append_root hrel.table (by omega) hfirst, hspots, hrel.data, hrel.size⟩

lemma Tracks.append (h : Tracks live fixupData adjust xs (Stage.Opened n t) context)
    (hsize : 8 * (n + 1) ≤ size) (hlt : size + 8 ≤ 2^32) {d : Nat}
    (htarget : x.target = t) (htype : hd.relocType = x.relocType) (hinfo : hd.info < 2^16)
    (hdata : d = if x.recorded = true then x.moved adjust else staleData fixupData adjust xs) :
    Tracks live fixupData adjust (xs ++ [x]) (Stage.Appended n t hd)
      (context.map (RuntimeContext.append sizeofUeHead hd.info (some d))) := by
  intro hl
  obtain ⟨c, rfl, hx⟩ := h hl
  refine ⟨_, rfl, fun hlen => ?_⟩
  have hlen' : (xs ++ [x]).length = xs.length + 1 := length_append
  obtain ⟨st, ⟨rs, first, hs, rfl, hn, hok, hopen, hend⟩, hrel⟩ := hx (by omega)
  have hfit := table_lt hrel.spots (by omega) (hn ▸ hsize) hlt
  refine ⟨.inRoot rs first (hs ++ [hd]), ⟨rs, first, hs, rfl, hn, hok, hopen, hend⟩, ?_⟩
  have hcount : c.fixupSize / 8 = xs.length := by
    rw [hrel.size]
    omega
  have hall : c.fixupData.take (c.fixupSize / 8) = c.fixupData := by
    rw [hcount]
    exact take_of_length_le (by rw [hrel.data, recordedData_length])
  exact {
    table := InRoot.append_head hrel.table (by omega) hinfo (some d)
    spots := by
      rw [map_append, ← hrel.spots]
      show _ ++ headSpots _ (hs ++ [hd]) = (_ ++ headSpots _ hs) ++ _
      rw [headSpots_append, hend, append_assoc]
      show _ ++ (_ ++ [(hd.relocType, t)]) = _ ++ (_ ++ [(x.relocType, x.target)])
      rw [htype, htarget]
    data := by
      show c.fixupData.take (c.fixupSize / 8) ++ [d] = _
      rw [hall, hrel.data, recordedData_append, hdata]
    size := by
      show add32 c.fixupSize 8 = 8 * (xs ++ [x]).length % 2^32
      rw [hrel.size, hlen']
      unfold add32
      omega }

lemma Stage.Appended.opened (h : Stage.Appended n t hd st)
    (hopen : hd.Open) : Stage.Opened n (t + hd.width + hd.next) st := by
  obtain ⟨rs, first, hs, rfl, hn, hok, hhs, hend⟩ := h
  refine ⟨rs, first, hs ++ [hd], rfl, hn, hok, ?_, ?_⟩
  · intro y hy
    rcases mem_append.mp hy with hy | hy
    · exact hhs y hy
    · rw [mem_singleton.mp hy]
      exact hopen
  · rw [headEnd_append, hend, headEnd, headEnd, Head.advance, if_neg (Nat.ne_of_lt hopen)]

lemma Stage.Appended.pending (h : Stage.Appended n t hd st)
    (htype : hd.relocType < 2^4) : Stage.Pending n (t + hd.width) st := ⟨t, hd, rfl, htype, h⟩

lemma Tracks.append_info (h : Tracks live fixupData adjust xs (Stage.Opened n t) context)
    (hsize : 8 * (n + 1) ≤ size) (hlt : size + 8 ≤ 2^32) {info d : Nat}
    (hinfo : info < 2^16) (htarget : x.target = t) (htype : x.relocType = info % 2^4)
    (hwidth : relocWidth (info % 2^4) = some x.width)
    (hdata : d = if x.recorded = true then x.moved adjust else staleData fixupData adjust xs) :
    Tracks live fixupData adjust (xs ++ [x]) (Stage.Pending n (t + x.width))
      (context.map (RuntimeContext.append sizeofUeHead info (some d))) := by
  have heq : (Head.mk (info % 2^4) (info / 2^4)).info = info := by
    show info / 2^4 * 2^4 + info % 2^4 = info
    omega
  have hwid : (Head.mk (info % 2^4) (info / 2^4)).width = x.width := by
    show (relocWidth (info % 2^4)).getD 0 = x.width
    rw [hwidth]
    rfl
  have happ : Tracks live fixupData adjust (xs ++ [x]) (Stage.Appended n t ⟨info % 2^4, info / 2^4⟩) _ :=
    h.append hsize hlt htarget htype.symm (heq.trans_lt hinfo) hdata
  rw [heq] at happ
  refine happ.mono fun st hst => ?_
  have hpending := hst.pending (mod_lt _ (by norm_num))
  rwa [hwid] at hpending

/-- the spots of a table do not depend on the offset of its last head -/
lemma spots_setOffset (rs : List Root) (first : Nat) (hs : List Head) (h : Head) (o : Nat) :
    (Stage.inRoot rs first (hs ++ [⟨h.relocType, o⟩])).spots = (Stage.inRoot rs first (hs ++ [h])).spots := by
  rw [Stage.spots, Stage.spots, headSpots_append, headSpots_append]
  rfl

lemma RuntimeContext.setOffset_data (c : RuntimeContext) (o : Nat) :
    (c.setOffset o).fixupData = c.fixupData ∧ (c.setOffset o).fixupSize = c.fixupSize := by
  simp only [RuntimeContext.setOffset]
  split <;> exact ⟨rfl, rfl⟩

lemma Tracks.setOffset (h : Tracks live fixupData adjust xs (Stage.Pending n t) context)
    (hsize : 8 * (n + 1) ≤ size) (hlt : size + 8 ≤ 2^32) {o : Nat} (ho : o < 2^12) : Tracks live fixupData adjust xs
      (if o = ueFixupOffsetEnd then Stage.Closed (n + 1) t else Stage.Opened n (t + o))
      (context.map (RuntimeContext.setOffset o)) := by
  intro hl
  obtain ⟨c, rfl, hx⟩ := h hl
  refine ⟨_, rfl, fun hlen => ?_⟩
  obtain ⟨st, ⟨u, hd, hut, htype, rs, first, hs, rfl, hn, hok, hopen, hend⟩, hrel⟩ := hx hlen
  have hfit := table_lt hrel.spots hlen (hn ▸ hsize) hlt
  have htab : InRoot c rs first (hs ++ [hd]) := hrel.table
  have hcsize := htab.size
  obtain ⟨hdata, hds⟩ := c.setOffset_data o
  by_cases hEnd : o = ueFixupOffsetEnd
  · rw [if_pos hEnd]
    subst hEnd
    refine ⟨.between (rs ++ [⟨first, hs ++ [⟨hd.relocType, ueFixupOffsetEnd⟩]⟩]), ⟨_, rfl, ?_, ?_, ?_⟩, ?_⟩
    · rw [length_append, hn]
      rfl
    · intro r hr
      rcases mem_append.mp hr with hr | hr
      · exact hok r hr
      · rw [mem_singleton.mp hr]
        exact ⟨hs, _, rfl, rfl, hopen⟩
    · rw [rootEnd_append, rootEnd, rootEnd, headEnd_append, hend]
      exact hut
    · refine ⟨htab.setOffset_end (by omega) htype, ?_, hdata.trans hrel.data, hds.trans hrel.size⟩
      rw [← hrel.spots, ← spots_setOffset rs first hs hd ueFixupOffsetEnd]
      show rootSpots 0 (rs ++ _) = _
      rw [rootSpots_append]
      show _ ++ (_ ++ []) = _
      rw [append_nil]
      rfl
  · rw [if_neg hEnd]
    have hnext : (Head.mk hd.relocType o).Open := by
      show o < 0xFFF
      have : o ≠ 0xFFF := hEnd
      omega
    refine ⟨.inRoot rs first (hs ++ [⟨hd.relocType, o⟩]), ?_, ?_⟩
    · have happ : Stage.Appended n u ⟨hd.relocType, o⟩ (.inRoot rs first (hs ++ [⟨hd.relocType, o⟩])) :=
        ⟨rs, first, hs, rfl, hn, hok, hopen, hend⟩
      rw [← hut]
      exact happ.opened hnext
    · refine ⟨htab.setOffset_next (by omega) htype ho hEnd, ?_, hdata.trans hrel.data, hds.trans hrel.size⟩
      rw [spots_setOffset]
      exact hrel.spots

/-! ## one link -/

lemma link_spec {image : Mem} {type target : Nat} {l : Link} (h : link image type target = some l) :
    l.width = linkWidth type ∧ relocWidth type = some l.width ∧ l.nextOffset < 2^12 ∧ type < 2^4 := by
  unfold link at h
  by_cases h64 : type = ueReloc64
  · rw [if_pos h64] at h
    cases h
    subst h64
    refine ⟨rfl, rfl, ?_, by decide⟩
    show le image target 8 % 2^16 / 2^4 < 2^12
    omega
  · rw [if_neg h64] at h
    by_cases h32 : type = ueReloc32
    · rw [if_pos h32] at h
      cases h
      subst h32
      exact ⟨rfl, rfl, mod_lt _ (by norm_num), by decide⟩
    · rw [if_neg h32] at h
      cases h

lemma link_congr {image image' : Mem} {type target : Nat}
    (h : SameOn image image' target (target + 8)) : link image type target = link image' type target := by
  unfold link
  rw [le_congr h, le_congr (n := 4) (h.mono le_rfl (by omega))]

variable {imageSize : Nat} {image0 : Mem}

/-- the relocation and the walk in a chain -/
structure ChainRel (live : Prop) (fixupData adjust imageSize n : Nat) (image0 : Mem)
    (c c' : ChainState) (s : RelocState) (xs : List Fixup) : Prop where
  same : c = c'
  image : ImageRel imageSize adjust image0 xs c.relocTarget s.image
  inside : c.finished = true → c.relocTarget ≤ imageSize
  tracks : Tracks live fixupData adjust xs
    (if c.finished = true then Stage.Pending n c.relocTarget else Stage.Opened n c.relocTarget)
    s.context

variable {xs : List Fixup} {s : RelocState} {chaining : Bool} {table : RelocTable} {t t' : TableState}

lemma chainStep_sim (himage : imageSize + 2^12 ≤ 2^32) (hsize : 8 * (n + 1) ≤ size)
    (hlt : size + 8 ≤ 2^32) {c c' : ChainState}
    (h : ChainRel live fixupData adjust imageSize n image0 c c' s xs) (hc : c.finished = false) :
    Sim (chainStep imageSize adjust c) (walkChainStep imageSize image0 c')
      (ChainRel live fixupData adjust imageSize n image0) s xs := by
  obtain ⟨rfl, himg, -, htr⟩ := h
  rw [if_neg (by simp [hc])] at htr
  refine sim_stopIf _ _ fun hov => sim_stopIf _ _ fun htype => sim_stopIf _ _ fun hrem =>
    sim_gets_left ?_
  rw [link_congr (himg.sameOn _)]
  cases hl : link image0 c.relocType c.relocTarget with
  | none => exact sim_fail _
  | some l =>
    obtain ⟨hwidth, hrw, hoff, ht4⟩ := link_spec hl
    have hov' : (baseOverflowSubU32 imageSize c.relocTarget).1 = false := by simpa using hov
    have hle := baseOverflowSubU32_fst.mp hov'
    rw [baseOverflowSubU32_snd (by omega) hov', ← hwidth] at hrem
    have hadd : add32 c.relocTarget l.width = c.relocTarget + l.width := add32_eq (by omega)
    have himg' := himg.push (x := ⟨c.relocType, c.relocTarget, l.width, l.value, true⟩) rfl hrw
      (by
        show c.relocTarget + l.width ≤ imageSize
        omega)
    have hinfo : (Head.mk c.relocType l.nextOffset).info < 2^16 := by
      show l.nextOffset * 2^4 + c.relocType < 2^16
      omega
    have hwid : (Head.mk c.relocType l.nextOffset).width = l.width := by
      show (relocWidth c.relocType).getD 0 = l.width
      rw [hrw]
      rfl
    have htr' : Tracks live fixupData adjust _ (Stage.Appended n c.relocTarget ⟨c.relocType, l.nextOffset⟩) _ :=
      htr.append hsize hlt (x := ⟨c.relocType, c.relocTarget, l.width, l.value, true⟩) rfl rfl hinfo rfl
    refine sim_modify_right (sim_modify_left (sim_modify_left ?_))
    rw [hadd]
    by_cases hend : l.nextOffset = ueFixupOffsetEnd
    · rw [if_pos hend, if_pos hend]
      refine sim_pure ⟨rfl, himg', fun _ => ?_, ?_⟩
      · show c.relocTarget + l.width ≤ imageSize
        omega
      · rw [if_pos rfl]
        refine htr'.mono fun st hst => ?_
        have := hst.pending ht4
        rwa [hwid] at this
    · rw [if_neg hend, if_neg hend]
      have hopen : (Head.mk c.relocType l.nextOffset).Open := by
        show l.nextOffset < 0xFFF
        have : l.nextOffset ≠ 0xFFF := hend
        omega
      rw [add32_eq (by omega)]
      refine sim_pure ⟨rfl, himg'.move (le_add_right _ _), fun hc => ?_, ?_⟩
      · exact absurd hc Bool.false_ne_true
      · rw [if_neg Bool.false_ne_true]
        refine htr'.mono fun st hst => ?_
        have := hst.opened hopen
        rwa [hwid] at this

lemma internalProcessRelocChain_sim (himage : imageSize + 2^12 ≤ 2^32)
    (hsize : 8 * (n + 1) ≤ size) (hlt : size + 8 ≤ 2^32) {type target : Nat}
    (himg : ImageRel imageSize adjust image0 xs target s.image)
    (htr : Tracks live fixupData adjust xs (Stage.Opened n target) s.context) :
    Sim (internalProcessRelocChain imageSize type target adjust) (walkChain imageSize type target image0)
      (fun t t' s xs => t = t' ∧ t ≤ imageSize ∧ ImageRel imageSize adjust image0 xs t s.image ∧
        Tracks live fixupData adjust xs (Stage.Pending n t) s.context) s xs := by
  have h0 : ChainRel live fixupData adjust imageSize n image0 ⟨type, target, false⟩ ⟨type, target, false⟩ s xs :=
    ⟨rfl, himg, fun hc => absurd hc Bool.false_ne_true, by rwa [if_neg Bool.false_ne_true]⟩
  refine sim_bind (sim_repeatWhile (ChainRel live fixupData adjust imageSize n image0) ?_ ?_ _ h0) ?_
  · intro c c' s xs h
    rw [h.same]
  · exact fun c c' s xs h hc => chainStep_sim himage hsize hlt h hc
  · rintro c c' s xs ⟨h, hc⟩
    have hfin : c.finished = true := by simpa using hc
    have htr' := h.tracks
    rw [if_pos hfin] at htr'
    exact sim_pure ⟨congrArg _ h.same, h.inside hfin, h.image, htr'⟩

/-! ## one head -/

lemma internalApplyRelocation_sim (himage : imageSize + 2^12 ≤ 2^32) {type target data : Nat}
    (himg : ImageRel imageSize adjust image0 xs target s.image) {R : Nat × Nat → Nat → RelocState → List Fixup → Prop}
    (hR : ∀ x : Fixup, x.relocType = type → x.target = target →
      relocWidth type = some x.width → x.recorded = decide (type = ueReloc32NoMeta) → target + x.width ≤ imageSize →
      R (target + x.width, if x.recorded = true then x.moved adjust else data) (target + x.width)
        { s with image := put s.image target x.width (x.moved adjust) } (xs ++ [x])) :
    Sim (internalApplyRelocation imageSize type target adjust data)
      (walkFixup imageSize type target image0) R s xs := by
  unfold internalApplyRelocation walkFixup
  refine sim_stopIf _ _ fun hov => ?_
  have hov' : (baseOverflowSubU32 imageSize target).1 = false := by simpa using hov
  have hle := baseOverflowSubU32_fst.mp hov'
  rw [baseOverflowSubU32_snd (by omega) hov']
  cases hw : relocWidth type with
  | none => exact sim_fail _
  | some width =>
    refine sim_stopIf _ _ fun hrem => sim_gets_left (sim_modify_right (sim_modify_left ?_))
    rw [le_congr (himg.sameOn _), add32_eq (by omega)]
    have := hR ⟨type, target, width, le image0 target width, decide (type = ueReloc32NoMeta)⟩ rfl rfl
      hw rfl (by
        show target + width ≤ imageSize
        omega)
    simp only [decide_eq_true_eq] at this
    exact sim_pure this

/-- the locals of the two runs agree, up to `FixupData` -/
structure SameLocals (t t' : TableState) : Prop where
  offset : t.tableOffset = t'.tableOffset
  target : t.relocTarget = t'.relocTarget
  finished : t.finished = t'.finished

/-- the fixups of a head have been processed, its offset is still to be set -/
structure FixupsRel (live : Prop) (fixupData adjust imageSize n : Nat) (chaining : Bool) (image0 : Mem)
    (off : Nat) (t t' : TableState) (s : RelocState) (xs : List Fixup) : Prop where
  same : SameLocals t t'
  offset : t.tableOffset = off
  finished : t.finished = false
  inside : t.relocTarget ≤ imageSize
  image : ImageRel imageSize adjust image0 xs t.relocTarget s.image
  stale : chaining = false → t.fixupData = staleData fixupData adjust xs
  tracks : Tracks live fixupData adjust xs (Stage.Pending n t.relocTarget) s.context

/-- as `FixupsRel`, before the fixup is written to the table of the context -/
structure AppliedRel (live : Prop) (fixupData adjust imageSize n : Nat) (image0 : Mem) (info : Nat)
    (r : Nat × Nat) (t : Nat) (s : RelocState) (xs : List Fixup) : Prop where
  target : t = r.1
  inside : r.1 ≤ imageSize
  image : ImageRel imageSize adjust image0 xs r.1 s.image
  stale : r.2 = staleData fixupData adjust xs
  tracks : Tracks live fixupData adjust xs (Stage.Pending n r.1)
    (s.context.map (RuntimeContext.append sizeofUeHead info (some r.2)))

lemma headFixups_sim (himage : imageSize + 2^12 ≤ 2^32) (hsize : 8 * (n + 1) ≤ size)
    (hlt : size + 8 ≤ 2^32) {info : Nat} (hinfo : info < 2^16) (hsame : SameLocals t t')
    (hfin : t.finished = false) (himg : ImageRel imageSize adjust image0 xs t.relocTarget s.image)
    (hstale : chaining = false → t.fixupData = staleData fixupData adjust xs)
    (htr : Tracks live fixupData adjust xs (Stage.Opened n t.relocTarget) s.context) :
    Sim (headFixups imageSize chaining adjust info t) (walkHeadFixups imageSize chaining image0 info t')
      (FixupsRel live fixupData adjust imageSize n chaining image0 t.tableOffset) s xs := by
  unfold headFixups walkHeadFixups
  rw [← hsame.target]
  by_cases hc : chaining = true ∧ info % 2^4 ≠ ueReloc32NoMeta
  · rw [if_pos hc, if_pos hc]
    refine sim_bind (internalProcessRelocChain_sim himage hsize hlt himg htr) ?_
    rintro u u' s xs ⟨rfl, hle, himg', htr'⟩
    refine sim_pure ⟨⟨hsame.offset, rfl, hsame.finished⟩, rfl, hfin, hle, himg', ?_, htr'⟩
    intro hno
    rw [hc.1] at hno
    cases hno
  · rw [if_neg hc, if_neg hc]
    have hdata : ∀ x : Fixup, x.recorded = decide (info % 2^4 = ueReloc32NoMeta) →
        (if x.recorded = true then x.moved adjust else t.fixupData) =
          if x.recorded = true then x.moved adjust else staleData fixupData adjust xs := by
      -- a fixup that is neither in a chain nor recorded is one of a file without chains
      intro x hrec
      by_cases hx : x.recorded = true
      · rw [if_pos hx, if_pos hx]
      rw [if_neg hx, if_neg hx]
      apply hstale
      by_contra hch
      refine hc ⟨by simpa using hch, fun hno => hx ?_⟩
      rw [hrec, hno]
      rfl
    have happlied : Sim (internalApplyRelocation imageSize (info % 2^4) t.relocTarget adjust t.fixupData)
        (walkFixup imageSize (info % 2^4) t.relocTarget image0)
        (AppliedRel live fixupData adjust imageSize n image0 info) s xs := by
      refine internalApplyRelocation_sim himage himg fun x htype htarget hwidth hrec hfits => ?_
      exact {
        target := rfl
        inside := hfits
        image := himg.push htarget (htype ▸ hwidth) hfits
        stale := (hdata x hrec).trans (staleData_append xs x).symm
        tracks := htr.append_info hsize hlt hinfo htarget htype hwidth (hdata x hrec) }
    refine sim_bind happlied ?_
    rintro r u s' xs' ⟨rfl, hle, himg', hst, htr'⟩
    exact sim_modify_left (sim_pure ⟨⟨hsame.offset, rfl, hsame.finished⟩, rfl, hfin, hle, himg', fun _ => hst, htr'⟩)

/-! ## one root -/

/-- the relocation and the walk in the root at `start`, which is behind `n` other ones -/
structure HeadRel (live : Prop) (fixupData adjust imageSize n : Nat) (chaining : Bool) (image0 : Mem)
    (size start : Nat) (t t' : TableState) (s : RelocState) (xs : List Fixup) : Prop where
  same : SameLocals t t'
  lower : start + (if t.finished = true then 6 else 4) ≤ t.tableOffset
  upper : t.tableOffset + (if t.finished = true then 0 else 2) ≤ size
  image : ImageRel imageSize adjust image0 xs t.relocTarget s.image
  stale : chaining = false → t.fixupData = staleData fixupData adjust xs
  tracks : Tracks live fixupData adjust xs
    (if t.finished = true then Stage.Closed (n + 1) t.relocTarget else Stage.Opened n t.relocTarget)
    s.context

lemma headStep_sim (himage : imageSize + 2^12 ≤ 2^32)
    (hsize : 8 * (n + 1) ≤ table.size) (hlt : table.size + 8 ≤ 2^32) {start : Nat}
    (h : HeadRel live fixupData adjust imageSize n chaining image0 table.size start t t' s xs)
    (hfin : t.finished = false) :
    Sim (headStep imageSize table chaining adjust t) (walkHeadStep imageSize table chaining image0 t')
      (HeadRel live fixupData adjust imageSize n chaining image0 table.size start) s xs := by
  obtain ⟨hsame, hlow, hup, himg, hstale, htr⟩ := h
  have hnot : ¬ t.finished = true := by simp [hfin]
  rw [if_neg hnot] at hlow hup htr
  have hinfo : le table.bytes t.tableOffset 2 < 2^16 := le_lt table.bytes t.tableOffset 2
  have hoff : add32 t.tableOffset sizeofUeHead = t.tableOffset + 2 :=
    add32_eq (show t.tableOffset + 2 < 2^32 by omega)
  unfold headStep walkHeadStep
  rw [← hsame.offset, hoff]
  generalize le table.bytes t.tableOffset 2 = info at hinfo
  have hsame' : SameLocals { t with tableOffset := t.tableOffset + 2 }
      { t' with tableOffset := t.tableOffset + 2 } := ⟨rfl, hsame.target, hsame.finished⟩
  refine sim_bind (headFixups_sim himage hsize hlt hinfo hsame' hfin himg hstale htr) ?_
  rintro u u' s xs ⟨hsu, hou, hfu, hin, himg', hst', htr'⟩
  refine sim_modify_left ?_
  have hset := htr'.setOffset hsize hlt (show info / 2^4 < 2^12 by omega)
  have hou' : u.tableOffset = t.tableOffset + 2 := hou
  unfold nextHead
  by_cases hend : info / 2^4 = ueFixupOffsetEnd
  · rw [if_pos hend, if_pos hend]
    rw [if_pos hend] at hset
    refine sim_pure ⟨⟨hsu.offset, hsu.target, rfl⟩, ?_, ?_, himg', hst', ?_⟩
    · show start + 6 ≤ u.tableOffset
      omega
    · show u.tableOffset + 0 ≤ table.size
      omega
    · exact hset
  · rw [if_neg hend, if_neg hend, ← hsu.offset, ← hsu.target]
    rw [if_neg hend] at hset
    refine sim_stopIf _ _ fun hmax => ?_
    have h2 : sizeofUeHead = 2 := rfl
    rw [sub32_eq (by omega) (by omega), h2] at hmax
    have hnot' : ¬ u.finished = true := by simp [hfu]
    have hadd : add32 u.relocTarget (info / 2^4) = u.relocTarget + info / 2^4 := add32_eq (by omega)
    rw [hadd]
    refine sim_pure ⟨⟨rfl, rfl, hsu.finished⟩, ?_, ?_, ?_, hst', ?_⟩
    · show start + (if u.finished = true then 6 else 4) ≤ u.tableOffset
      rw [if_neg hnot']
      omega
    · show u.tableOffset + (if u.finished = true then 0 else 2) ≤ table.size
      rw [if_neg hnot']
      omega
    · exact himg'.move (le_add_right _ _)
    · show Tracks _ _ _ _ (if u.finished = true then _ else _) _
      rw [if_neg hnot']
      exact hset

/-- the relocation and the walk between two roots -/
structure RootRel (live : Prop) (fixupData adjust imageSize : Nat) (chaining : Bool) (image0 : Mem)
    (size : Nat) (t t' : TableState) (s : RelocState) (xs : List Fixup) : Prop where
  same : SameLocals t t'
  aligned : 4 ∣ t.tableOffset
  upper : t.tableOffset ≤ size
  image : ImageRel imageSize adjust image0 xs t.relocTarget s.image
  stale : chaining = false → t.fixupData = staleData fixupData adjust xs
  tracks : ∃ n, 8 * n ≤ t.tableOffset ∧ Tracks live fixupData adjust xs (Stage.Closed n t.relocTarget) s.context

lemma rootStep_sim (himage : imageSize + 2^12 ≤ 2^32) (h8 : 8 ∣ table.size)
    (hpos : 0 < table.size) (hlt : table.size < 2^32)
    (h : RootRel live fixupData adjust imageSize chaining image0 table.size t t' s xs)
    (hroot : t.tableOffset ≤ sub32 table.size minSizeOfUeFixupRoot) :
    Sim (rootStep table false (headStep imageSize table chaining adjust) t)
      (walkRootStep imageSize table chaining image0 t')
      (RootRel live fixupData adjust imageSize chaining image0 table.size) s xs := by
  obtain ⟨hsame, halign, hup, himg, hstale, n, hn, htr⟩ := h
  have h6 : minSizeOfUeFixupRoot = 6 := rfl
  have h4 : sizeofUeFixupRoot = 4 := rfl
  rw [sub32_eq (by omega) hlt, h6] at hroot
  have hlt' : table.size + 8 ≤ 2^32 := by omega
  have hfirst : le table.bytes t.tableOffset 4 < 2^32 := le_lt table.bytes t.tableOffset 4
  have hoff : add32 t.tableOffset sizeofUeFixupRoot = t.tableOffset + 4 :=
    add32_eq (show t.tableOffset + 4 < 2^32 by omega)
  unfold rootStep walkRootStep
  rw [← hsame.offset, ← hsame.target, hoff]
  refine sim_stopIf _ _ fun hov => sim_modify_left ?_
  have hov' : (baseOverflowAddU32 t.relocTarget (le table.bytes t.tableOffset 4)).1 = false := by
    simpa using hov
  rw [baseOverflowAddU32_snd hov']
  have hsize : 8 * (n + 1) ≤ table.size := by omega
  have hopen := htr.root hsize hlt' hfirst
  have h0 : HeadRel live fixupData adjust imageSize n chaining image0 table.size t.tableOffset
      { t with
        tableOffset := t.tableOffset + 4
        relocTarget := t.relocTarget + le table.bytes t.tableOffset 4
        finished := false }
      { t' with
        tableOffset := t.tableOffset + 4
        relocTarget := t.relocTarget + le table.bytes t.tableOffset 4
        finished := false }
      { s with context := s.context.map (RuntimeContext.append sizeofUeFixupRoot
          (le table.bytes t.tableOffset 4) none) } xs :=
    ⟨⟨rfl, rfl, rfl⟩, le_rfl, by
      show t.tableOffset + 4 + 2 ≤ table.size
      omega, himg.move (le_add_right _ _), hstale, hopen⟩
  refine sim_bind (sim_repeatWhile
    (HeadRel live fixupData adjust imageSize n chaining image0 table.size t.tableOffset) ?_ ?_ _ h0) ?_
  · intro u u' s xs hu
    rw [hu.same.finished]
  · exact fun u u' s xs hu hfin => headStep_sim himage hsize hlt' hu hfin
  · rintro u u' s xs ⟨hu, hfin⟩
    obtain ⟨hsu, hlow, hup', himg', hst', htr'⟩ := hu
    have hfin' : u.finished = true := by simpa using hfin
    rw [if_pos hfin'] at hlow hup' htr'
    -- the padding of the root ends in the table
    have hround := le_roundUp u.tableOffset (show 0 < 4 by decide)
    have hle : roundUp u.tableOffset 4 ≤ table.size := roundUp_le (by decide) (dvd_trans (by decide) h8) hup'
    have hdvd : 4 ∣ roundUp u.tableOffset 4 := dvd_roundUp _ _
    have halign' : alignValue u.tableOffset sizeofUeFixupRoot = roundUp u.tableOffset 4 :=
      alignValue_eq (by decide) (by decide) (by omega) (by rw [h4]; omega)
    rw [← hsu.offset, halign']
    refine sim_pure ⟨⟨rfl, hsu.target, hsu.finished⟩, hdvd, hle, himg', hst', n + 1, ?_, htr'⟩
    show 8 * (n + 1) ≤ roundUp u.tableOffset 4
    omega

/-- **the relocation of a table and the walk over it in lockstep** -/
theorem relocateRoots_sim (himage : imageSize + 2^12 ≤ 2^32)
    (h8 : 8 ∣ table.size) (hpos : 0 < table.size) (hlt : table.size < 2^32)
    {context : Option RuntimeContext} (hcontext : live → context = some .zero) :
    Sim (relocateRoots table false (headStep imageSize table chaining adjust) fixupData)
      (walkRoots imageSize table chaining image0) (fun _ _ s xs => ∃ target n, 8 * n ≤ table.size ∧
        ImageRel imageSize adjust image0 xs target s.image ∧
        Tracks live fixupData adjust xs (Stage.Closed n target) s.context) ⟨image0, context⟩ [] := by
  have hzero : Tracks live fixupData adjust [] (Stage.Closed 0 0) context := by
    intro hl
    refine ⟨_, hcontext hl, fun _ => ⟨.between [], ⟨[], rfl, rfl, ?_, rfl⟩, ?_⟩⟩
    · exact fun r hr => absurd hr not_mem_nil
    · exact ⟨⟨rfl, trivial⟩, rfl, rfl, rfl⟩
  have h0 : RootRel live fixupData adjust imageSize chaining image0 table.size ⟨0, 0, fixupData, true⟩
      ⟨0, 0, 0, true⟩ ⟨image0, context⟩ [] :=
    ⟨⟨rfl, rfl, rfl⟩, dvd_zero 4, zero_le _, imageRel_nil _ _ _ _, fun _ => rfl, 0, le_rfl, hzero⟩
  refine sim_bind (sim_repeatWhile (RootRel live fixupData adjust imageSize chaining image0 table.size) ?_ ?_ _ h0) ?_
  · intro t t' s xs h
    rw [h.same.offset]
  · exact fun t t' s xs h hroot => rootStep_sim himage h8 hpos hlt h hroot
  · rintro t t' s xs ⟨h, -⟩
    obtain ⟨n, hn, htr⟩ := h.tracks
    exact sim_pure ⟨t.relocTarget, n, hn.trans h.upper, h.image, htr⟩

end

end Audk.Ue
