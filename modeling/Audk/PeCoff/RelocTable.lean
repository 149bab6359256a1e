import Audk.PeCoff.Relocate

/-!
# The relocation table as data

What a relocation table says, apart from the code that walks it: a list of entries `(type, target)`,
and what applying them does to an image and to the bookkeeping of a runtime context.

* `fixupsAfter`, `pairsOf`: the bookkeeping;
* `Relocated`: a run has applied a list of entries; `Relocated.append` chains runs.
-/

namespace Audk.PeCoff

open Bytes Arith List

/-! ## entries -/

def entryAt (m : Mem) (off i : Nat) : Nat × Nat :=
  (le m (off + sizeofBaseRelocationBlock + 2 * i) 2 >>> 12,
    le m off 4 + (le m (off + sizeofBaseRelocationBlock + 2 * i) 2 &&& 0x0FFF))

def numRelocs (sizeOfBlock : Nat) : Nat := (sizeOfBlock - sizeofBaseRelocationBlock) / 2

def blockEntries (m : Mem) (off : Nat) : List (Nat × Nat) :=
  (List.range (numRelocs (le m (off + 4) 4))).map (entryAt m off)

def blockLength (pcd : Pcd) (sizeOfBlock : Nat) : Nat :=
  if pcd.relocationBlockSizes = false then sizeOfBlock else roundUp sizeOfBlock 4

/-- where the last block has to end -/
def tableEnd (pcd : Pcd) (top : Nat) : Nat :=
  if pcd.relocationBlockSizes = false then top else roundUp top 4

/-- from `off` on, the blocks of the directory that ends at `top` hold the entries, and the last one
ends at `fin` -/
inductive Table (pcd : Pcd) (m : Mem) (top fin : Nat) : Nat → List (Nat × Nat) → Prop
  | done : Table pcd m top fin fin []
  | block (off : Nat) (es : List (Nat × Nat)) (hhdr : off + sizeofBaseRelocationBlock ≤ top)
      (hmin : sizeofBaseRelocationBlock ≤ le m (off + 4) 4) (hfit : off + le m (off + 4) 4 ≤ top)
      (halign : pcd.relocationBlockSizes = false → 4 ∣ le m (off + 4) 4)
      (hrest : Table pcd m top fin (off + blockLength pcd (le m (off + 4) 4)) es) :
      Table pcd m top fin off (blockEntries m off ++ es)

section
variable {pcd : Pcd} {m : Mem} {top : Nat}

/-- two readings of a directory that both reach its last eight bytes are the same -/
lemma Table.unique {fin fin' off : Nat} {es es' : List (Nat × Nat)}
    (h : Table pcd m top fin off es) (h' : Table pcd m top fin' off es')
    (hfin : top < fin + sizeofBaseRelocationBlock) (hfin' : top < fin' + sizeofBaseRelocationBlock) :
    fin = fin' ∧ es = es' := by
  induction h generalizing es' with
  | done =>
    cases h' with
    | done => exact ⟨rfl, rfl⟩
    | block _ _ hhdr => omega
  | block off es hhdr hmin hfit halign hrest ih =>
    cases h' with
    | done => omega
    | block _ es' _ _ _ _ hrest' =>
      obtain ⟨h1, h2⟩ := ih hrest'
      exact ⟨h1, by rw [h2]⟩

lemma Table.single {off : Nat} (hhdr : off + sizeofBaseRelocationBlock ≤ top)
    (hmin : sizeofBaseRelocationBlock ≤ le m (off + 4) 4) (hfit : off + le m (off + 4) 4 ≤ top)
    (halign : pcd.relocationBlockSizes = false → 4 ∣ le m (off + 4) 4) :
    Table pcd m top (off + blockLength pcd (le m (off + 4) 4)) off (blockEntries m off) := by
  have h := Table.block off [] hhdr hmin hfit halign .done
  rwa [append_nil] at h

lemma Table.append {fin mid off : Nat} {es fs : List (Nat × Nat)}
    (h : Table pcd m top mid off es) (h' : Table pcd m top fin mid fs) :
    Table pcd m top fin off (es ++ fs) := by
  induction h with
  | done => exact h'
  | block off es hhdr hmin hfit halign _ ih =>
    rw [append_assoc]
    exact .block off _ hhdr hmin hfit halign ih

lemma le_tableEnd (pcd : Pcd) (top : Nat) : top ≤ tableEnd pcd top := by
  unfold tableEnd
  split
  · exact le_rfl
  · exact le_roundUp _ (by norm_num)

lemma size_le_blockLength (pcd : Pcd) (size : Nat) : size ≤ blockLength pcd size := by
  unfold blockLength
  split
  · exact le_rfl
  · exact le_roundUp _ (by norm_num)

lemma tableEnd_lt (pcd : Pcd) (top : Nat) : tableEnd pcd top < top + 4 := by
  unfold tableEnd
  split
  · exact Nat.lt_add_of_pos_right (by norm_num)
  · exact roundUp_lt _ (by norm_num)

/-- a block that fits leaves an aligned position for the next one -/
lemma blockLength_spec {off size : Nat} (hoff : 4 ∣ off) (hfit : off + size ≤ top)
    (halign : pcd.relocationBlockSizes = false → 4 ∣ size) :
    4 ∣ blockLength pcd size ∧ off + blockLength pcd size ≤ tableEnd pcd top := by
  unfold blockLength tableEnd
  by_cases hs : pcd.relocationBlockSizes = false
  · rw [if_pos hs, if_pos hs]
    exact ⟨halign hs, hfit⟩
  rw [if_neg hs, if_neg hs]
  have h1 := le_roundUp top (show 0 < 4 by norm_num)
  have h2 := dvd_roundUp top 4
  refine ⟨dvd_roundUp _ _, ?_⟩
  have : roundUp size 4 ≤ roundUp top 4 - off := roundUp_le (by norm_num) (Nat.dvd_sub h2 hoff) (by omega)
  omega

variable {es : List (Nat × Nat)} {e : Nat × Nat}

lemma Table.congr {m' : Mem} {lo fin off : Nat} (h : Table pcd m top fin off es)
    (hm : SameOn m m' lo top) (hlo : lo ≤ off) : Table pcd m' top fin off es := by
  induction h with
  | done => exact .done
  | block off es hhdr hmin hfit halign _ ih =>
    have h8 : off + 8 ≤ top := hhdr
    have hsize : le m (off + 4) 4 = le m' (off + 4) 4 := le_congr (hm.mono (by omega) (by omega))
    have hentry : blockEntries m off = blockEntries m' off := by
      unfold blockEntries
      rw [← hsize]
      apply map_congr_left
      intro i hi
      have hi' : i < (le m (off + 4) 4 - 8) / 2 := mem_range.mp hi
      have hreloc : le m (off + sizeofBaseRelocationBlock + 2 * i) 2 =
          le m' (off + sizeofBaseRelocationBlock + 2 * i) 2 :=
        le_congr (hm.mono (by omega) (show off + 8 + 2 * i + 2 ≤ top by omega))
      unfold entryAt
      rw [hreloc, le_congr (hm.mono hlo (by omega))]
    rw [hentry]
    rw [hsize] at hmin hfit halign ih
    exact .block off es hhdr hmin hfit halign (ih (by omega))

lemma Table.length_le {fin off : Nat} (h : Table pcd m top fin off es) :
    off + 2 * es.length ≤ fin := by
  induction h with
  | done => exact le_rfl
  | block off es hhdr hmin hfit halign _ ih =>
    have hlen := size_le_blockLength pcd (le m (off + 4) 4)
    have hn : (blockEntries m off).length = (le m (off + 4) 4 - 8) / 2 := by
      unfold blockEntries
      rw [length_map, length_range]
      rfl
    rw [length_append, hn]
    omega

/-! ## targets -/

/-- how a relocation type encodes the address it relocates -/
def relocCell (type : Nat) : Option Cell :=
  if type = relBasedHighlow then some (Cell.word 4)
  else if type = relBasedDir64 then some (Cell.word 8)
  else if type = relBasedArmMov32t then some thumbCell
  else none

def targetOf (e : Nat × Nat) : Option Target := (relocCell e.1).map fun c => ⟨c, e.2⟩

def targets (es : List (Nat × Nat)) : List Target := es.filterMap targetOf

def EntryOk (pcd : Pcd) (ctx : PeContext) (e : Nat × Nat) : Prop :=
  e.1 = relBasedAbsolute ∨ ∃ t, targetOf e = some t ∧ t.addr + t.cell.width ≤ ctx.sizeOfImage ∧
    (t.addr + t.cell.width ≤ ctx.relocDirRva ∨ ctx.relocDirRva + ctx.relocDirSize ≤ t.addr) ∧
    (e.1 = relBasedArmMov32t → relocTypePolicyArm pcd = true ∧ 2 ∣ t.addr)

/-! ## bookkeeping -/

/-- the value kept for an entry once it is applied -/
def recorded (e : Nat × Nat) (m : Mem) : Nat :=
  match targetOf e with
  | none => 0
  | some t => le m t.addr t.cell.width

/-- the bookkeeping after the entries, the first of which has index `k` -/
def fixupsAfter (adjust : Nat) : List (Nat × Nat) → Nat → Mem → (Nat → Nat) → Nat → Nat
  | [], _, _, F => F
  | e :: es, k, m, F =>
    fixupsAfter adjust es (k+1) (shiftAll adjust (targets [e]) m)
      fun i => if i = k then recorded e (shiftAll adjust (targets [e]) m) else F i

def pairsOf : Nat → List (Nat × Nat) → List (Nat × Nat)
  | _, [] => []
  | k, e :: es => if e.1 = relBasedAbsolute then pairsOf (k+1) es else (k, e.2) :: pairsOf (k+1) es

variable {adjust : Nat}

lemma targets_append (es fs : List (Nat × Nat)) : targets (es ++ fs) = targets es ++ targets fs :=
  filterMap_append

lemma targets_cons (e : Nat × Nat) (es : List (Nat × Nat)) :
    targets (e :: es) = targets [e] ++ targets es := targets_append [e] es

lemma fixupsAfter_append (es fs : List (Nat × Nat)) (k : Nat) (m : Mem) (F : Nat → Nat) :
    fixupsAfter adjust (es ++ fs) k m F =
      fixupsAfter adjust fs (k + es.length) (shiftAll adjust (targets es) m) (fixupsAfter adjust es k m F) := by
  induction es generalizing k m F with
  | nil => rfl
  | cons e es ih =>
    show fixupsAfter adjust (es ++ fs) (k+1) _ _ = _
    have hk : k + 1 + es.length = k + (e :: es).length := by
      rw [length_cons]
      omega
    rw [ih, targets_cons e es, shiftAll_append, hk]
    rfl

lemma pairsOf_append (es fs : List (Nat × Nat)) (k : Nat) :
    pairsOf k (es ++ fs) = pairsOf k es ++ pairsOf (k + es.length) fs := by
  induction es generalizing k with
  | nil => rfl
  | cons e es ih =>
    have hk : k + (e :: es).length = k + 1 + es.length := by
      rw [length_cons]
      omega
    rw [hk]
    show (if _ then _ else _) = (if _ then _ else _) ++ _
    by_cases h : e.1 = relBasedAbsolute
    · rw [if_pos h, if_pos h]
      exact ih (k+1)
    · rw [if_neg h, if_neg h, cons_append]
      exact congrArg _ (ih (k+1))

lemma fixupsAfter_of_lt (es : List (Nat × Nat)) {k i : Nat} (m : Mem) (F : Nat → Nat) (hi : i < k) :
    fixupsAfter adjust es k m F i = F i := by
  induction es generalizing k m F with
  | nil => rfl
  | cons e es ih =>
    show fixupsAfter adjust es (k+1) _ _ i = _
    rw [ih _ _ (by omega)]
    exact if_neg (by omega)

lemma recorded_congr {m m' : Mem}
    (h : ∀ t, targetOf e = some t → SameOn m m' t.addr (t.addr + t.cell.width)) :
    recorded e m = recorded e m' := by
  unfold recorded
  cases ht : targetOf e with
  | none => rfl
  | some t => exact le_congr (h t ht)

lemma mem_targets {t : Target} :
    t ∈ targets es ↔ ∃ e, e ∈ es ∧ targetOf e = some t := mem_filterMap

/-- with disjoint targets, an entry records the final value of its target -/
lemma fixupsAfter_get (adjust : Nat) (k : Nat) (m : Mem) (F : Nat → Nat)
    (hd : (targets es).Pairwise fun t u => t.span.Disjoint u.span) {i : Nat} (he : es[i]? = some e) :
    fixupsAfter adjust es k m F (k + i) = recorded e (shiftAll adjust (targets es) m) := by
  induction es generalizing k m F i with
  | nil => cases he
  | cons e' es ih =>
    rw [targets_cons] at hd ⊢
    obtain ⟨-, hd', hcross⟩ := pairwise_append.mp hd
    rw [shiftAll_append]
    show fixupsAfter adjust es (k+1) _ _ (k + i) = _
    cases i with
    | zero =>
      cases he
      rw [fixupsAfter_of_lt _ _ _ (by omega)]
      refine (if_pos rfl).trans (recorded_congr fun t ht => ?_)
      have hmem : t ∈ targets [e] := mem_targets.mpr ⟨e, mem_singleton_self e, ht⟩
      exact (sameOn_shiftAll fun u hu => hcross t hmem u hu).symm
    | succ i =>
      have h := ih (k+1) (shiftAll adjust (targets [e']) m)
        (fun j => if j = k then recorded e' (shiftAll adjust (targets [e']) m) else F j) hd' he
      rwa [show k + 1 + i = k + (i + 1) by omega] at h

end

/-! ## runs -/

/-- `s'` is `s` with the entries applied and, for a runtime image, recorded from index `k` on -/
structure Relocated (adjust : Nat) (runtime : Bool) (k : Nat) (es : List (Nat × Nat))
    (s s' : RelocState) : Prop where
  image : s'.image = shiftAll adjust (targets es) s.image
  fixups : runtime = true → s'.runtime.fixupData = fixupsAfter adjust es k s.image s.runtime.fixupData
  pairs : runtime = true → s'.pairs = (pairsOf k es).reverse ++ s.pairs
  rva : s'.runtime.relocDirRva = s.runtime.relocDirRva
  size : s'.runtime.relocDirSize = s.runtime.relocDirSize

lemma Relocated.refl (adjust : Nat) (runtime : Bool) (k : Nat) (s : RelocState) :
    Relocated adjust runtime k [] s s := ⟨rfl, fun _ => rfl, fun _ => rfl, rfl, rfl⟩

lemma Relocated.of_index {adjust : Nat} {runtime : Bool} {k k' : Nat} {es : List (Nat × Nat)}
    {s s' : RelocState} (h : Relocated adjust runtime k es s s') (hk : runtime = true → k = k') :
    Relocated adjust runtime k' es s s' where
  image := h.image
  fixups := fun hr => hk hr ▸ h.fixups hr
  pairs := fun hr => hk hr ▸ h.pairs hr
  rva := h.rva
  size := h.size

lemma Relocated.append {adjust : Nat} {runtime : Bool} {k : Nat} {es fs : List (Nat × Nat)}
    {s s' s'' : RelocState} (h : Relocated adjust runtime k es s s')
    (h' : Relocated adjust runtime (k + es.length) fs s' s'') : Relocated adjust runtime k (es ++ fs) s s'' where
  image := by rw [h'.image, h.image, targets_append, shiftAll_append]
  fixups := fun hr => by rw [h'.fixups hr, h.fixups hr, h.image, fixupsAfter_append]
  pairs := fun hr => by
    rw [h'.pairs hr, h.pairs hr, pairsOf_append, reverse_append, append_assoc]
  rva := h'.rva.trans h.rva
  size := h'.size.trans h.size

end Audk.PeCoff
