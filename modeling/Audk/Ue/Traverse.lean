import Audk.Ue.RelocateWalk

/-!
# Going through a table without chains

Whoever reads a table without chains goes through its roots and heads in the same way and only differs in what is
done with a fixup.  What holds of each fixup then holds of the whole table.

* `Traversal`: what the action has to satisfy.  The target of the table and the target that the code has reached are
  kept apart: an action may stay behind;
* `Traversal.roots`: the loops over the encoding of a list of roots.
-/

namespace Audk.Ue

open Bytes Prog Arith List

section
variable {σ : Type}

/-- the body of the loop over the heads; `fix` has the type, the target and a local variable as arguments -/
def fixHead (table : RelocTable) (fix : Nat → Nat → Nat → Prog σ Status Nat) (next : Nat → Nat) (t : TableState) :
    Prog σ Status TableState := do
  let relocTarget ← fix (le table.bytes t.tableOffset 2 % 2^4) t.relocTarget t.fixupData
  nextHead table (le table.bytes t.tableOffset 2)
    { t with
      tableOffset := add32 t.tableOffset sizeofUeHead
      relocTarget := relocTarget
      fixupData := next t.fixupData }

def fixRoot (table : RelocTable) (heads : TableState → Prog σ Status TableState) (t : TableState) :
    Prog σ Status TableState := do
  stopIf ((baseOverflowAddU32 t.relocTarget (le table.bytes t.tableOffset 4)).1 = true) .volumeCorrupted
  let t ← repeatWhile (fun t => t.finished = false) heads .aborted (table.size + 2)
    { t with
      tableOffset := add32 t.tableOffset sizeofUeFixupRoot
      relocTarget := (baseOverflowAddU32 t.relocTarget (le table.bytes t.tableOffset 4)).2
      finished := false }
  return { t with tableOffset := alignValue t.tableOffset sizeofUeFixupRoot }

def fixRoots (table : RelocTable) (heads : TableState → Prog σ Status TableState) (fixupData : Nat) :
    Prog σ Status Unit := do
  let _ ← repeatWhile (fun t => t.tableOffset ≤ sub32 table.size minSizeOfUeFixupRoot) (fixRoot table heads) .aborted
    (table.size + 1) ⟨0, 0, fixupData, true⟩
  return ()

lemma Between.six_le {c : RuntimeContext} {rs : List Root} (hc : Between c rs) (hok : ∀ r ∈ rs, r.Ok)
    (h0 : c.unchainedRelocsSize ≠ 0) : 6 ≤ c.unchainedRelocsSize := by
  rw [hc.size] at h0 ⊢
  cases rs with
  | nil => exact absurd rfl h0
  | cons r rs =>
    have hle := r.le_size
    obtain ⟨hs, h, hheads, -, -⟩ := hok r mem_cons_self
    rw [hheads, length_append, length_singleton] at hle
    rw [rootsSize]
    omega

def spotWidth (x : Nat × Nat) : Nat := (relocWidth x.1).getD 0

/-- the action on the fixups `spots` keeps `P`, which speaks of the fixups before, of the target of the table, of
that of the code, of the local variable and of the state -/
structure Traversal (imageSize : Nat) (fix : Nat → Nat → Nat → Prog σ Status Nat) (next : Nat → Nat)
    (spots : List (Nat × Nat)) (P : List (Nat × Nat) → Nat → Nat → Nat → σ → Prop)
    (E : Status → σ → Prop) : Prop where
  image : imageSize + 2^12 ≤ 2^32
  width : ∀ x ∈ spots, relocWidth x.1 = some (spotWidth x)
  fits : ∀ x ∈ spots, x.2 + spotWidth x ≤ imageSize
  behind : ∀ {done u t d s}, P done u t d s → t ≤ u
  advance : ∀ {done x rest u t d s}, spots = done ++ x :: rest → u ≤ x.2 → P done u t d s →
    P done x.2 (t + (x.2 - u)) d s
  step : ∀ {done x rest t d s}, spots = done ++ x :: rest → P done x.2 t d s →
    wp (fix x.1 t d) (fun t' s' => P (done ++ [x]) (x.2 + spotWidth x) t' (next d) s') E s

variable {imageSize : Nat} {fix : Nat → Nat → Nat → Prog σ Status Nat} {next : Nat → Nat}
  {spots : List (Nat × Nat)} {P : List (Nat × Nat) → Nat → Nat → Nat → σ → Prop} {E : Status → σ → Prop}
  {table : RelocTable}

lemma relocWidth_lt {type w : Nat} (h : relocWidth type = some w) : type < 2^4 := by
  by_contra hge
  have h0 : type ≠ ueReloc32 := fun h => hge (h ▸ by decide)
  have h1 : type ≠ ueReloc64 := fun h => hge (h ▸ by decide)
  have h2 : type ≠ ueReloc32NoMeta := fun h => hge (h ▸ by decide)
  unfold relocWidth at h
  rw [if_neg h0, if_neg h1, if_neg h2] at h
  cases h

section
variable (ht : Traversal imageSize fix next spots P E) (hlt : table.size < 2^32)
include ht hlt

variable {done rest : List (Nat × Nat)} {off t u d : Nat} {h : Head}

/-- one head that does not end its root; the target of the next fixup is known -/
lemma Traversal.head_open {y : Nat × Nat} {s : σ}
    (hspots : spots = done ++ (h.relocType, u) :: y :: rest) (hinfo : le table.bytes off 2 = h.info)
    (hoff : off + 4 ≤ table.size) (hopen : h.Open) (hy : y.2 = u + h.width + h.next) (hP : P done u t d s) :
    wp (fixHead table fix next ⟨off, t, d, false⟩) (fun v s' => v.tableOffset = off + 2 ∧ v.finished = false ∧
        P (done ++ [(h.relocType, u)]) y.2 v.relocTarget v.fixupData s') E s := by
  have hmem : (h.relocType, u) ∈ spots := hspots ▸ mem_append_right _ mem_cons_self
  have hymem : y ∈ spots := hspots ▸ mem_append_right _ (mem_cons_of_mem _ mem_cons_self)
  have htype := relocWidth_lt (ht.width _ hmem)
  have hfits := ht.fits _ hymem
  have himage := ht.image
  have hmod : h.info % 2^4 = h.relocType := by
    unfold Head.info
    omega
  have hdiv : h.info / 2^4 = h.next := by
    unfold Head.info
    omega
  have hspots' : spots = (done ++ [(h.relocType, u)]) ++ y :: rest := by
    rw [hspots, append_assoc]
    rfl
  have hne : h.next ≠ ueFixupOffsetEnd := Nat.ne_of_lt hopen
  have hadd : add32 off sizeofUeHead = off + 2 := add32_eq (show off + 2 < 2^32 by omega)
  have h2 : sizeofUeHead = 2 := rfl
  unfold fixHead
  rw [hinfo, hmod, hadd]
  refine wp_seq (ht.step hspots hP) (fun r s' hr => ?_)
  have hr' : P (done ++ [(h.relocType, u)]) (u + h.width) r (next d) s' := hr
  have hle := ht.behind hr'
  unfold nextHead
  rw [hdiv, if_neg hne, wp_bind, wp_stopIf, sub32_eq (by omega) hlt, h2]
  refine ⟨fun hc => absurd hc (by show ¬ table.size - 2 < off + 2; omega), fun _ => ?_⟩
  have hsum : add32 r h.next = r + h.next := add32_eq (by omega)
  rw [wp_pure, hsum]
  have hnext := ht.advance hspots' (by omega) hr'
  rw [hy, Nat.add_sub_cancel_left] at hnext
  refine ⟨rfl, rfl, ?_⟩
  rw [hy]
  exact hnext

lemma Traversal.head_end {s : σ}
    (hspots : spots = done ++ (h.relocType, u) :: rest) (hinfo : le table.bytes off 2 = h.info)
    (hoff : off + 2 ≤ table.size) (hend : h.next = ueFixupOffsetEnd) (hP : P done u t d s) :
    wp (fixHead table fix next ⟨off, t, d, false⟩) (fun v s' => v.tableOffset = off + 2 ∧ v.finished = true ∧
        P (done ++ [(h.relocType, u)]) (u + h.width) v.relocTarget v.fixupData s') E s := by
  have hmem : (h.relocType, u) ∈ spots := hspots ▸ mem_append_right _ mem_cons_self
  have htype := relocWidth_lt (ht.width _ hmem)
  have hmod : h.info % 2^4 = h.relocType := by
    unfold Head.info
    omega
  have hdiv : h.info / 2^4 = h.next := by
    unfold Head.info
    omega
  have hadd : add32 off sizeofUeHead = off + 2 := add32_eq (show off + 2 < 2^32 by omega)
  unfold fixHead
  rw [hinfo, hmod, hadd]
  refine wp_seq (ht.step hspots hP) (fun r s' hr => ?_)
  unfold nextHead
  rw [hdiv, if_pos hend, wp_pure]
  exact ⟨rfl, rfl, hr⟩

lemma Traversal.heads (hend : h.next = ueFixupOffsetEnd) (hs : List Head) (hopen : ∀ x ∈ hs, x.Open) :
    ∀ (fuel off t u d : Nat) (done rest : List (Nat × Nat)) (s : σ),
      spots = done ++ headSpots u (hs ++ [h]) ++ rest → HeadsAt table.bytes off (hs ++ [h]) →
      off + 2 * (hs.length + 1) ≤ table.size → P done u t d s →
      wp (repeatWhile (fun t => t.finished = false) (fixHead table fix next) .aborted (fuel + hs.length + 2)
          ⟨off, t, d, false⟩) (fun v s' => v.tableOffset = off + 2 * (hs.length + 1) ∧
          P (done ++ headSpots u (hs ++ [h])) (headEnd u (hs ++ [h])) v.relocTarget v.fixupData s') E s := by
  -- a finished loop is left at once
  have hleave : ∀ (fuel : Nat) (v : TableState) (s : σ) (Q : TableState → σ → Prop), v.finished = true → Q v s →
      wp (repeatWhile (fun t => t.finished = false) (fixHead table fix next) .aborted (fuel + 1) v) Q E s := by
    intro fuel v s Q hv hQ
    rw [wp_repeatWhile_succ]
    exact ⟨fun hc => absurd (hv.symm.trans hc) (by decide), fun _ => hQ⟩
  induction hs with
  | nil =>
    intro fuel off t u d done rest s hspots hheads hoff hP
    have hadv : h.advance = 0 := if_pos hend
    rw [append_assoc] at hspots
    rw [wp_repeatWhile_succ]
    refine ⟨fun _ => ?_, fun hc => absurd rfl hc⟩
    refine wp_post (ht.head_end hlt hspots hheads.1 (by rw [length_nil] at hoff; omega) hend hP)
      (fun v s' hv => ?_)
    refine hleave _ v s' _ hv.2.1 ⟨hv.1, ?_⟩
    show P (done ++ [(h.relocType, u)]) (u + h.width + h.advance) _ _ _
    rw [hadv]
    exact hv.2.2
  | cons h0 hs ih =>
    intro fuel off t u d done rest s hspots hheads hoff hP
    have hopen0 := hopen h0 mem_cons_self
    have hadv : h0.advance = h0.next := if_neg (Nat.ne_of_lt hopen0)
    rw [length_cons] at hoff
    -- the fixup of the next head
    obtain ⟨y, zs, hzs, hy⟩ : ∃ y zs, headSpots (u + h0.width + h0.advance) (hs ++ [h]) = y :: zs ∧
        y.2 = u + h0.width + h0.next := by
      cases hs with
      | nil => exact ⟨_, _, rfl, by rw [hadv]⟩
      | cons h1 hs => exact ⟨_, _, rfl, by rw [hadv]⟩
    have hspots1 : spots = done ++ (h0.relocType, u) :: y :: (zs ++ rest) := by
      rw [hspots, append_assoc]
      show done ++ ((h0.relocType, u) :: headSpots (u + h0.width + h0.advance) (hs ++ [h]) ++ rest) = _
      rw [hzs]
      rfl
    have hspots2 : spots = (done ++ [(h0.relocType, u)]) ++
        headSpots (u + h0.width + h0.advance) (hs ++ [h]) ++ rest := by
      rw [hspots, append_assoc done [_]]
      rfl
    rw [show fuel + (h0 :: hs).length + 2 = (fuel + hs.length + 2) + 1 by rw [length_cons]; omega,
      wp_repeatWhile_succ]
    refine ⟨fun _ => ?_, fun hc => absurd rfl hc⟩
    refine wp_post (ht.head_open hlt hspots1 hheads.1 (by omega) hopen0 hy hP) (fun v s' hv => ?_)
    obtain ⟨off', t', d', fin'⟩ := v
    obtain ⟨rfl, rfl, hvP⟩ : off' = off + 2 ∧ fin' = false ∧ P (done ++ [(h0.relocType, u)]) y.2 t' d' s' := hv
    rw [hy, ← hadv] at hvP
    refine wp_post (ih (fun z hz => hopen z (mem_cons_of_mem _ hz)) fuel (off + 2) t' _ d' _ _ _
      hspots2 hheads.2 (by omega) hvP) (fun v' s'' hv' => ⟨?_, ?_⟩)
    · rw [hv'.1, length_cons]
      omega
    · rw [append_assoc done [_]] at hv'
      exact hv'.2

lemma Traversal.root {r : Root} (hok : r.Ok) {fin : Bool} {s : σ}
    (hspots : spots = done ++ headSpots (u + r.first) r.heads ++ rest) (hroot : RootAt table.bytes off r)
    (h4 : 4 ∣ off) (hoff : off + r.size ≤ table.size) (hP : P done u t d s) :
    wp (fixRoot table (fixHead table fix next) ⟨off, t, d, fin⟩) (fun v s' => v.tableOffset = off + r.size ∧
        P (done ++ headSpots (u + r.first) r.heads) (headEnd (u + r.first) r.heads) v.relocTarget v.fixupData s')
      E s := by
  obtain ⟨hs, h, hheads, hend, hopen⟩ := hok
  have hsize := r.le_size
  have hlen : r.heads.length = hs.length + 1 := by rw [hheads, length_append]; rfl
  have himage := ht.image
  have hbehind := ht.behind hP
  -- the fixup of the first head
  obtain ⟨y, zs, hzs, hy⟩ : ∃ y zs, headSpots (u + r.first) r.heads = y :: zs ∧ y.2 = u + r.first := by
    rw [hheads]
    cases hs with
    | nil => exact ⟨_, _, rfl, rfl⟩
    | cons h1 hs => exact ⟨_, _, rfl, rfl⟩
  have hspots1 : spots = done ++ y :: (zs ++ rest) := by
    rw [hspots, hzs, append_assoc]
    rfl
  have hymem : y ∈ spots := hspots1 ▸ mem_append_right _ mem_cons_self
  have hfits := ht.fits _ hymem
  have hfirst := ht.advance hspots1 (by omega) hP
  rw [hy, Nat.add_sub_cancel_left] at hfirst
  have hov : (baseOverflowAddU32 t r.first).1 = false := baseOverflowAddU32_fst.mpr (by omega)
  have hoff4 : add32 off sizeofUeFixupRoot = off + 4 := add32_eq (show off + 4 < 2^32 by omega)
  have halign : alignValue (off + 4 + 2 * (hs.length + 1)) sizeofUeFixupRoot = off + r.size := by
    have hround : roundUp (off + (4 + 2 * r.heads.length)) 4 = off + r.size := roundUp_add _ (by decide) h4
    have hlt' : roundUp (off + (4 + 2 * r.heads.length)) 4 < 2^32 := by omega
    rw [show off + 4 + 2 * (hs.length + 1) = off + (4 + 2 * r.heads.length) by rw [hlen]; omega]
    exact (alignValue_eq (by decide) (by decide) (by omega) hlt').trans hround
  have hhd := hroot.2
  unfold fixRoot
  rw [wp_bind, wp_stopIf, hroot.1, hov, baseOverflowAddU32_snd hov, hoff4]
  refine ⟨fun hc => absurd hc Bool.false_ne_true, fun _ => ?_⟩
  rw [hheads] at hspots hhd
  rw [wp_bind, show table.size + 2 = (table.size - hs.length) + hs.length + 2 by omega]
  refine wp_post (ht.heads hlt hend hs hopen _ (off + 4) (t + r.first) (u + r.first) d done rest s hspots hhd
    (by omega) hfirst) (fun v s' hv => ?_)
  rw [wp_pure, hheads]
  refine ⟨?_, hv.2⟩
  show alignValue v.tableOffset sizeofUeFixupRoot = _
  rw [hv.1, halign]

lemma Traversal.rootLoop (hmin : 6 ≤ table.size) (rs : List Root) (hok : ∀ r ∈ rs, r.Ok) :
    ∀ (fuel off t u d : Nat) (fin : Bool) (done : List (Nat × Nat)) (s : σ),
      spots = done ++ rootSpots u rs → RootsAt table.bytes off rs → 4 ∣ off → off + rootsSize rs = table.size →
      P done u t d s → wp (repeatWhile (fun t => t.tableOffset ≤ sub32 table.size minSizeOfUeFixupRoot)
          (fixRoot table (fixHead table fix next)) .aborted (fuel + rs.length + 1) ⟨off, t, d, fin⟩)
        (fun _ s' => ∃ t' d', P spots (rootEnd u rs) t' d' s') E s := by
  have hsub : sub32 table.size minSizeOfUeFixupRoot = table.size - 6 := sub32_eq hmin hlt
  induction rs with
  | nil =>
    intro fuel off t u d fin done s hspots hroots h4 hoff hP
    have hall : spots = done := hspots.trans (append_nil _)
    have hout : ¬ off ≤ sub32 table.size minSizeOfUeFixupRoot := by
      have : off = table.size := hoff
      omega
    rw [wp_repeatWhile_succ]
    exact ⟨fun hc => absurd hc hout, fun _ => ⟨t, d, hall ▸ hP⟩⟩
  | cons r rs ih =>
    intro fuel off t u d fin done s hspots hroots h4 hoff hP
    have hsize := r.le_size
    rw [rootsSize] at hoff
    have hin : off ≤ sub32 table.size minSizeOfUeFixupRoot := by
      obtain ⟨hs, h, hheads, _, _⟩ := hok r mem_cons_self
      rw [hheads, length_append, length_singleton] at hsize
      omega
    rw [rootSpots] at hspots
    have hspots' : spots = done ++ headSpots (u + r.first) r.heads ++
        rootSpots (headEnd (u + r.first) r.heads) rs := by rw [hspots, append_assoc]
    rw [wp_repeatWhile_succ]
    refine ⟨fun _ => ?_, fun hc => absurd hin hc⟩
    refine wp_post (ht.root hlt (hok r mem_cons_self) hspots' hroots.1 h4 (by omega) hP) (fun v s' hv => ?_)
    obtain ⟨off', t', d', fin'⟩ := v
    obtain ⟨rfl, hvP⟩ := hv
    exact ih (fun r hr => hok r (mem_cons_of_mem _ hr)) fuel (off + r.size) t' _ d' fin' _ _ hspots' hroots.2
      ((Nat.dvd_add_right h4).mpr (dvd_roundUp _ _)) (by omega) hvP

/-- **a table that encodes a list of roots is gone through to its end** -/
theorem Traversal.roots (hmin : 6 ≤ table.size) {rs : List Root} (hok : ∀ r ∈ rs, r.Ok)
    (hspots : spots = rootSpots 0 rs) (hroots : RootsAt table.bytes 0 rs) (hsize : rootsSize rs = table.size)
    (d : Nat) (s : σ) (hP : P [] 0 0 d s) :
    wp (fixRoots table (fixHead table fix next) d) (fun _ s' => ∃ u t' d', P spots u t' d' s') E s := by
  have hfuel : table.size + 1 = (table.size - rs.length) + rs.length + 1 := by
    have := length_le_rootsSize rs
    omega
  unfold fixRoots
  rw [wp_bind, hfuel]
  refine wp_post (ht.rootLoop hlt hmin rs hok _ 0 0 0 d true [] s hspots hroots (dvd_zero 4)
    ((Nat.zero_add _).trans hsize) hP) (fun _ s' h => ?_)
  exact ⟨_, h⟩

end

end

end Audk.Ue
