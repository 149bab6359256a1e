import Audk.PeCoff.Hash
import Audk.PeCoff.InitContract

/-!
# The hashed ranges of a file

`PcdImageLoaderHashProhibitOverlap` makes the loop over the sorted sections stop at a section that starts before
the end of the previous one.  Sections without data take part in that test.

* `hashedRanges`: the reference, for the sections with data in ascending order;
* `peCoffHashImageAuthenticode_contract_iff`: the function follows the reference, except for sections without data.
-/

namespace Audk.PeCoff

open Bytes Prog List Nat

/-! ## the sorted table -/

def SectionHeader.rawTop (s : SectionHeader) : Nat := s.pointerToRawData + s.sizeOfRawData

lemma insertSection_perm (s : SectionHeader) (table : List SectionHeader) :
    (insertSection s table).Perm (table ++ [s]) := by
  induction table with
  | nil => exact List.Perm.refl _
  | cons t ts ih =>
    unfold insertSection
    split
    · exact ih.cons t
    · exact (perm_append_singleton s (t :: ts)).symm

def tableOf (ss : List SectionHeader) : List SectionHeader := ss.foldl (fun table s => insertSection s table) []

lemma tableOf_append (ss : List SectionHeader) (s : SectionHeader) :
    tableOf (ss ++ [s]) = insertSection s (tableOf ss) := by
  simp [tableOf]

lemma sortedSections_perm (ss : List SectionHeader) : (sortedSections ss).Perm ss := by
  refine (reverse_perm _).trans ?_
  show (tableOf ss).Perm ss
  induction ss using List.reverseRecOn with
  | nil => exact List.Perm.refl _
  | append_singleton ss s ih =>
    rw [tableOf_append]
    exact (insertSection_perm s _).trans (ih.append_right [s])

lemma insertSection_descending {s : SectionHeader} {table : List SectionHeader}
    (h : table.Pairwise fun a b => b.pointerToRawData ≤ a.pointerToRawData) :
    (insertSection s table).Pairwise fun a b => b.pointerToRawData ≤ a.pointerToRawData := by
  induction table with
  | nil => exact pairwise_singleton _ _
  | cons t ts ih =>
    obtain ⟨ht, hts⟩ := pairwise_cons.mp h
    unfold insertSection
    split
    next hgt =>
      refine pairwise_cons.mpr ⟨fun b hb => ?_, ih hts⟩
      rcases mem_insertSection.mp hb with rfl | hb
      · exact le_of_lt hgt
      · exact ht b hb
    next hle =>
      refine pairwise_cons.mpr ⟨fun b hb => ?_, h⟩
      have hts : t.pointerToRawData ≤ s.pointerToRawData := not_lt.mp hle
      rcases mem_cons.mp hb with rfl | hb
      · exact hts
      · exact (ht b hb).trans hts

lemma sortedSections_ascending (ss : List SectionHeader) :
    (sortedSections ss).Pairwise fun a b => a.pointerToRawData ≤ b.pointerToRawData := by
  refine pairwise_reverse.mpr ?_
  show (tableOf ss).Pairwise _
  induction ss using List.reverseRecOn with
  | nil => exact List.Pairwise.nil
  | append_singleton ss s ih =>
    rw [tableOf_append]
    exact insertSection_descending ih

lemma insertSection_filter (s : SectionHeader) (p : Nat) (table : List SectionHeader) :
    (insertSection s table).filter (fun t => t.pointerToRawData = p) =
      [s].filter (fun t => t.pointerToRawData = p) ++ table.filter (fun t => t.pointerToRawData = p) := by
  induction table with
  | nil => simp [insertSection]
  | cons t ts ih =>
    unfold insertSection
    split
    next hgt =>
      rw [filter_cons, ih]
      by_cases hs : s.pointerToRawData = p
      · have ht : t.pointerToRawData ≠ p := by omega
        simp [hs, ht]
      · simp [hs, filter_cons]
    next => rw [← filter_append, singleton_append]

lemma sortedSections_filter (p : Nat) (ss : List SectionHeader) :
    (sortedSections ss).filter (fun t => t.pointerToRawData = p) = ss.filter (fun t => t.pointerToRawData = p) := by
  show (tableOf ss).reverse.filter _ = _
  rw [filter_reverse, reverse_eq_iff]
  induction ss using List.reverseRecOn with
  | nil => rfl
  | append_singleton ss s ih =>
    rw [tableOf_append, insertSection_filter, ih, filter_append, reverse_append]
    congr 1
    by_cases hs : s.pointerToRawData = p <;> simp [hs]

/-! ## the test of the loop -/

/-- no section of the sorted table starts before the end of an earlier one -/
def Clear (ss : List SectionHeader) : Prop := (sortedSections ss).Pairwise fun a b => a.rawTop ≤ b.pointerToRawData

def withData (ss : List SectionHeader) : List SectionHeader := ss.filter fun s => 0 < s.sizeOfRawData

def RawDisjoint (ss : List SectionHeader) : Prop :=
  (withData ss).Pairwise fun a b => a.rawTop ≤ b.pointerToRawData ∨ b.rawTop ≤ a.pointerToRawData

/-- a section without data that starts inside the data of another section starts with it and stands before it -/
def EmptyApart (ss : List SectionHeader) : Prop :=
  ∀ a ∈ ss, ∀ b ∈ ss, b.sizeOfRawData = 0 → a.pointerToRawData ≤ b.pointerToRawData →
    b.pointerToRawData < a.rawTop → a.pointerToRawData = b.pointerToRawData ∧ ¬ List.Sublist [a, b] ss

section
variable {ss : List SectionHeader} {a b : SectionHeader}

lemma pair_sublist_sorted (ha : a ∈ ss) (hb : b ∈ ss) (hlt : a.pointerToRawData < b.pointerToRawData) :
    List.Sublist [a, b] (sortedSections ss) := by
  obtain ⟨l, r, hlr⟩ := append_of_mem (mem_sortedSections.mpr ha)
  have hasc := sortedSections_ascending ss
  have hb' := mem_sortedSections.mpr hb
  rw [hlr] at hasc hb' ⊢
  rcases mem_append.mp hb' with hl | hr
  · have := (pairwise_append.mp hasc).2.2 b hl a mem_cons_self
    omega
  · rcases mem_cons.mp hr with rfl | hr
    · omega
    · exact (List.Sublist.cons_cons a (singleton_sublist.mpr hr)).trans (sublist_append_right l _)

lemma pair_sublist_same (h : a.pointerToRawData = b.pointerToRawData) :
    List.Sublist [a, b] (sortedSections ss) ↔ List.Sublist [a, b] ss := by
  have key : ∀ l : List SectionHeader, List.Sublist [a, b] l ↔
      List.Sublist [a, b] (l.filter fun t => t.pointerToRawData = a.pointerToRawData) := by
    intro l
    refine ⟨fun hl => ?_, fun hl => hl.trans filter_sublist⟩
    have := hl.filter fun t => t.pointerToRawData = a.pointerToRawData
    simpa [h] using this
  rw [key, sortedSections_filter, ← key]

lemma clear_disjoint (h : Clear ss) : RawDisjoint ss := by
  have hsym : (sortedSections ss).Pairwise fun a b =>
      a.rawTop ≤ b.pointerToRawData ∨ b.rawTop ≤ a.pointerToRawData := h.imp Or.inl
  exact ((sortedSections_perm ss).pairwise_iff Or.symm |>.mp hsym).filter _

lemma clear_emptyApart (h : Clear ss) : EmptyApart ss := by
  intro a ha b hb hb0 hle hlt
  rw [Clear, pairwise_iff_forall_sublist] at h
  have hno : ¬ List.Sublist [a, b] (sortedSections ss) := fun hs => absurd (h hs) (not_le.mpr hlt)
  rcases lt_or_eq_of_le hle with hptr | hptr
  · exact absurd (pair_sublist_sorted ha hb hptr) hno
  · exact ⟨hptr, fun hs => hno ((pair_sublist_same hptr).mpr hs)⟩

lemma clear_of_apart (hd : RawDisjoint ss) (he : EmptyApart ss) : Clear ss := by
  have hasc := sortedSections_ascending ss
  rw [pairwise_iff_forall_sublist] at hasc
  rw [Clear, pairwise_iff_forall_sublist]
  intro a b hs
  have hle := hasc hs
  have hmem : ∀ x ∈ [a, b], x ∈ ss := fun x hx => mem_sortedSections.mp (hs.subset hx)
  have ha := hmem a mem_cons_self
  have hb := hmem b (mem_cons_of_mem _ mem_cons_self)
  by_contra hnot
  have hlt := not_le.mp hnot
  by_cases hb0 : b.sizeOfRawData = 0
  · obtain ⟨hptr, hno⟩ := he a ha b hb hb0 hle hlt
    exact hno ((pair_sublist_same hptr).mp hs)
  by_cases ha0 : a.sizeOfRawData = 0
  · rw [SectionHeader.rawTop, ha0] at hlt
    omega
  -- both have data: the symmetric relation holds in the sorted order as well
  have hperm : ((sortedSections ss).filter fun s => 0 < s.sizeOfRawData).Perm (withData ss) :=
    (sortedSections_perm ss).filter _
  have hd' := (hperm.pairwise_iff Or.symm).mpr hd
  rw [pairwise_iff_forall_sublist] at hd'
  have hpair : List.Sublist [a, b] ((sortedSections ss).filter fun s => 0 < s.sizeOfRawData) := by
    have := hs.filter fun s => 0 < s.sizeOfRawData
    simpa [pos_of_ne_zero ha0, pos_of_ne_zero hb0] using this
  rcases hd' hpair with h | h
  · omega
  · unfold SectionHeader.rawTop at h
    omega

lemma clear_iff : Clear ss ↔ RawDisjoint ss ∧ EmptyApart ss :=
  ⟨fun h => ⟨clear_disjoint h, clear_emptyApart h⟩, fun h => clear_of_apart h.1 h.2⟩

/-! ## the reference -/

def SectionHeader.rawRange (s : SectionHeader) : Span := ⟨s.pointerToRawData, s.sizeOfRawData⟩

def rawSum (ss : List SectionHeader) : Nat := (ss.map SectionHeader.sizeOfRawData).sum

def headerRanges (f : File) : List Span :=
  ⟨0, exeHdrOffset f + offsetofCheckSum⟩ ::
    if directoryEntrySecurity < numberOfRvaAndSizes f then
      [⟨exeHdrOffset f + offsetofCheckSum + 4,
        dirEntry f directoryEntrySecurity - (exeHdrOffset f + offsetofCheckSum + 4)⟩,
       ⟨dirEntry f directoryEntrySecurity + sizeofDataDirectory,
        sizeOfHeaders f - (dirEntry f directoryEntrySecurity + sizeofDataDirectory)⟩]
    else [⟨exeHdrOffset f + offsetofCheckSum + 4, sizeOfHeaders f - (exeHdrOffset f + offsetofCheckSum + 4)⟩]

/-- the data behind the `sum` bytes that are hashed, without the certificates -/
def trailerRanges (f : File) (sum : Nat) : List Span :=
  if sum < f.size - dirSize f directoryEntrySecurity then
    [⟨sum, f.size - dirSize f directoryEntrySecurity - sum⟩] else []

/-- all ranges, for the sections with data in the given order -/
def hashedRanges (f : File) (order : List SectionHeader) : List Span :=
  headerRanges f ++ order.map SectionHeader.rawRange ++ trailerRanges f (rawSum order + sizeOfHeaders f)

def rangeData (f : File) (r : Span) : List UInt8 := chunk f.bytes r.off r.len

/-- the data of the sections is disjoint, and its size fits with that of the headers -/
structure Hashable (f : File) (ctx : PeContext) : Prop where
  disjoint : RawDisjoint (sectionTable f ctx)
  fits : rawSum (withData (sectionTable f ctx)) + ctx.sizeOfHeaders < 2^32

/-- what a call does with a `HashUpdate` that does not fail -/
structure HashContract {η : Type} (f : File) (ctx : PeContext) (r : Except Unit Unit × HashState η) : Prop where
  ok_iff : r.1 = .ok () ↔ Hashable f ctx
  stream : r.1 = .ok () → ∃ order : List SectionHeader, order.Perm (withData (sectionTable f ctx)) ∧
    (order.Pairwise fun a b => a.rawTop ≤ b.pointerToRawData) ∧
    r.2.ranges = hashedRanges f order ∧ r.2.fed = (hashedRanges f order).flatMap (rangeData f)
  inFile : ∀ s ∈ r.2.ranges, s.Within 0 f.size

/-! ## runs -/

variable {η : Type} {pcd : Pcd} {update : HashUpdate η} {f : File} {ctx : PeContext} {s s' s'' : HashState η}

/-- between two states, the given ranges were hashed -/
structure Hashed (f : File) (s s' : HashState η) (rs : List Span) : Prop where
  ranges : s'.ranges = s.ranges ++ rs
  fed : s'.fed = s.fed ++ rs.flatMap (rangeData f)

lemma Hashed.nil : Hashed f s s [] := ⟨(append_nil _).symm, (append_nil _).symm⟩

lemma Hashed.trans {rs rs' : List Span} (h : Hashed f s s' rs) (h' : Hashed f s' s'' rs') :
    Hashed f s s'' (rs ++ rs') where
  ranges := by rw [h'.ranges, h.ranges, append_assoc]
  fed := by rw [h'.fed, h.fed, append_assoc, flatMap_append]

lemma wp_hashRange_true (hup : ∀ c d, (update c d).1 = true) {off len : Nat} {Q : Bool → HashState η → Prop}
    {E : Unit → HashState η → Prop} (h : ∀ s', Hashed f s s' [⟨off, len⟩] → Q true s') :
    wp (hashRange update f off len) Q E s := by
  have hres : hashRange update f off len s = (.ok true,
      ⟨(update s.context (chunk f.bytes off len)).2, s.fed ++ chunk f.bytes off len, s.ranges ++ [⟨off, len⟩]⟩) := by
    unfold hashRange
    rw [hup]
  exact wp_of_ok hres (h _ ⟨rfl, by rw [flatMap_singleton]; rfl⟩)

lemma hashHeaders_ranges (h : Accepted pcd f ctx) (hup : ∀ c d, (update c d).1 = true) :
    wp (hashHeaders update f ctx (numberOfRvaAndSizes f)) (fun _ s' => Hashed f s s' (headerRanges f))
      (fun _ _ => False) s := by
  obtain ⟨h1, h2, h3, h4, h5⟩ := h.header_order
  have hlt := f.size_lt
  have hsec : exeHdrOffset f + (peType f).sizeofNtHeaders + sizeofDataDirectory * directoryEntrySecurity =
    dirEntry f directoryEntrySecurity := rfl
  unfold hashHeaders headerRanges
  rw [h.exe, h.type, h.hdrs, hsec, wp_bind]
  refine wp_hashRange_true hup fun s1 hs1 => ?_
  refine wp_stopIf_bind nofun fun _ => ?_
  rw [wp_bind, wp_ite]
  refine ⟨fun hn => ?_, fun hn => ?_⟩
  · have h6 := h5 hn
    have h7 : exeHdrOffset f + offsetofCheckSum + 4 ≤ dirEntry f directoryEntrySecurity := by
      omega
    rw [if_pos hn, sub32_eq h7 (by omega), wp_bind]
    refine wp_hashRange_true hup fun s2 hs2 => ?_
    refine wp_stopIf_bind nofun fun _ => ?_
    rw [wp_pure, wp_bind, sub32_eq (by omega) (by omega)]
    refine wp_hashRange_true hup fun s3 hs3 => ?_
    rw [wp_stopIf]
    exact ⟨nofun, fun _ => hs1.trans (hs2.trans hs3)⟩
  · rw [if_neg hn, wp_pure, wp_bind, sub32_eq (by omega) (by omega)]
    refine wp_hashRange_true hup fun s2 hs2 => ?_
    rw [wp_stopIf]
    exact ⟨nofun, fun _ => hs1.trans hs2⟩

lemma withData_append (ss : List SectionHeader) (x : SectionHeader) :
    withData (ss ++ [x]) = withData ss ++ withData [x] := filter_append ..

lemma rawSum_append (ss : List SectionHeader) (x : SectionHeader) :
    rawSum (ss ++ [x]) = rawSum ss + x.sizeOfRawData := by
  simp [rawSum]

lemma rawSum_withData (ss : List SectionHeader) : rawSum (withData ss) = rawSum ss := by
  induction ss with
  | nil => rfl
  | cons x xs ih =>
    unfold withData rawSum at *
    by_cases hx : 0 < x.sizeOfRawData
    · simp [hx, ih]
    · simp [ih, Nat.eq_zero_of_not_pos hx]

/-- the data of a section lies in the file; offsets are `UINT32` -/
def RawOk (f : File) (x : SectionHeader) : Prop :=
  x.pointerToRawData < 2^32 ∧ (0 < x.sizeOfRawData → x.rawTop ≤ f.size)

variable {x : SectionHeader} {done : List SectionHeader} {sizes : Nat × Nat}

lemma RawOk.top_lt (h : RawOk f x) : x.rawTop < 2^32 := by
  have hlt := f.size_lt
  rcases Nat.eq_zero_or_pos x.sizeOfRawData with h0 | h0
  · rw [SectionHeader.rawTop, h0]
    exact h.1
  · exact lt_of_le_of_lt (h.2 h0) hlt

/-- the loop over the sorted sections, after those in `done`; the pair is `SectionTop` and `CurHashSize` -/
structure HashInv (f : File) (s : HashState η) (done : List SectionHeader) (sizes : Nat × Nat)
    (s' : HashState η) : Prop where
  clear : done.Pairwise fun a b => a.rawTop ≤ b.pointerToRawData
  top : ∀ x ∈ done, x.rawTop ≤ sizes.1
  last : sizes.1 = 0 ∨ ∃ x ∈ done, sizes.1 = x.rawTop
  sum : sizes.2 = rawSum done
  sum_le : sizes.2 ≤ sizes.1
  hashed : Hashed f s s' ((withData done).map SectionHeader.rawRange)

lemma HashInv.next
    (h : HashInv f s done sizes s') (hle : sizes.1 ≤ x.pointerToRawData)
    (hs : Hashed f s' s'' ((withData [x]).map SectionHeader.rawRange)) :
    HashInv f s (done ++ [x]) (x.rawTop, sizes.2 + x.sizeOfRawData) s'' where
  clear := pairwise_append.mpr ⟨h.clear, pairwise_singleton _ _, fun a ha b hb => by
    rw [mem_singleton.mp hb]
    exact (h.top a ha).trans hle⟩
  top y hy := by
    rcases mem_append.mp hy with hy | hy
    · exact (h.top y hy).trans (hle.trans (le_add_right _ _))
    · rw [mem_singleton.mp hy]
  last := .inr ⟨x, mem_append_right _ mem_cons_self, rfl⟩
  sum := by rw [h.sum, rawSum_append]
  sum_le := Nat.add_le_add_right (h.sum_le.trans hle) _
  hashed := by
    rw [withData_append, map_append]
    exact h.hashed.trans hs

lemma hashSection_inv (hp : pcd.imageLoaderHashProhibitOverlap = true) (hup : ∀ c d, (update c d).1 = true)
     (h : HashInv f s done sizes s')
    (hx : RawOk f x) : wp (hashSection pcd update f x sizes) (fun r t => HashInv f s (done ++ [x]) r t)
      (fun _ t => t = s' ∧ x.pointerToRawData < sizes.1) s' := by
  have htop := hx.top_lt
  have hadd : add32 x.pointerToRawData x.sizeOfRawData = x.rawTop := add32_eq htop
  refine wp_stopIf_bind (fun hc => ⟨rfl, hc.2⟩) fun hc => ?_
  have hle : sizes.1 ≤ x.pointerToRawData := not_lt.mp fun hlt => hc ⟨hp, hlt⟩
  have hsum : add32 sizes.2 x.sizeOfRawData = sizes.2 + x.sizeOfRawData :=
    add32_eq (lt_of_le_of_lt (Nat.add_le_add_right (h.sum_le.trans hle) _) htop)
  rw [if_pos hp, hadd, wp_ite]
  refine ⟨fun hpos => ?_, fun hz => ?_⟩
  · rw [wp_bind]
    refine wp_hashRange_true hup fun t ht => ?_
    refine wp_stopIf_bind nofun fun _ => ?_
    rw [if_pos hp, hsum, wp_pure]
    refine h.next hle ?_
    have hone : withData [x] = [x] := filter_cons_of_pos (decide_eq_true hpos)
    rw [hone]
    exact ht
  · have h0 : x.sizeOfRawData = 0 := Nat.eq_zero_of_not_pos hz
    have hnone : withData [x] = [] := filter_cons_of_neg (by simpa using h0)
    have hsame : Hashed f s' s' ((withData [x]).map SectionHeader.rawRange) := by
      rw [hnone]
      exact Hashed.nil
    have hnext := h.next hle hsame
    rw [h0] at hnext
    exact hnext

lemma within_of_withData {ss : List SectionHeader} (h : ∀ x ∈ ss, RawOk f x) :
    ∀ r ∈ (withData ss).map SectionHeader.rawRange, r.Within 0 f.size := by
  intro r hr
  obtain ⟨x, hx, rfl⟩ := mem_map.mp hr
  obtain ⟨hx, hpos⟩ := mem_filter.mp hx
  exact Span.within_of_le (zero_le _) ((h x hx).2 (of_decide_eq_true hpos))

lemma forEach_hashSection (hp : pcd.imageLoaderHashProhibitOverlap = true) (hup : ∀ c d, (update c d).1 = true) :
    ∀ (rest done : List SectionHeader) (sizes : Nat × Nat) (s' : HashState η),
      (∀ x ∈ done ++ rest, RawOk f x) → HashInv f s done sizes s' →
      wp (forEach (hashSection pcd update f) rest sizes) (fun r t => HashInv f s (done ++ rest) r t)
        (fun _ t => ¬ ((done ++ rest).Pairwise fun a b => a.rawTop ≤ b.pointerToRawData) ∧
          ∃ rs, Hashed f s t rs ∧ ∀ r ∈ rs, r.Within 0 f.size) s' := by
  intro rest
  induction rest with
  | nil =>
    intro done sizes s' _ h
    rw [append_nil]
    exact h
  | cons x rest ih =>
    intro done sizes s' hok h
    have hsplit : done ++ x :: rest = (done ++ [x]) ++ rest := by simp
    rw [forEach, wp_bind]
    refine wp_mono (hashSection_inv hp hup h (hok x (by simp))) (fun r t ht => ?_) (fun _ t ht => ?_)
    · rw [hsplit] at hok ⊢
      exact ih _ r t hok ht
    · -- `SectionTop` is the end of a section before `x`
      obtain ⟨rfl, hlt⟩ := ht
      refine ⟨fun hclear => ?_, _, h.hashed, within_of_withData fun y hy => hok y (mem_append_left _ hy)⟩
      rcases h.last with h0 | ⟨y, hy, hye⟩
      · omega
      · have := (pairwise_append.mp hclear).2.2 y hy x mem_cons_self
        omega

lemma Accepted.rawOk (h : Accepted pcd f ctx) : ∀ x ∈ sectionTable f ctx, RawOk f x := by
  intro x hx
  obtain ⟨j, hj, rfl⟩ := mem_map.mp hx
  exact ⟨le_lt f.bytes _ 4, h.raw j (mem_range.mp hj)⟩

lemma internalHashSections_ranges (h : Accepted pcd f ctx) (hp : pcd.imageLoaderHashProhibitOverlap = true)
    (hup : ∀ c d, (update c d).1 = true) : wp (internalHashSections pcd update f ctx true)
      (fun n t => Clear (sectionTable f ctx) ∧ n = rawSum (withData (sortedSections (sectionTable f ctx))) ∧
        Hashed f s t ((withData (sortedSections (sectionTable f ctx))).map SectionHeader.rawRange))
      (fun _ t => ¬ Clear (sectionTable f ctx) ∧ ∃ rs, Hashed f s t rs ∧ ∀ r ∈ rs, r.Within 0 f.size) s := by
  refine wp_stopIf_bind nofun fun _ => ?_
  rw [wp_bind]
  have hok : ∀ x ∈ sortedSections (sectionTable f ctx), RawOk f x := fun x hx =>
    h.rawOk x (mem_sortedSections.mp hx)
  refine wp_mono (forEach_hashSection hp hup _ [] (0, 0) s hok
    ⟨List.Pairwise.nil, nofun, .inl rfl, rfl, le_rfl, Hashed.nil⟩) (fun r t ht => ?_) (fun _ t ht => ht)
  rw [wp_pure, rawSum_withData]
  exact ⟨ht.clear, ht.sum, ht.hashed⟩

lemma headerRanges_within (h : Accepted pcd f ctx) : ∀ r ∈ headerRanges f, r.Within 0 f.size := by
  obtain ⟨h1, h2, h3, h4, h5⟩ := h.header_order
  intro r hr
  rcases mem_cons.mp hr with rfl | hr
  · exact Span.within_of_le (zero_le _) (by omega)
  split at hr
  next hn =>
    rcases mem_cons.mp hr with rfl | hr
    · exact Span.within_of_le (zero_le _) (by omega)
    · rw [mem_singleton.mp hr]
      exact Span.within_of_le (zero_le _) (by omega)
  next =>
    rw [mem_singleton.mp hr]
    exact Span.within_of_le (zero_le _) (by omega)

lemma trailerRanges_within (sum : Nat) : ∀ r ∈ trailerRanges f sum, r.Within 0 f.size := by
  intro r hr
  unfold trailerRanges at hr
  split at hr
  · rw [mem_singleton.mp hr]
    exact Span.within_of_le (zero_le _) (by omega)
  · exact absurd hr not_mem_nil

lemma hashedRanges_within (h : Accepted pcd f ctx) {order : List SectionHeader}
    (hperm : order.Perm (withData (sectionTable f ctx))) : ∀ r ∈ hashedRanges f order, r.Within 0 f.size := by
  intro r hr
  rcases mem_append.mp hr with hr | hr
  · rcases mem_append.mp hr with hr | hr
    · exact headerRanges_within h r hr
    · exact within_of_withData h.rawOk r ((hperm.map _).mem_iff.mp hr)
  · exact trailerRanges_within _ r hr

lemma rawSum_sorted (ss : List SectionHeader) : rawSum (withData (sortedSections ss)) = rawSum (withData ss) :=
  (((sortedSections_perm ss).filter _).map _).sum_eq

def hashTrailer (update : HashUpdate η) (f : File) (sizeOfHeaders fileSize sectionBytes : Nat) : Hasher η Unit := do
  stopIf ((baseOverflowAddU32 sectionBytes sizeOfHeaders).1 = true) ()
  if (baseOverflowAddU32 sectionBytes sizeOfHeaders).2 < fileSize then do
    let result ← hashRange update f (baseOverflowAddU32 sectionBytes sizeOfHeaders).2
      (fileSize - (baseOverflowAddU32 sectionBytes sizeOfHeaders).2)
    stopIf (result = false) ()
  else pure ()

lemma peCoffHashImageAuthenticode_eq (h : Accepted pcd f ctx) (allocated : Bool) :
    peCoffHashImageAuthenticode pcd update f ctx allocated =
      hashHeaders update f ctx (numberOfRvaAndSizes f) >>= fun _ =>
        internalHashSections pcd update f ctx allocated >>=
          hashTrailer update f ctx.sizeOfHeaders (f.size - dirSize f directoryEntrySecurity) := by
  have hn : f.u32 (ctx.exeHdrOffset + ctx.imageType.numberOfRvaAndSizes) = numberOfRvaAndSizes f := by
    rw [h.exe, h.type]
    rfl
  have hsec : dirSize f directoryEntrySecurity = if directoryEntrySecurity < numberOfRvaAndSizes f then
      f.u32 (ctx.exeHdrOffset + ctx.imageType.sizeofNtHeaders + sizeofDataDirectory * directoryEntrySecurity + 4)
      else 0 := by
    rw [h.exe, h.type]
    rfl
  have hcert : dirSize f directoryEntrySecurity ≤ f.size := by
    rw [← h.secSize]
    exact le_trans (le_add_left _ _) h.sec.1
  unfold peCoffHashImageAuthenticode
  rw [hn, ← sub32_eq hcert f.size_lt, ← h.fileSize, hsec]
  rfl

lemma hashTrailer_ranges (hup : ∀ c d, (update c d).1 = true) {n hdrs : Nat} :
    wp (hashTrailer update f hdrs (f.size - dirSize f directoryEntrySecurity) n)
      (fun _ t => n + hdrs < 2^32 ∧ Hashed f s t (trailerRanges f (n + hdrs)))
      (fun _ t => ¬ n + hdrs < 2^32 ∧ t = s) s := by
  unfold hashTrailer
  rw [wp_bind, wp_stopIf, ← Bool.not_eq_false, baseOverflowAddU32_fst, not_not]
  refine ⟨fun hov => ⟨hov, rfl⟩, fun hfits => ?_⟩
  rw [baseOverflowAddU32_snd (baseOverflowAddU32_fst.mpr hfits), wp_ite]
  unfold trailerRanges
  refine ⟨fun hlt => ?_, fun hge => ?_⟩
  · rw [if_pos hlt, wp_bind]
    refine wp_hashRange_true hup fun t ht => ?_
    rw [wp_stopIf]
    exact ⟨nofun, fun _ => ⟨hfits, ht⟩⟩
  · rw [if_neg hge]
    exact ⟨hfits, Hashed.nil⟩

def Passes (f : File) (ctx : PeContext) : Prop :=
  Clear (sectionTable f ctx) ∧ rawSum (withData (sectionTable f ctx)) + ctx.sizeOfHeaders < 2^32

lemma peCoffHashImageAuthenticode_ranges (s : HashState η) (h : Accepted pcd f ctx)
    (hp : pcd.imageLoaderHashProhibitOverlap = true) (hup : ∀ c d, (update c d).1 = true) :
    wp (peCoffHashImageAuthenticode pcd update f ctx true)
      (fun _ t => Passes f ctx ∧ Hashed f s t (hashedRanges f (withData (sortedSections (sectionTable f ctx)))))
      (fun _ t => ¬ Passes f ctx ∧ ∃ rs, Hashed f s t rs ∧ ∀ r ∈ rs, r.Within 0 f.size) s := by
  have hperm : (withData (sortedSections (sectionTable f ctx))).Perm (withData (sectionTable f ctx)) :=
    (sortedSections_perm _).filter _
  unfold Passes
  rw [peCoffHashImageAuthenticode_eq h, wp_bind, ← rawSum_sorted]
  refine wp_mono (hashHeaders_ranges h hup) (fun _ s1 hs1 => ?_) (fun _ _ => False.elim)
  rw [wp_bind]
  refine wp_mono (internalHashSections_ranges h hp hup) (fun n s2 hs2 => ?_) (fun _ s2 hs2 => ?_)
  · obtain ⟨hclear, rfl, hs2⟩ := hs2
    have hs := hs1.trans hs2
    refine wp_mono (hashTrailer_ranges hup) (fun _ t ht => ?_) (fun _ t ht => ?_)
    · unfold hashedRanges
      rw [← h.hdrs]
      exact ⟨⟨hclear, ht.1⟩, hs.trans ht.2⟩
    · obtain ⟨hov, rfl⟩ := ht
      exact ⟨fun hc => hov hc.2, _, hs, fun r hr => hashedRanges_within h hperm r (mem_append_left _ hr)⟩
  · obtain ⟨hno, rs, hrs, hin⟩ := hs2
    refine ⟨fun hc => hno hc.1, _, hs1.trans hrs, fun r hr => ?_⟩
    rcases mem_append.mp hr with hr | hr
    · exact headerRanges_within h r hr
    · exact hin r hr

/-- **with a `HashUpdate` that does not fail and overlaps prohibited, the function hashes the reference exactly if
it applies, unless a section without data starts inside the data of another section** -/
theorem peCoffHashImageAuthenticode_contract_iff {arch : Arch} {origin : ImageOrigin} {log : List Span}
    (hrun : peCoffInitializeContext pcd arch origin f [] = (.ok ctx, log))
    (hp : pcd.imageLoaderHashProhibitOverlap = true) (hup : ∀ c d, (update c d).1 = true) (c : η) :
    HashContract f ctx (peCoffHashImageAuthenticode pcd update f ctx true (.start c)) ↔
      (Hashable f ctx → EmptyApart (sectionTable f ctx)) := by
  obtain ⟨-, h⟩ := accepted_of_run hrun
  have hspec := peCoffHashImageAuthenticode_ranges (.start c) h hp hup
  rcases hr : peCoffHashImageAuthenticode pcd update f ctx true (.start c) with ⟨e | u, t⟩
  · obtain ⟨hno, rs, hrs, hin⟩ := wp_error hspec hr
    constructor
    · intro hc hh
      cases hc.ok_iff.mpr hh
    · intro hempty
      refine ⟨⟨nofun, fun hh => ?_⟩, nofun, fun r hr => ?_⟩
      · exact absurd ⟨clear_iff.mpr ⟨hh.disjoint, hempty hh⟩, hh.fits⟩ hno
      · rw [show t.ranges = rs from hrs.ranges] at hr
        exact hin r hr
  · obtain ⟨⟨hclear, hfits⟩, hs⟩ := wp_ok hspec hr
    obtain ⟨hdis, hempty⟩ := clear_iff.mp hclear
    have hranges : t.ranges = _ := hs.ranges
    have hperm : (withData (sortedSections (sectionTable f ctx))).Perm (withData (sectionTable f ctx)) :=
      (sortedSections_perm _).filter _
    refine iff_of_true ⟨iff_of_true rfl ⟨hdis, hfits⟩, fun _ => ?_, fun r hr => ?_⟩ (fun _ => hempty)
    · exact ⟨_, hperm, hclear.filter _, hranges, hs.fed⟩
    · rw [hranges] at hr
      exact hashedRanges_within h hperm r hr

end

/-! ## an image with a section without data -/

/-- a PE32 file with a section of sixteen bytes at `248` and a section without data, with the given offset -/
def bssImage (pointerToRawData : Nat) : File where
  bytes := ofFields [(0, 4, 0x4550), (4, 2, 0x14c), (6, 2, 2), (20, 2, 144), (24, 2, 0x10b),
    (40, 4, 0x1000), (56, 4, 0x1000), (84, 4, 248), (92, 2, 10), (116, 4, 6),
    (176, 4, 0x1000), (180, 4, 0x1000), (184, 4, 16), (188, 4, 248), (204, 4, 0x60000020),
    (216, 4, 0x1000), (220, 4, 0x2000), (228, 4, pointerToRawData), (244, 4, 0xC0000080)]
  size := 264
  size_lt := by norm_num

def bssContext : PeContext :=
  { gapContext with
    fileSize := 264, numberOfSections := 2, sizeOfImage := 0x3000, sizeOfHeaders := 248, relocDirRva := 0,
    relocDirSize := 0 }

lemma bssImage_run :
    (peCoffInitializeContext .default .x64 .userImage (bssImage 0) []).1 = .ok bssContext := by decide +kernel

theorem bssImage_contract : HashContract (bssImage 0) bssContext
    (peCoffHashImageAuthenticode .default (fun c _ => (true, c)) (bssImage 0) bssContext true (.start ())) := by
  refine (peCoffHashImageAuthenticode_contract_iff (Prod.ext bssImage_run rfl) rfl (fun _ _ => rfl) ()).mpr ?_
  intro _ a ha b hb hb0 hle hlt
  have key : ∀ a ∈ sectionTable (bssImage 0) bssContext, ∀ b ∈ sectionTable (bssImage 0) bssContext,
      b.sizeOfRawData = 0 → a.pointerToRawData ≤ b.pointerToRawData → ¬ b.pointerToRawData < a.rawTop := by
    decide +kernel
  exact absurd hlt (key a ha b hb hb0 hle)

/-- the section without data starts inside the other one: hashing fails -/
theorem bssImage_refused :
    (∃ log, peCoffInitializeContext .default .x64 .userImage (bssImage 252) [] = (.ok bssContext, log)) ∧
    Hashable (bssImage 252) bssContext ∧
    (peCoffHashImageAuthenticode .default (fun c _ => (true, c)) (bssImage 252) bssContext true
      (.start ())).1 = .error () := by
  have hrun : (peCoffInitializeContext .default .x64 .userImage (bssImage 252) []).1 = .ok bssContext := by
    decide +kernel
  have hdis : (withData (sectionTable (bssImage 252) bssContext)).Pairwise fun a b =>
      a.rawTop ≤ b.pointerToRawData ∨ b.rawTop ≤ a.pointerToRawData := by decide +kernel
  exact ⟨⟨_, Prod.ext hrun rfl⟩, ⟨hdis, by decide +kernel⟩, by decide +kernel⟩

end Audk.PeCoff
