import Audk.Mem.PageHistory

/-!
# The depth of the stack of new descriptors

A turn of a conversion puts at most two descriptors on `mMapStack`, and the promotion of untested memory one for
each range.  When the stack is freed and no descriptor is left, a page of descriptors is allocated; nothing is
taken from the stack during this, so the descriptors of the promotion and of the conversion come on top.

* `wp_freeStackLoop_shallow`: the loop of `CoreFreeMemoryMapStack`;
* `Quiet`: the state between the turns if at most one range is untested.
-/

namespace Audk.Mem

open Prog Regions List Nat

def untested (arch : Arch) (s : PageState) : Nat := s.mGcdMemorySpaceMap.countP fun g => g.IsPromotable arch

/-- a run stops before the stack is full -/
def Shallow : PageFault → PageState → Prop := fun _ s => s.mMapDepth < maxMapDepth

/-! ## the nested calls -/

/-- at most `c` descriptors were put on the stack, and one for each range that was promoted -/
structure Spent (arch : Arch) (c : Nat) (s s' : PageState) : Prop where
  valid : Valid arch s'
  total : s'.mMapDepth + untested arch s' ≤ s.mMapDepth + untested arch s + c
  untested : untested arch s' ≤ untested arch s

/-- `I` is kept when a range is promoted -/
structure Steady (arch : Arch) (freeStack : PageProg Unit) (I : PageState → Prop) : Prop where
  valid : ∀ s, I s → Valid arch s
  room : ∀ s, I s → 0 < untested arch s → s.mMapDepth + 1 < maxMapDepth
  base : ∀ s base, I s → I { s with mDefaultBaseAddress := base }
  turn : ∀ s t, I s → Valid arch t → t.mMapDepth = s.mMapDepth + 1 → untested arch t + 1 = untested arch s →
    wp freeStack (fun _ => I) Shallow t

section
variable {arch : Arch} {freeStack : PageProg Unit} {I : PageState → Prop} {s t : PageState}

lemma untested_set {i : Nat} {g : GcdMapEntry} (hi : s.mGcdMemorySpaceMap[i]? = some g) (hg : g.IsPromotable arch)
    (ht : t.mGcdMemorySpaceMap = s.mGcdMemorySpaceMap.set i g.promoted) : untested arch t + 1 = untested arch s := by
  obtain ⟨hlt, hget⟩ := List.getElem?_eq_some_iff.mp hi
  have hpos : 0 < s.mGcdMemorySpaceMap.countP fun g => g.IsPromotable arch :=
    countP_pos_iff.mpr ⟨g, mem_of_getElem? hi, decide_eq_true hg⟩
  unfold untested
  rw [ht, countP_set hlt, hget, if_pos (decide_eq_true hg),
    if_neg (by rw [decide_eq_false (not_promotable_promoted g)]; exact Bool.false_ne_true)]
  omega

lemma Steady.promoteMemoryResource (h : Steady arch freeStack I) (hs : I s) :
    wp (promoteMemoryResource arch freeStack) (fun _ => I) Shallow s := by
  unfold Mem.promoteMemoryResource
  rw [wp_bind, wp_gets]
  refine wp_loop _ (fun _ _ => I) 0 _ _ hs fun i promoted t _ _ ht => ?_
  by_cases hpos : 0 < untested arch t
  · refine wp_promoteTurn_midway (.inr (h.room t ht hpos)) (h.valid t ht) promoted (fun _ => ht) ?_
    intro g u hi hg hvalid _ hgcd hdepth
    exact h.turn t u ht hvalid hdepth (untested_set hi hg hgcd)
  -- no range is left
  unfold promoteTurn
  rw [wp_bind, wp_gets]
  cases hi : t.mGcdMemorySpaceMap[i]? with
  | none => exact ht
  | some g =>
    have hg : ¬ g.IsPromotable arch := fun hg =>
      hpos (countP_pos_iff.mpr ⟨g, mem_of_getElem? hi, decide_eq_true hg⟩)
    dsimp only
    rw [if_neg hg]
    exact ht

lemma Steady.findFreePages (h : Steady arch freeStack I) (max pages type align fuel : Nat) (hs : I s) :
    wp (findFreePages arch freeStack max pages type align fuel) (fun start s' => start < 2^64 ∧ I s') Shallow s := by
  induction fuel generalizing s with
  | zero => exact (h.valid s hs).depth
  | succ fuel ih =>
    unfold Mem.findFreePages
    rw [wp_bind]
    refine wp_searchBins fun start base hfound => ?_
    have hs1 := h.base s base hs
    split_ifs with hstart
    · obtain ⟨max', min, -, hstart'⟩ := hfound hstart
      exact ⟨hstart' ▸ coreFindFreePagesI_lt _ _ _ _ _, hs1⟩
    · refine wp_seq (h.promoteMemoryResource hs1) ?_
      intro promoted s2 hs2
      split_ifs
      · exact ih hs2
      · exact ⟨Nat.two_pow_pos 64, hs2⟩

lemma Spent.refl (hs : Valid arch s) : Spent arch 0 s s := ⟨hs, le_rfl, le_rfl⟩

/-- in the nested calls every promoted range stays on the stack -/
lemma steady_spent (hroom : s.mMapDepth + untested arch s < maxMapDepth) :
    Steady arch (pure ()) (Spent arch 0 s) where
  valid := fun t ht => ht.valid
  room := fun t ht hpos => by have := ht.total; omega
  base := fun t base ht => ⟨ht.valid.of_eq rfl rfl rfl, ht.total, ht.untested⟩
  turn := fun t u ht hu hdepth hcount => by
    have h1 := ht.total
    have h2 := ht.untested
    exact ⟨hu, by omega, by omega⟩

lemma wp_refillFreeEntries_spent (hs : Valid arch s) (hroom : s.mMapDepth + untested arch s + 2 < maxMapDepth) :
    wp (refillFreeEntries arch)
      (fun found s' => Spent arch 2 s s' ∧ (found = true → 2 * maxMapDepth ≤ s'.freeEntries)) Shallow s := by
  unfold refillFreeEntries coreAllocatePoolPages
  rw [wp_bind]
  refine wp_seq ((steady_spent (by omega)).findFreePages _ _ _ _ 2 (.refl hs)) ?_
  intro start s1 ⟨hstart, h1⟩
  have htotal := h1.total
  have hspent : Spent arch 2 s s1 := ⟨h1.valid, by omega, h1.untested⟩
  have hentries := entriesPerPage arch
  split_ifs with hzero
  · rw [wp_pure, if_pos rfl]
    exact ⟨hspent, nofun⟩
  rw [wp_bind]
  refine wp_coreConvertPages_midway (.inr (by omega)) (by decide) h1.valid hstart (fun e => ?_) ?_
  · rw [wp_pure, if_neg hzero, wp_bind, wp_modify]
    exact ⟨⟨h1.valid.of_eq rfl rfl rfl, hspent.total, hspent.untested⟩, fun _ => hentries.trans (le_add_left _ _)⟩
  · intro t v _ _ hmid
    have hcount : untested arch t = untested arch s1 := by
      unfold untested
      rw [hmid.gcd]
    have hdepth : t.mMapDepth ≤ s1.mMapDepth + 2 := by
      rcases hmid.depth with h | ⟨h, -⟩ <;> omega
    have huntested := h1.untested
    rw [wp_pure, wp_pure, if_neg hzero, wp_bind, wp_modify]
    refine ⟨⟨hmid.valid.of_eq rfl rfl rfl, ?_, ?_⟩, fun _ => hentries.trans (le_add_left _ _)⟩
    · show t.mMapDepth + untested arch t ≤ _
      omega
    · show untested arch t ≤ _
      omega

/-- there is room for a new page of descriptors, or there are enough of them -/
def Room (arch : Arch) (s : PageState) : Prop :=
  s.mMapDepth + untested arch s + 2 < maxMapDepth ∨
    s.mMapDepth + untested arch s < maxMapDepth ∧ s.mMapDepth ≤ s.freeEntries

lemma wp_allocateMemoryMapEntry_spent (hs : Valid arch s) (hroom : Room arch s) (hne : s.mMapDepth ≠ 0) :
    wp (allocateMemoryMapEntry arch)
      (fun found s' => Spent arch 2 s s' ∧ (found = true → s'.mMapDepth + untested arch s' < maxMapDepth ∧
        (s'.mMapDepth + untested arch s' + 2 < maxMapDepth ∨ s'.mMapDepth ≤ s'.freeEntries + 1))) Shallow s := by
  unfold allocateMemoryMapEntry
  rw [wp_bind, wp_gets, wp_bind]
  unfold Room at hroom
  split_ifs with hzero
  · refine wp_post (wp_refillFreeEntries_spent hs (by omega)) ?_
    intro found s1 ⟨h1, hfree⟩
    have htotal := h1.total
    cases found with
    | false => exact ⟨h1, nofun⟩
    | true =>
      have hfree' := hfree rfl
      refine ⟨⟨h1.valid.of_eq rfl rfl rfl, h1.total, h1.untested⟩, fun _ => ⟨?_, .inr ?_⟩⟩
      · show s1.mMapDepth + untested arch s1 < maxMapDepth
        omega
      · show s1.mMapDepth ≤ s1.freeEntries - 1 + 1
        omega
  · rw [wp_pure, wp_bind, wp_modify, wp_pure, if_pos rfl]
    refine ⟨⟨hs.of_eq rfl rfl rfl, le_add_right _ _, le_rfl⟩, fun _ => ⟨?_, ?_⟩⟩
    · show s.mMapDepth + untested arch s < maxMapDepth
      omega
    · show s.mMapDepth + untested arch s + 2 < maxMapDepth ∨ s.mMapDepth ≤ s.freeEntries - 1 + 1
      omega

lemma untested_popEntry (arch : Arch) (s : PageState) : untested arch (popEntry s) = untested arch s := by
  unfold popEntry
  split <;> rfl

/-- **the loop of `CoreFreeMemoryMapStack`** -/
theorem wp_freeStackLoop_shallow (fuel : Nat) (hs : Valid arch s) (hroom : Room arch s) : wp (freeStackLoop arch fuel)
      (fun _ s' => Valid arch s' ∧ s'.mMapDepth = 0 ∧ untested arch s' ≤ untested arch s) Shallow s := by
  induction fuel generalizing s with
  | zero =>
    unfold freeStackLoop
    rw [wp_bind, wp_gets, wp_stopIf]
    exact ⟨fun _ => hs.depth, fun h => ⟨hs, not_not.mp h, le_rfl⟩⟩
  | succ fuel ih =>
    unfold freeStackLoop
    rw [wp_bind, wp_gets]
    split_ifs with hd
    · exact ⟨hs, hd, le_rfl⟩
    refine wp_seq (wp_allocateMemoryMapEntry_spent hs hroom hd) ?_
    rintro found s1 ⟨h1, hfound⟩
    refine wp_stopIf_bind (fun _ => h1.valid.depth) fun htrue => ?_
    obtain ⟨htotal, hfree⟩ := hfound (eq_true_of_ne_false htrue)
    obtain ⟨hs2, -, hdepth2, hfree2, -⟩ := popEntry_spec h1.valid
    have hcount := untested_popEntry arch s1
    have hle := h1.untested
    refine wp_post (ih hs2 ?_) ?_
    · unfold Room
      omega
    · rintro _ s3 ⟨hs3, hd3, hle3⟩
      exact ⟨hs3, hd3, by omega⟩

/-! ## the operations -/

/-- between two turns: the stack is empty, and at most one range is untested -/
structure Quiet (arch : Arch) (s : PageState) : Prop where
  valid : Valid arch s
  rests : s.mMapDepth = 0
  untested : untested arch s ≤ 1

/-- **the stack is emptied**: two descriptors, one promoted range and the page of descriptors fit -/
theorem wp_coreFreeMemoryMapStack_quiet (ht : Valid arch t) (hdepth : t.mMapDepth ≤ 2)
    (hcount : untested arch t ≤ 1) : wp (coreFreeMemoryMapStack arch) (fun _ => Quiet arch) Shallow t := by
  have hroom : Room arch t := .inl (by unfold maxMapDepth; omega)
  refine wp_post (wp_freeStackLoop_shallow _ ht hroom) ?_
  intro _ s' ⟨hs', hrests, hle⟩
  exact ⟨hs', hrests, hle.trans hcount⟩

lemma steady_quiet (arch : Arch) : Steady arch (coreFreeMemoryMapStack arch) (Quiet arch) where
  valid := fun s hs => hs.valid
  room := fun s hs _ => by rw [hs.rests]; decide
  base := fun s base hs => ⟨hs.valid.of_eq rfl rfl rfl, hs.rests, hs.untested⟩
  turn := fun s t hs ht hdepth hcount => by
    have h1 := hs.rests
    have h2 := hs.untested
    exact wp_coreFreeMemoryMapStack_quiet ht (by omega) (by omega)

lemma wp_convertFrom_quiet {pages end_ start : Nat} {change : Change} (fuel : Nat) (hs : Quiet arch s)
    (hstart : efiPageSize ∣ start) (hend : efiPageSize ∣ end_ + 1) :
    wp (convertFrom (coreFreeMemoryMapStack arch) pages change end_ fuel start) (fun _ => Quiet arch) Shallow s := by
  induction fuel generalizing s start with
  | zero =>
    unfold convertFrom
    split_ifs
    · exact hs.valid.depth
    · exact hs
  | succ fuel ih =>
    unfold convertFrom
    split_ifs with hlt
    · rw [wp_bind]
      refine wp_convertTurn_midway (.inr (by rw [hs.rests]; decide)) hs.valid hstart hend hlt (fun _ => hs) ?_
      intro rangeEnd t v hmid
      have hdepth : t.mMapDepth ≤ 2 := by
        have hrests := hs.rests
        rcases hmid.depth with h | ⟨h, -⟩ <;> omega
      have hcount : untested arch t ≤ 1 := by
        have hle := hs.untested
        unfold untested at hle ⊢
        rwa [hmid.gcd]
      refine wp_post (wp_coreFreeMemoryMapStack_quiet hmid.valid hdepth hcount) ?_
      intro _ s' hs'
      exact ih hs' hmid.pages.hi_aligned
    · exact hs

lemma wp_coreConvertPagesEx_quiet {start : Nat} (pages : Nat) (change : Change) (hs : Quiet arch s)
    (hstart : start < 2^64) :
    wp (coreConvertPagesEx (coreFreeMemoryMapStack arch) start pages change) (fun _ => Quiet arch) Shallow s := by
  unfold coreConvertPagesEx
  dsimp only
  split_ifs with hbad
  · exact hs
  · rw [not_or, not_or, not_not, not_le] at hbad
    obtain ⟨hne, haligned, hlt⟩ := hbad
    have hd : efiPageSize ∣ start := dvd_of_mod_eq_zero haligned
    exact wp_convertFrom_quiet _ hs hd (requestEnd_spec hstart hd hlt hne).1

lemma wp_convertOrPromote_quiet {start : Nat} (pages type : Nat) (hs : Quiet arch s) (hstart : start < 2^64) :
    wp (convertOrPromote arch start pages type) (fun _ => Quiet arch) Shallow s := by
  refine wp_seq (wp_coreConvertPagesEx_quiet pages _ hs hstart) ?_
  intro status s1 hs1
  split_ifs
  · exact hs1
  · refine wp_seq ((steady_quiet arch).promoteMemoryResource hs1) ?_
    intro promoted s2 hs2
    split_ifs
    · exact wp_coreConvertPagesEx_quiet pages _ hs2 hstart
    · exact hs2

lemma wp_coreInternalAllocatePages_quiet {memory : Nat} (allocate : AllocateType) (type numberOfPages : Nat)
    (hs : Quiet arch s) (hmemory : memory < 2^64) :
    wp (coreInternalAllocatePages arch allocate type numberOfPages memory) (fun _ => Quiet arch) Shallow s := by
  unfold coreInternalAllocatePages
  rw [wp_ite]
  refine ⟨fun _ => hs, fun _ => ?_⟩
  rw [wp_bind, wp_gets, wp_ite]
  refine ⟨fun _ => hs, fun _ => ?_⟩
  rw [wp_bind]
  refine wp_mono (Q := fun start s' => start < 2^64 ∧ Quiet arch s') ?_ ?_ (fun _ _ h => h)
  · rw [wp_ite]
    exact ⟨fun _ => ⟨hmemory, hs⟩, fun _ => (steady_quiet arch).findFreePages _ _ _ _ 2 hs⟩
  · intro start s1 ⟨hstart, hs1⟩
    rw [wp_ite]
    refine ⟨fun _ => hs1, fun _ => ?_⟩
    refine wp_seq (wp_convertOrPromote_quiet _ _ hs1 hstart) ?_
    intro status s2 hs2
    cases status <;> exact hs2

lemma wp_coreInternalFreePages_quiet {memory : Nat} (numberOfPages : Nat) (hs : Quiet arch s)
    (hmemory : memory < 2^64) :
    wp (coreInternalFreePages arch memory numberOfPages) (fun _ => Quiet arch) Shallow s := by
  unfold coreInternalFreePages
  rw [wp_bind, wp_gets]
  cases findEntry memory s.gMemoryMap with
  | none => exact hs
  | some r =>
    rw [wp_ite]
    exact ⟨fun _ => hs, fun _ => wp_coreConvertPagesEx_quiet _ _ hs hmemory⟩

lemma wp_coreAllocatePoolPages_quiet (type pages align : Nat) (hs : Quiet arch s) :
    wp (coreAllocatePoolPages arch (coreFreeMemoryMapStack arch) type pages align) (fun _ => Quiet arch) Shallow s := by
  refine wp_seq ((steady_quiet arch).findFreePages _ _ _ _ 2 hs) ?_
  intro start s1 ⟨hstart, hs1⟩
  split_ifs
  · exact hs1
  · rw [wp_bind]
    exact wp_coreConvertPagesEx_quiet _ _ hs1 hstart

end

/-- an allocation, a free or a change of attributes -/
def Operation.Changes : Operation → Prop
  | .addMemoryDescriptor .. => False
  | _ => True

/-- **an operation on a quiet state** -/
theorem wp_run_quiet {arch : Arch} {s : PageState} (op : Operation) (hs : Quiet arch s) (hproper : op.Proper arch s)
    (hchanges : op.Changes) : wp (op.run arch) (fun _ => Quiet arch) Shallow s := by
  cases op with
  | addMemoryDescriptor type start pages attr => exact False.elim hchanges
  | allocatePages allocate type pages memory =>
    refine wp_seq (wp_coreInternalAllocatePages_quiet allocate type pages hs hproper) ?_
    intro r s1 hs1
    cases r <;> exact hs1
  | freePages memory pages =>
    unfold Operation.run
    rw [wp_bind]
    exact wp_coreInternalFreePages_quiet pages hs hproper
  | allocatePoolPages type pages align =>
    unfold Operation.run
    rw [wp_bind]
    exact wp_coreAllocatePoolPages_quiet type pages align hs
  | freePoolPages memory pages =>
    unfold Operation.run coreFreePoolPages
    rw [wp_bind, wp_bind]
    exact wp_coreConvertPagesEx_quiet pages _ hs hproper
  | updateMemoryAttributes start pages attributes =>
    unfold Operation.run coreUpdateMemoryAttributes
    rw [wp_bind, wp_bind]
    exact wp_coreConvertPagesEx_quiet pages _ hs hproper

/-- no descriptor fills the stack while the operation runs; the run stops at the first that does -/
def Operation.StackFits (arch : Arch) (s : PageState) (op : Operation) : Prop :=
  (op.run arch s).2.mMapDepth < maxMapDepth

lemma shallow_of_wp {α : Type} {x : PageProg α} {s : PageState}
    (h : wp x (fun _ s' => s'.mMapDepth < maxMapDepth) Shallow s) : (x s).2.mMapDepth < maxMapDepth := by
  unfold wp at h
  rcases hx : x s with ⟨_ | _, s'⟩ <;> rw [hx] at h <;> exact h

/-! ## a history that takes all descriptors -/

def runAll (arch : Arch) (ops : List Operation) : PageProg Unit :=
  forEach (fun op _ => do
    let _ ← op.run arch
    pure ()) ops ()

lemma History.runAll {arch : Arch} {s0 s : PageState} {done ops : List Operation} (h : History arch s0 done s)
    (hproper : ∀ op ∈ ops, ∀ t, op.Proper arch t) (hrun : (runAll arch ops s).1 = .ok ()) :
    History arch s0 (done ++ ops) (runAll arch ops s).2 := by
  have hwp : wp (Mem.runAll arch ops) (fun _ t => History arch s0 (done ++ ops) t) (fun _ _ => True) s := by
    refine wp_forEach _ (fun done _ t => History arch s0 done t) done ops () h fun ys op _ t hop ht => ?_
    rw [wp_bind]
    unfold wp
    rcases hx : op.run arch t with ⟨_ | r, t'⟩
    · exact trivial
    · exact ht.snoc (hproper op hop t) hx
  have hdone := wp_ok hwp (Prod.ext hrun rfl)
  exact hdone

def untestedRange (i : Nat) : GcdMapEntry :=
  ⟨i * 0x1000000, i * 0x1000000 + 0xffff, efiMemoryPresent ||| efiMemoryInitialized ||| 0xf, 0, .reserved, .nonExistent⟩

/-- before the first descriptor, with `n` untested ranges -/
def untestedMemory (n mDefaultMaximumAddress : Nat) : PageState :=
  { noMemory with
    mGcdMemorySpaceMap := (List.range' 1 n).map untestedRange
    mDefaultMaximumAddress := mDefaultMaximumAddress }

lemma untestedMemory_ok (n m : Nat) : HistoryOk .x64 (untestedMemory n m) where
  valid :=
    { map := noMemory_ok.valid.map
      depth := noMemory_ok.valid.depth
      gcd :=
        { paged := by
            intro g hg hprom
            obtain ⟨i, -, rfl⟩ := mem_map.mp hg
            have hlt : (untestedRange i).endAddress < 2^64 - 1 := hprom.2.1
            have hbase : (untestedRange i).baseAddress = i * 0x1000000 := rfl
            have hend : (untestedRange i).endAddress = i * 0x1000000 + 0xffff := rfl
            refine ⟨?_, ?_, ?_, ?_⟩ <;> try unfold efiPageSize
            all_goals omega
          apart := by
            refine pairwise_map.mpr ((pairwise_lt_range' 1).imp fun {i j} hij _ _ => .inl ?_)
            show i * 0x1000000 + 0xffff < j * 0x1000000
            omega
          fresh := fun _ _ _ _ _ => rfl } }
  rests := rfl
  bins := fun h =>
    have ⟨hinfo, hbases⟩ := noMemory_ok.bins h
    ⟨⟨hinfo.last, hinfo.index, hinfo.pages, hinfo.distinct⟩, hbases⟩

/-- 66 pages, of which one becomes a page of descriptors -/
def firstMemory : Operation := .addMemoryDescriptor efiConventionalMemory 0x100000 66 0xf

/-- pages of two types in turn, so that each takes a descriptor, and the last three pages -/
def allocations : List Operation :=
  (List.range 62).map (fun i => .allocatePages .anyPages (3 + i % 2) 1 0) ++ [.allocatePages .anyPages 3 3 0]

/-- neither free pages nor descriptors are left -/
def fullMemory (n m : Nat) : PageState := (runAll .x64 allocations (firstMemory.run .x64 (untestedMemory n m)).2).2

lemma fullMemory_history {n m : Nat} (hfirst : (firstMemory.run .x64 (untestedMemory n m)).1 = .ok none)
    (hrun : (runAll .x64 allocations (firstMemory.run .x64 (untestedMemory n m)).2).1 = .ok ()) :
    History .x64 (untestedMemory n m) (firstMemory :: allocations) (fullMemory n m) := by
  have hproper : firstMemory.Proper .x64 (untestedMemory n m) := by
    refine ⟨by decide, by decide, by decide, fun a ha => ⟨rfl, ?_⟩⟩
    rintro attr ⟨g, hg, -, hcovers, -⟩
    obtain ⟨i, hi, rfl⟩ := mem_map.mp hg
    have h1 : i * 0x1000000 ≤ a := hcovers.1
    have h2 : a < 0x100000 + 66 * efiPageSize := ha.2
    have h3 := (mem_range'_1.mp hi).1
    unfold efiPageSize at h2
    omega
  refine (History.nil.snoc hproper (Prod.ext hfirst rfl)).runAll ?_ hrun
  intro op hop t
  rcases mem_append.mp hop with hop | hop
  · obtain ⟨i, -, rfl⟩ := mem_map.mp hop
    exact Nat.two_pow_pos 64
  · rw [mem_singleton.mp hop]
    exact Nat.two_pow_pos 64

/-- **The stack of new descriptors.**  It has room for all operations on the memory maps with at most `k` untested
ranges if and only if `k` is at most one. -/
theorem mMapStack_fits_iff (k : Nat) :
    (∀ (arch : Arch) (s₀ s : PageState) (ops : List Operation) (op : Operation), HistoryOk arch s₀ →
      History arch s₀ ops s → untested arch s ≤ k → op.Proper arch s → op.Changes → op.StackFits arch s) ↔ k ≤ 1 := by
  constructor
  · intro h
    by_contra hk
    -- the page of descriptors is taken out of the middle of the second range
    have hrun : (firstMemory.run .x64 (untestedMemory 2 0x2007fff)).1 = .ok none ∧
        (runAll .x64 allocations (firstMemory.run .x64 (untestedMemory 2 0x2007fff)).2).1 = .ok () ∧
        untested .x64 (fullMemory 2 0x2007fff) = 2 ∧
        ¬ (Operation.updateMemoryAttributes 0x101000 1 0).StackFits .x64 (fullMemory 2 0x2007fff) := by
      unfold Operation.StackFits
      decide +kernel
    obtain ⟨hfirst, hallocations, htwo, hfull⟩ := hrun
    exact hfull (h .x64 _ _ _ _ (untestedMemory_ok 2 0x2007fff) (fullMemory_history hfirst hallocations) (by omega)
      (by decide : 0x101000 < 2^64) trivial)
  · intro hk arch s₀ s ops op hs0 hhistory hcount hproper hchanges
    obtain ⟨hok, -⟩ := hhistory.invariant hs0
    refine shallow_of_wp (wp_post (wp_run_quiet op ⟨hok.valid, hok.rests, hcount.trans hk⟩ hproper hchanges) ?_)
    intro _ s' hs'
    exact hs'.valid.depth

/-- with three untested ranges the attributes of one page are changed, and the sixth descriptor fills the stack -/
theorem threeUntested_fill_stack :
    HistoryOk .x64 (untestedMemory 3 (2^64 - 1)) ∧
    History .x64 (untestedMemory 3 (2^64 - 1)) (firstMemory :: allocations) (fullMemory 3 (2^64 - 1)) ∧
    (Operation.updateMemoryAttributes 0x101000 1 0).Proper .x64 (fullMemory 3 (2^64 - 1)) ∧
    ((Operation.updateMemoryAttributes 0x101000 1 0).run .x64 (fullMemory 3 (2^64 - 1))).1 = .error .assertion ∧
    ¬ (Operation.updateMemoryAttributes 0x101000 1 0).StackFits .x64 (fullMemory 3 (2^64 - 1)) := by
  have hrun : (firstMemory.run .x64 (untestedMemory 3 (2^64 - 1))).1 = .ok none ∧
      (runAll .x64 allocations (firstMemory.run .x64 (untestedMemory 3 (2^64 - 1))).2).1 = .ok () ∧
      ((Operation.updateMemoryAttributes 0x101000 1 0).run .x64 (fullMemory 3 (2^64 - 1))).1 = .error .assertion ∧
      ¬ (Operation.updateMemoryAttributes 0x101000 1 0).StackFits .x64 (fullMemory 3 (2^64 - 1)) := by
    unfold Operation.StackFits
    decide +kernel
  obtain ⟨hfirst, hallocations, hstops, hfull⟩ := hrun
  exact ⟨untestedMemory_ok 3 _, fullMemory_history hfirst hallocations, (by decide : 0x101000 < 2^64), hstops, hfull⟩

end Audk.Mem
