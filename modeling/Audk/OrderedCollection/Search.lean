import Audk.OrderedCollection.Shape

/-!
# The search for an element

A search compares with the elements it meets.  The sign of the result says on which side the search
goes on, so the comparison must be monotone: `Probe`.

* `search_spec`: the search of an insertion ends at a collision, or at the leaf where the new node belongs;
* `orderedCollectionFind_spec`: the lookup of a key.
-/

namespace Audk.OrderedCollection

open Prog RecordHeap RedBlack RedBlack.RbTree List

/-- `UserStructCompare` is a total order, up to the elements that compare equal -/
structure ConsistentOrder {U : Type} (cmp : U → U → Int) : Prop where
  swap : ∀ a b, cmp a b < 0 ↔ 0 < cmp b a
  trans : ∀ a b c, cmp a b ≤ 0 → cmp b c ≤ 0 → cmp a c ≤ 0

section
variable {U : Type} {cmp : U → U → Int}

def Sorted (cmp : U → U → Int) (l : List (Nat × U)) : Prop := l.Pairwise fun x y => cmp x.2 y.2 < 0

/-- a comparison with the elements that respects their order -/
def Probe (cmp : U → U → Int) (f : U → Int) : Prop := ∀ a b, cmp a b < 0 → (f a ≤ 0 → f b < 0) ∧ (0 ≤ f b → 0 < f a)

/-- `KeyCompare` is consistent with `UserStructCompare` -/
def KeyOrder {K : Type} (cmp : U → U → Int) (keyCompare : K → U → Int) : Prop := ∀ k, Probe cmp (keyCompare k)

lemma ConsistentOrder.probe (hc : ConsistentOrder cmp) (u : U) : Probe cmp (cmp u) := by
  intro a b hab
  have hba := (hc.swap a b).mp hab
  constructor
  · intro hua
    by_contra hub
    have h1 : cmp b u ≤ 0 := by
      by_contra hn
      exact hub ((hc.swap u b).mpr (not_le.mp hn))
    have h2 := hc.trans b u a h1 hua
    omega
  · intro hub
    by_contra hua
    have h1 : cmp b u ≤ 0 := by
      by_contra hn
      have := (hc.swap u b).mpr (not_le.mp hn)
      omega
    have h2 := hc.trans b u a h1 (not_lt.mp hua)
    omega

/-! ## places -/

/-- the elements beside the path are on their side of the probe -/
def Located (f : U → Int) (p : RbPath (Nat × U)) : Prop :=
  (∀ y, y ∈ p.before → 0 < f y.2) ∧ (∀ y, y ∈ p.after → f y.2 < 0)

variable {h : Heap (Node U)} {u : U} {f : U → Int} {p : RbPath (Nat × U)} {t : RbTree (Nat × U)}
  {E : Fault → Heap (Node U) → Prop}

lemma located_nil (f : U → Int) : Located f ([] : RbPath (Nat × U)) :=
  ⟨fun _ hy => absurd hy not_mem_nil, fun _ hy => absurd hy not_mem_nil⟩

variable {l r : RbTree (Nat × U)} {y : Nat × U} {c : Color}

lemma Located.left (hf : Probe cmp f)
    (hs : Sorted cmp (p.fill (node c l y r)).toList) (hl : Located f p) (hy : f y.2 < 0) :
    Located f (⟨.left, c, y, r⟩ :: p) := by
  refine ⟨hl.1, fun z hz => ?_⟩
  rw [RbPath.after, List.cons_append, List.mem_cons, List.mem_append] at hz
  rcases hz with rfl | hz | hz
  · exact hy
  · rw [Sorted, RbPath.toList_fill, toList, List.append_assoc, List.append_assoc] at hs
    have h1 := (List.pairwise_append.mp (List.pairwise_append.mp hs).2.1).2.1
    have h2 := (List.pairwise_cons.mp h1).1 z (List.mem_append_left _ hz)
    exact (hf _ _ h2).1 hy.le
  · exact hl.2 z hz

lemma Located.right (hf : Probe cmp f)
    (hs : Sorted cmp (p.fill (node c l y r)).toList) (hl : Located f p) (hy : 0 < f y.2) :
    Located f (⟨.right, c, y, l⟩ :: p) := by
  refine ⟨fun z hz => ?_, hl.2⟩
  rw [RbPath.before, List.mem_append, List.mem_append, List.mem_singleton] at hz
  rcases hz with (hz | hz) | rfl
  · exact hl.1 z hz
  · rw [Sorted, RbPath.toList_fill, toList, List.append_assoc, List.append_assoc] at hs
    have h1 := (List.pairwise_append.mp (List.pairwise_append.mp hs).2.1).2.2
    exact (hf _ _ (h1 z hz y List.mem_cons_self)).2 hy.le
  · exact hy

lemma Located.ne (hl : Located f p) (hy : y ∈ (p.fill leaf).toList) : f y.2 ≠ 0 := by
  rw [RbPath.toList_fill, toList, List.append_nil, List.mem_append] at hy
  rcases hy with hy | hy
  · exact (hl.1 y hy).ne'
  · exact (hl.2 y hy).ne

lemma find_of_eq_zero (hf : Probe cmp f) {l : List (Nat × U)} (hs : Sorted cmp l)
    (hy : y ∈ l) (hzero : f y.2 = 0) : l.find? (fun y => f y.2 = 0) = some y := by
  induction l with
  | nil => exact absurd hy not_mem_nil
  | cons z l ih =>
    obtain ⟨hz, hl⟩ := pairwise_cons.mp hs
    rcases mem_cons.mp hy with rfl | hy
    · exact List.find?_cons_of_pos (decide_eq_true hzero)
    · have hlt := (hf _ _ (hz y hy)).2 hzero.ge
      rw [List.find?_cons_of_neg (by simpa using hlt.ne')]
      exact ih hl hy

/-! ## the search of an insertion -/

/-- the search is at the end of the path -/
structure SearchAt (f : U → Int) (p : RbPath (Nat × U)) (s : Search) : Prop where
  located : Located f p
  parent : s.parent = pathPtr none p
  side : ∀ g up, p = g :: up → (if s.result < 0 then Dir.left else Dir.right) = g.dir

def SearchEnd (f : U → Int) (T : RbTree (Nat × U)) (s : Search) : Prop :=
  (∃ y, y ∈ T.toList ∧ f y.2 = 0 ∧ s.tmp = some y.1) ∨ (s.tmp = none ∧ ∃ p, T = p.fill leaf ∧ SearchAt f p s)

lemma mem_fill_node : y ∈ (p.fill (node c l y r)).toList := by
  rw [RbPath.toList_fill, toList]
  simp

lemma fuel_child (fuel : Nat) {a b : Nat} (h : b ≤ a) : fuel + (a + 1) + 1 = (fuel + (a - b)) + b + 2 := by
  omega

/-- **the search** from the subtree `t` -/
theorem search_spec (hf : Probe cmp (cmp u)) (t : RbTree (Nat × U)) (p : RbPath (Nat × U))
    (s : Search) (fuel : Nat) (ho : Owns h (cells none (p.fill t)))
    (hs : Sorted cmp (p.fill t).toList) (hat : SearchAt (cmp u) p s) (htmp : s.tmp = ptr t)
    (hcol : s.collision = false) :
    wp (repeatWhile (fun s => s.tmp ≠ none ∧ s.collision = false) (searchStep cmp u) .stuck (fuel + t.height + 2) s)
      (fun s' h' => h' = h ∧ SearchEnd (cmp u) (p.fill t) s') E h := by
  induction t generalizing p s fuel with
  | leaf =>
    rw [wp_repeatWhile_succ]
    exact ⟨fun hc => absurd htmp hc.1, fun _ => ⟨rfl, .inr ⟨htmp, p, rfl, hat⟩⟩⟩
  | node c l y r ihl ihr =>
    rw [wp_repeatWhile_succ]
    refine ⟨fun _ => ?_, fun hn => ?_⟩
    · unfold searchStep
      rw [wp_bind, htmp, ptr_node]
      refine wp_root (d := .left) ho ?_
      rw [Node.mk'_userStruct, wp_ite]
      refine ⟨fun hzero => ?_, fun hne => ?_⟩
      · -- the loop ends at the collision
        rw [wp_pure, wp_repeatWhile_succ]
        exact ⟨fun hc => Bool.noConfusion hc.2, fun _ => ⟨rfl, .inl ⟨y, mem_fill_node, hzero, rfl⟩⟩⟩
      · rw [wp_pure, height]
        by_cases hlt : cmp u y.2 < 0
        · rw [if_pos hlt, fuel_child fuel (le_max_left l.height r.height)]
          refine ihl (⟨.left, c, y, r⟩ :: p) _ _ ho hs ⟨hat.located.left hf hs hlt, rfl, ?_⟩ rfl rfl
          intro g up hg
          rw [← (List.cons.inj hg).1]
          exact if_pos hlt
        · have hgt : 0 < cmp u y.2 := by omega
          rw [if_neg hlt, fuel_child fuel (le_max_right l.height r.height)]
          refine ihr (⟨.right, c, y, l⟩ :: p) _ _ ho hs ⟨hat.located.right hf hs hgt, rfl, ?_⟩ rfl rfl
          intro g up hg
          rw [← (List.cons.inj hg).1]
          exact if_neg hlt
    · exact absurd ⟨by rw [htmp]; exact Option.some_ne_none _, hcol⟩ hn

/-! ## lookup -/

def LookupEnd (f : U → Int) (T : RbTree (Nat × U)) (s : Lookup) : Prop :=
  (∃ y, y ∈ T.toList ∧ f y.2 = 0 ∧ s.node = some y.1) ∨ (s.node = none ∧ ∀ y, y ∈ T.toList → f y.2 ≠ 0)

lemma findLoop_spec {K : Type} {keyCompare : K → U → Int} {k : K} (hf : Probe cmp (keyCompare k))
    (t : RbTree (Nat × U)) (p : RbPath (Nat × U)) (fuel : Nat) (ho : Owns h (cells none (p.fill t)))
    (hs : Sorted cmp (p.fill t).toList) (hl : Located (keyCompare k) p) :
    wp (repeatWhile (fun s => s.node ≠ none ∧ s.found = false) (findStep keyCompare k) .stuck
        (fuel + t.height + 2) ⟨ptr t, false⟩)
      (fun s' h' => h' = h ∧ LookupEnd (keyCompare k) (p.fill t) s') E h := by
  induction t generalizing p fuel with
  | leaf =>
    rw [wp_repeatWhile_succ]
    exact ⟨fun hc => absurd rfl hc.1, fun _ => ⟨rfl, .inr ⟨rfl, fun y hy => hl.ne hy⟩⟩⟩
  | node c l y r ihl ihr =>
    rw [wp_repeatWhile_succ]
    refine ⟨fun _ => ?_, fun hn => absurd ⟨Option.some_ne_none _, rfl⟩ hn⟩
    unfold findStep
    rw [wp_bind, ptr_node]
    refine wp_root (d := .left) ho ?_
    rw [Node.mk'_userStruct, wp_ite]
    refine ⟨fun hzero => ?_, fun hne => ?_⟩
    · rw [wp_pure, wp_repeatWhile_succ]
      exact ⟨fun hc => Bool.noConfusion hc.2, fun _ => ⟨rfl, .inl ⟨y, mem_fill_node, hzero, rfl⟩⟩⟩
    · rw [wp_pure, height]
      by_cases hlt : keyCompare k y.2 < 0
      · rw [if_pos hlt, fuel_child fuel (le_max_left l.height r.height)]
        exact ihl (⟨.left, c, y, r⟩ :: p) _ ho hs (hl.left hf hs hlt)
      · have hgt : 0 < keyCompare k y.2 := by omega
        rw [if_neg hlt, fuel_child fuel (le_max_right l.height r.height)]
        exact ihr (⟨.right, c, y, l⟩ :: p) _ ho hs (hl.right hf hs hgt)

/-- **lookup**: the node of the element that the key compares equal to -/
theorem orderedCollectionFind_spec {K : Type} {keyCompare : K → U → Int} (hk : KeyOrder cmp keyCompare)
    (k : K) {root : Ptr} {T : RbTree (Nat × U)} {fuel : Nat} (hrep : Represents h root T)
    (hs : Sorted cmp T.toList) (hfuel : T.toList.length + 2 ≤ fuel) :
    wp (orderedCollectionFind keyCompare fuel k root)
      (fun r h' => h' = h ∧ r = (T.toList.find? fun y => keyCompare k y.2 = 0).map Prod.fst) E h := by
  have hheight := height_le_length T
  have hloop := findLoop_spec (E := E) (hk k) T [] (fuel - (T.height + 2)) hrep.owns hs (located_nil _)
  rw [show fuel - (T.height + 2) + T.height + 2 = fuel by omega] at hloop
  unfold orderedCollectionFind
  rw [wp_bind, hrep.root]
  refine wp_post hloop ?_
  rintro s h' ⟨rfl, hend⟩
  refine ⟨rfl, ?_⟩
  rcases hend with ⟨y, hy, hzero, hnode⟩ | ⟨hnode, hne⟩
  · rw [hnode, find_of_eq_zero (hk k) hs hy hzero]
    rfl
  · rw [hnode, List.find?_eq_none.mpr (fun y hy => by simpa using hne y hy)]
    rfl

end

end Audk.OrderedCollection
