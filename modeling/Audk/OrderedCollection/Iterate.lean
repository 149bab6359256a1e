import Audk.OrderedCollection.Refinement

/-!
# Iteration over a collection

`OrderedCollectionMin` and `OrderedCollectionMax` are mirror images, as are `OrderedCollectionNext` and
`OrderedCollectionPrev`: one definition each, with the side `d` as a parameter.

* `iterate`: the same loop, and between two nodes elements are inserted and deleted;
* `mapIterate`: what that loop visits, told by the sorted list of the elements.
-/

namespace Audk.OrderedCollection

open Prog RecordHeap RedBlack RedBlack.RbTree List Option Nat

section
variable {U : Type}

structure Descent where
  node : Ptr
  child : Ptr

def descendStep (d : Dir) (s : Descent) : Run U Descent := do
  let n ← load s.child
  return ⟨s.child, n.child d⟩

/-- the last node on the side `d` of a tree that is not empty -/
def extremeBelow (d : Dir) (fuel : Nat) (node : Ptr) : Run U Ptr := do
  let n ← load node
  let s ← repeatWhile (fun s => s.child ≠ none) (descendStep d) .stuck fuel ⟨node, n.child d⟩
  return s.node

def extreme (d : Dir) (fuel : Nat) (root : Ptr) : Run U Ptr :=
  if root = none then return none else extremeBelow d fuel root

def orderedCollectionMin (fuel : Nat) (root : Ptr) : Run U Ptr := extreme .left fuel root

def orderedCollectionMax (fuel : Nat) (root : Ptr) : Run U Ptr := extreme .right fuel root

/-- the locals of the way up; `running` until the condition fails -/
structure Ascent where
  child : Ptr
  walk : Ptr
  running : Bool

/-- up, as long as the child is on the side `d` of its parent -/
def ascendTurn (d : Dir) (s : Ascent) : Run U Ascent :=
  if s.walk = none then return { s with running := false }
  else do
    let w ← load s.walk
    if s.child = w.child d then return ⟨s.walk, w.parent, s.running⟩
    else return { s with running := false }

def neighbor (d : Dir) (fuel : Nat) (node : Ptr) : Run U Ptr :=
  if node = none then return none
  else do
    let n ← load node
    if n.child d ≠ none then extremeBelow d.other fuel (n.child d)
    else do
      let s ← repeatWhile (fun s => s.running = true) (ascendTurn d) .stuck fuel ⟨node, n.parent, true⟩
      return s.walk

def orderedCollectionNext (fuel : Nat) (node : Ptr) : Run U Ptr := neighbor .right fuel node

def orderedCollectionPrev (fuel : Nat) (node : Ptr) : Run U Ptr := neighbor .left fuel node

/-- the addresses of the nodes from `node` on, for at most `turns` nodes -/
def visit (d : Dir) (fuel : Nat) : Nat → Ptr → Run U (List Nat)
  | _, none => return []
  | 0, some _ => fail .stuck
  | turns+1, some a => do
    let next ← neighbor d fuel (some a)
    let rest ← visit d fuel turns next
    return a :: rest

/-- at each node the next one is fetched, then the calls are made; behind the last calls the iteration goes on -/
def iterate (cmp : U → U → Int) (fuel : Nat) : List (List (Op U)) → Ptr → Ptr → Run U (List Nat)
  | [], position, _ => visit .right fuel fuel position
  | _ :: _, none, _ => return []
  | ops :: script, some a, root => do
    let next ← orderedCollectionNext fuel (some a)
    let r ← runOps cmp fuel ops root
    let rest ← iterate cmp fuel script next r.2
    return a :: rest

/-! ## the tree -/

variable {cmp : U → U → Int} {h : Heap (Node U)} {d : Dir} {p : RbPath (Nat × U)} {c : Color}
  {near far t : RbTree (Nat × U)} {x : Nat × U} {E : Fault → Heap (Node U) → Prop} {fuel : Nat}

lemma descend_spec (fuel : Nat) (ho : Owns h (cells none (p.fill (mk d c near x far))))
    (hfuel : near.toList.length < fuel) :
    wp (repeatWhile (fun s => s.child ≠ none) (descendStep d) .stuck fuel ⟨some x.1, ptr near⟩)
      (fun s h' => h' = h ∧ s.node = ((mk d c near x far).labels d.other).head?.map Prod.fst) E h := by
  induction fuel generalizing p c near x far with
  | zero => exact absurd hfuel (not_lt_zero _)
  | succ fuel ih =>
    rw [wp_repeatWhile_succ, labels_mk_other]
    by_cases hnear : near = leaf
    · subst hnear
      refine ⟨fun hc => absurd rfl hc, fun _ => ⟨rfl, ?_⟩⟩
      cases d <;> rfl
    refine ⟨fun _ => ?_, fun hc => absurd (fun hn => hnear (ptr_eq_none.mp hn)) hc⟩
    obtain ⟨c', near', y, far', rfl⟩ := exists_mk d hnear
    rw [length_toList_mk] at hfuel
    have ho' : Owns h (cells none (RbPath.fill (⟨d, c, x, far⟩ :: p) (mk d c' near' y far'))) := ho
    unfold descendStep
    rw [wp_bind, ptr_mk]
    refine wp_root ho' ?_
    rw [Node.mk'_child, wp_pure]
    refine wp_post (ih ho' (by omega)) ?_
    intro s h' ⟨hh, hs⟩
    refine ⟨hh, hs.trans ?_⟩
    rw [labels_mk_other, append_assoc, List.head?_append, List.head?_append]
    cases (near'.labels d.other).head? <;> rfl

lemma extremeBelow_spec (ho : Owns h (cells none (p.fill t))) (ht : t ≠ leaf) (hfuel : t.toList.length ≤ fuel) :
    wp (extremeBelow d fuel (ptr t)) (fun r h' => h' = h ∧ r = (t.labels d.other).head?.map Prod.fst) E h := by
  obtain ⟨c, near, x, far, rfl⟩ := exists_mk d ht
  rw [length_toList_mk] at hfuel
  unfold extremeBelow
  rw [wp_bind, ptr_mk]
  refine wp_root ho ?_
  rw [Node.mk'_child]
  refine wp_seq (descend_spec fuel ho (by omega)) ?_
  intro s h' hs
  exact hs

variable {Q : Ascent → Heap (Node U) → Prop}

lemma wp_ascendTurn {e : Dir} {sibling : RbTree (Nat × U)}
    (ho : Owns h (cells none (p.fill (mk e c t x sibling)))) (ht : t ≠ leaf)
    (hup : e = d → Q ⟨some x.1, pathPtr none p, true⟩ h) (hend : e = d.other → Q ⟨ptr t, some x.1, false⟩ h) :
    wp (ascendTurn d ⟨ptr t, some x.1, true⟩) Q E h := by
  unfold ascendTurn
  rw [if_neg (some_ne_none _), wp_bind]
  refine wp_root ho ?_
  rw [wp_ite, Node.mk'_parent]
  by_cases hside : e = d
  · subst hside
    rw [Node.mk'_child]
    exact ⟨fun _ => hup rfl, fun hc => absurd rfl hc⟩
  obtain rfl := Dir.eq_other hside
  -- the sibling is another node
  have hne : ptr t ≠ ptr sibling := (siblings_ne ho (.inl ht)).symm
  have hchild : (Node.mk' d.other x.2 (pathPtr none p) (ptr t) (ptr sibling) c).child d = ptr sibling := by
    cases d <;> rfl
  rw [hchild]
  exact ⟨fun hc => absurd hc hne, fun _ => hend rfl⟩

lemma wp_stopped {s : Ascent} {turns : Nat} (hs : s.running = false) (hQ : Q s h) :
    wp (repeatWhile (fun s => s.running = true) (ascendTurn d) .stuck (turns+1) s) Q E h := by
  rw [wp_repeatWhile_succ]
  exact ⟨fun hc => absurd (hs.symm.trans hc) Bool.false_ne_true, fun _ => hQ⟩

/-- the way up to the first node that is not on the side `d` -/
lemma ascend_spec (fuel : Nat) (ho : Owns h (cells none (p.fill t))) (ht : t ≠ leaf) (hfuel : p.length + 1 < fuel) :
    wp (repeatWhile (fun s => s.running = true) (ascendTurn d) .stuck fuel ⟨ptr t, pathPtr none p, true⟩)
      (fun s h' => h' = h ∧ s.walk = (p.beyond d).head?.map Prod.fst) E h := by
  obtain ⟨k, rfl⟩ : ∃ k, fuel = k + 2 := ⟨fuel - 2, by omega⟩
  induction p generalizing t k with
  | nil =>
    rw [wp_repeatWhile_succ]
    refine ⟨fun _ => ?_, fun hc => absurd rfl hc⟩
    show wp (repeatWhile (fun s => s.running = true) (ascendTurn d) .stuck (k+1) ⟨ptr t, none, false⟩) _ E h
    refine wp_stopped rfl ⟨rfl, ?_⟩
    cases d <;> rfl
  | cons f p ih =>
    obtain ⟨e, c, y, s⟩ := f
    rw [length_cons] at hfuel
    rw [wp_repeatWhile_succ]
    refine ⟨fun _ => wp_ascendTurn ho ht ?_ ?_, fun hc => absurd rfl hc⟩
    · rintro rfl
      obtain ⟨k, rfl⟩ : ∃ i, k = i + 1 := ⟨k - 1, by omega⟩
      have hup := ih ho (mk_ne_leaf _ _ _ _ _) k (by omega)
      rw [ptr_mk] at hup
      rw [RbPath.beyond_near]
      exact hup
    · rintro rfl
      rw [RbPath.beyond_far]
      exact wp_stopped rfl ⟨rfl, rfl⟩

/-- **the neighbor** of the node at the focus -/
theorem neighbor_spec (ho : Owns h (cells none (p.fill (mk d c near x far))))
    (hfuel : (p.fill (mk d c near x far)).toList.length + 2 ≤ fuel) : wp (neighbor d fuel (some x.1))
      (fun r h' => h' = h ∧ r = (near.labels d ++ p.beyond d).head?.map Prod.fst) E h := by
  have hlen := RbPath.length_le p (mk d c near x far)
  rw [length_toList_mk] at hlen
  unfold neighbor
  rw [if_neg (some_ne_none _), wp_bind]
  refine wp_root ho ?_
  rw [Node.mk'_child, Node.mk'_parent, wp_ite]
  constructor
  · intro hne
    have hnear : near ≠ leaf := fun hn => hne (by rw [hn]; rfl)
    have ho' : Owns h (cells none (RbPath.fill (⟨d, c, x, far⟩ :: p) near)) := ho
    refine wp_post (extremeBelow_spec ho' hnear (by omega)) ?_
    intro r h' ⟨hh, hr⟩
    obtain ⟨c', near', y, far', rfl⟩ := exists_mk d.other hnear
    rw [Dir.other_other] at hr
    refine ⟨hh, hr.trans ?_⟩
    have hlabels := labels_mk_other d.other c' near' far' y
    rw [Dir.other_other] at hlabels
    rw [hlabels, append_assoc, List.head?_append, List.head?_append]
    cases (near'.labels d).head? <;> rfl
  · intro hne
    obtain rfl := ptr_eq_none.mp (not_not.mp hne)
    rw [wp_bind]
    have hup := ascend_spec (d := d) (E := E) fuel ho (mk_ne_leaf _ _ _ _ _) (by omega)
    rw [ptr_mk] at hup
    refine wp_post hup ?_
    intro s h' ⟨hh, hs⟩
    refine ⟨hh, hs.trans ?_⟩
    cases d <;> rfl

/-! ## the sorted list -/

variable {root : Ptr} {l b e : List (Nat × U)}

lemma IsMap.extreme (hm : IsMap cmp h root l) (d : Dir) (hfuel : l.length + 2 ≤ fuel) :
    wp (extreme d fuel root) (fun r h' => h' = h ∧ r = (d.other.along l).head?.map Prod.fst) E h := by
  obtain ⟨⟨T, rfl, ho, rfl, -⟩, -⟩ := hm
  unfold OrderedCollection.extreme
  by_cases hT : T = leaf
  · subst hT
    refine ⟨rfl, ?_⟩
    cases d <;> rfl
  · rw [if_neg fun hn => hT (ptr_eq_none.mp hn)]
    have ho' : Owns h (cells none (RbPath.fill [] T)) := ho
    exact extremeBelow_spec ho' hT (by omega)

lemma Dir.mem_along {α : Type} {d : Dir} {l : List α} {x : α} : x ∈ d.along l ↔ x ∈ l := by
  cases d with
  | left => exact mem_reverse
  | right => exact Iff.rfl

/-- **the neighbor of an element is the next one of the list** -/
theorem IsMap.neighbor (hm : IsMap cmp h root l) (hl : d.along l = b ++ x :: e) (hfuel : l.length + 2 ≤ fuel) :
    wp (neighbor d fuel (some x.1)) (fun r h' => h' = h ∧ r = e.head?.map Prod.fst) E h := by
  have hnodup : l.Nodup := hm.nodup.of_map _
  have hx : x ∈ l := Dir.mem_along.mp (hl ▸ mem_append_right _ mem_cons_self)
  obtain ⟨⟨T, rfl, ho, -⟩, -⟩ := hm
  obtain ⟨p, c, tl, tr, rfl⟩ := RbPath.exists_fill_of_mem hx
  obtain ⟨near, far, hmk⟩ : ∃ near far, node c tl x tr = RbTree.mk d c near x far := by
    cases d with
    | left => exact ⟨tl, tr, rfl⟩
    | right => exact ⟨tr, tl, rfl⟩
  rw [hmk] at ho hfuel hl hnodup
  refine wp_post (neighbor_spec ho hfuel) ?_
  intro r h' ⟨hh, hr⟩
  refine ⟨hh, hr.trans ?_⟩
  -- the element stands in the list once, so what is behind it is the same
  have hlabels := RbPath.labels_fill d p (RbTree.mk d c near x far)
  rw [labels_mk] at hlabels
  have heq : b ++ x :: e = ((p.beyond d.other).reverse ++ far.labels d) ++ x :: (near.labels d ++ p.beyond d) := by
    rw [← hl]
    refine hlabels.trans ?_
    simp only [append_assoc, cons_append]
  have hd : (d.along (p.fill (RbTree.mk d c near x far)).toList).Nodup := by
    cases d with
    | left => exact nodup_reverse.mpr hnodup
    | right => exact hnodup
  rw [hl] at hd
  have hnot : x ∉ b ∧ x ∉ e := by
    rw [nodup_middle, nodup_cons, mem_append, not_or] at hd
    exact hd.1
  rw [((append_cons_inj_of_notMem hnot.1 hnot.2).mp heq).2.2]

/-- **the iteration visits what is left of the list** -/
theorem IsMap.visit (hm : IsMap cmp h root l) (hfuel : l.length + 2 ≤ fuel) (turns : Nat) (hl : d.along l = b ++ e)
    (hturns : e.length ≤ turns) :
    wp (visit d fuel turns (e.head?.map Prod.fst)) (fun r h' => h' = h ∧ r = e.map Prod.fst) E h := by
  induction e generalizing b turns with
  | nil =>
    cases turns <;> exact ⟨rfl, rfl⟩
  | cons x e ih =>
    obtain ⟨k, rfl⟩ : ∃ k, turns = k + 1 := ⟨turns - 1, by rw [length_cons] at hturns; omega⟩
    show wp (OrderedCollection.neighbor d fuel (some x.1) >>= _) _ _ h
    refine wp_seq (hm.neighbor hl hfuel) ?_
    rintro next h' ⟨rfl, rfl⟩
    rw [wp_bind]
    have hl' : d.along l = (b ++ [x]) ++ e := by rw [hl, append_assoc]; rfl
    refine wp_post (ih k hl' (le_of_succ_le_succ hturns)) ?_
    rintro rest h' ⟨rfl, rfl⟩
    exact ⟨rfl, rfl⟩

/-! ## the iteration and other calls -/

def larger (cmp : U → U → Int) (x : Nat × U) (l : List (Nat × U)) : List (Nat × U) :=
  l.filter fun y => cmp x.2 y.2 < 0

/-- the position is `x`, if the iteration is not at its end.  The next one is the least of the greater elements at the
time; behind the last calls all greater elements are visited -/
def mapIterate (cmp : U → U → Int) : List (Nat × U) → List (List (Op U)) → Option (Nat × U) → List (Nat × U)
  | _, _, none => []
  | l, [], some x => x :: larger cmp x l
  | l, ops :: script, some x => x :: mapIterate cmp (mapOps cmp l ops).2 script (larger cmp x l).head?

/-- the calls at each node are legal, and the node that was fetched before them is not deleted -/
def ScriptLegal (cmp : U → U → Int) : List (Nat × U) → List (List (Op U)) → Option (Nat × U) → Prop
  | l, ops :: script, some x =>
    AllLegal cmp l ops ∧ (∀ y, (larger cmp x l).head? = some y → .delete y.1 ∉ ops) ∧
      ScriptLegal cmp (mapOps cmp l ops).2 script (larger cmp x l).head?
  | _, _, _ => True

lemma larger_eq (hc : ConsistentOrder cmp) (hs : Sorted cmp (b ++ x :: e)) : larger cmp x (b ++ x :: e) = e := by
  obtain ⟨-, hxe, hbx⟩ := pairwise_append.mp hs
  have hself : ¬ cmp x.2 x.2 < 0 := fun hlt => absurd ((hc.swap x.2 x.2).mp hlt) (not_lt.mpr hlt.le)
  unfold larger
  rw [filter_append, filter_cons_of_neg (by simpa using hself), filter_eq_nil_iff.mpr, nil_append,
    filter_eq_self.mpr]
  · intro y hy
    exact decide_eq_true ((pairwise_cons.mp hxe).1 y hy)
  · intro y hy
    have hgt := (hc.swap y.2 x.2).mp (hbx y hy x mem_cons_self)
    simpa using hgt.le

lemma mem_mapOp (op : Op U) (hx : x ∈ l) (hop : op ≠ .delete x.1) : x ∈ (mapOp cmp l op).2 := by
  cases op with
  | insert u pool =>
    show x ∈ (insertElement cmp pool u l).2.2
    unfold insertElement
    split
    · exact hx
    · cases pool with
      | none => exact hx
      | some a =>
        rw [← takeWhile_append_dropWhile (p := fun y => decide (cmp y.2 u < 0)) (l := l), mem_append] at hx
        exact mem_append.mpr (hx.imp_right (mem_cons_of_mem _))
  | delete a =>
    refine mem_filter.mpr ⟨hx, decide_eq_true fun hxa => hop ?_⟩
    rw [hxa]

lemma mem_mapOps (ops : List (Op U)) (hx : x ∈ l) (hops : .delete x.1 ∉ ops) : x ∈ (mapOps cmp l ops).2 := by
  induction ops generalizing l with
  | nil => exact hx
  | cons op ops ih =>
    rw [mem_cons, not_or] at hops
    exact ih (mem_mapOp op hx fun h => hops.1 h.symm) hops.2

/-- **the iteration visits, from its position on, exactly the greater elements that are there at the time** -/
theorem IsMap.iterate (hc : ConsistentOrder cmp) (script : List (List (Op U))) (position : Option (Nat × U))
    (hm : IsMap cmp h root l) (hposition : ∀ x, position = some x → x ∈ l) (hlegal : ScriptLegal cmp l script position)
    (hfuel : l.length + (script.map List.length).sum + 2 ≤ fuel) :
    wp (iterate cmp fuel script (position.map Prod.fst) root)
      (fun r _ => r = (mapIterate cmp l script position).map Prod.fst) (fun _ _ => False) h := by
  induction script generalizing h root l position with
  | nil =>
    rw [map_nil, sum_nil] at hfuel
    unfold OrderedCollection.iterate
    cases position with
    | none => cases fuel <;> exact rfl
    | some x =>
      obtain ⟨b, e, rfl⟩ := append_of_mem (hposition x rfl)
      rw [length_append, length_cons] at hfuel
      refine wp_post (hm.visit (e := x :: e) (by simp; omega) fuel rfl (by simp; omega)) ?_
      rintro r h' ⟨-, rfl⟩
      rw [mapIterate, larger_eq hc hm.sorted]
  | cons ops script ih =>
    cases position with
    | none => exact rfl
    | some x =>
      obtain ⟨hops, hkept, hrest⟩ := hlegal
      obtain ⟨b, e, hl⟩ := append_of_mem (hposition x rfl)
      have hlarger : larger cmp x l = e := by
        have hs := hm.sorted
        rw [hl] at hs ⊢
        exact larger_eq hc hs
      rw [hlarger] at hkept hrest
      rw [map_cons, sum_cons] at hfuel
      show wp (orderedCollectionNext fuel (some x.1) >>= _) _ _ h
      refine wp_seq (hm.neighbor (d := .right) hl (by omega)) ?_
      rintro next h' ⟨rfl, rfl⟩
      refine wp_seq (runOps_spec hc ops hm hops (by omega)) ?_
      rintro r h1 ⟨-, hm1⟩
      have hlen : (mapOps cmp l ops).2.length ≤ l.length + ops.length := mapOps_length ops
      -- the node that was fetched is still there
      have hnext : ∀ y, e.head? = some y → y ∈ (mapOps cmp l ops).2 := by
        intro y hy
        refine mem_mapOps ops ?_ (hkept y hy)
        rw [hl]
        exact mem_append_right _ (mem_cons_of_mem _ (mem_of_head? hy))
      refine wp_seq (ih e.head? hm1 hnext hrest (by omega)) ?_
      rintro rest h2 rfl
      rw [wp_pure, mapIterate, hlarger]
      rfl

/-- **Lookup and iteration.**  From `OrderedCollectionInit` on, after any calls: `Find` returns the one node that matches
the key; `Next` from `Min` visits all nodes in their order, and `Prev` from `Max` in the opposite order; `Prev` takes back
`Next`; an iteration that fetches the next node before other elements are inserted and deleted goes on with exactly the
greater elements that are there at the time. -/
theorem orderedCollection_iterates {K : Type} {keyCompare : K → U → Int} (hc : ConsistentOrder cmp)
    (hk : KeyOrder cmp keyCompare) (ops : List (Op U)) (hlegal : AllLegal cmp [] ops) (script : List (List (Op U)))
    (fuel : Nat) (hfuel : ops.length + (script.map List.length).sum + 2 ≤ fuel) :
    ∃ h root l, runOps cmp fuel ops orderedCollectionInit noNodes = (.ok ((mapOps cmp [] ops).1, root), h) ∧
      l = (mapOps cmp [] ops).2 ∧ Sorted cmp l ∧ (l.map Prod.fst).Nodup ∧
      (∀ k, (∀ x ∈ l, keyCompare k x.2 = 0 → orderedCollectionFind keyCompare fuel k root h = (.ok (some x.1), h)) ∧
        ((∀ x ∈ l, keyCompare k x.2 ≠ 0) → orderedCollectionFind keyCompare fuel k root h = (.ok none, h))) ∧
      (orderedCollectionMin fuel root >>= visit .right fuel fuel) h = (.ok (l.map Prod.fst), h) ∧
      (orderedCollectionMax fuel root >>= visit .left fuel fuel) h = (.ok (l.map Prod.fst).reverse, h) ∧
      (∀ x ∈ l, ∃ next, orderedCollectionNext fuel (some x.1) h = (.ok next, h) ∧
        (next ≠ none → orderedCollectionPrev fuel next h = (.ok (some x.1), h))) ∧
      (∀ x ∈ l, ScriptLegal cmp l script (some x) → ∃ h', iterate cmp fuel script (some x.1) root h =
        (.ok ((mapIterate cmp l script (some x)).map Prod.fst), h')) := by
  have hfuel' : ([] : List (Nat × U)).length + ops.length + 2 ≤ fuel := by simp; omega
  obtain ⟨⟨replies, root⟩, h, hrun, hreplies, hm⟩ := wp_returns (runOps_spec hc ops isMap_init hlegal hfuel')
  have hlen : (mapOps cmp [] ops).2.length ≤ [].length + ops.length := mapOps_length ops
  rw [length_nil, zero_add] at hlen
  generalize hl : (mapOps cmp [] ops).2 = l at hm hlen
  have hroom : l.length + 2 ≤ fuel := by omega
  -- an iteration from one end to the other
  have hall : ∀ d : Dir, (extreme d.other fuel root >>= visit d fuel fuel) h = (.ok ((d.along l).map Prod.fst), h) := by
    intro d
    have hwp : wp (extreme d.other fuel root >>= visit d fuel fuel)
        (fun r h' => h' = h ∧ r = (d.along l).map Prod.fst) (fun _ _ => False) h := by
      refine wp_seq (hm.extreme d.other hroom) ?_
      rintro r h' ⟨rfl, rfl⟩
      rw [Dir.other_other]
      have hlength : (d.along l).length = l.length := by
        cases d with
        | left => exact length_reverse
        | right => rfl
      exact hm.visit (b := []) hroom fuel rfl (by omega)
    obtain ⟨r, h', hr, rfl, rfl⟩ := wp_returns hwp
    exact hr
  refine ⟨h, root, l, ?_, rfl, hm.sorted, hm.nodup, ?_, hall .right, ?_, ?_, ?_⟩
  · rw [hrun]
    exact congrArg (fun l => (Except.ok (l, root), h)) hreplies
  · intro k
    obtain ⟨⟨T, rfl, ho, hroot, hbal, -⟩, hs⟩ := hm
    obtain ⟨r, h', hr, rfl, rfl⟩ := wp_returns (orderedCollectionFind_spec hk k ⟨ho, hroot, hbal⟩ hs hroom)
    refine ⟨fun x hx hzero => ?_, fun hne => ?_⟩
    · rw [hr, find_of_eq_zero (hk k) hs hx hzero]
      rfl
    · rw [hr, List.find?_eq_none.mpr (fun y hy => by simpa using hne y hy)]
      rfl
  · have hleft := hall .left
    rw [Dir.along, map_reverse] at hleft
    exact hleft
  · intro x hx
    obtain ⟨b, e, hbe⟩ := append_of_mem hx
    obtain ⟨next, h', hnext, rfl, rfl⟩ := wp_returns (hm.neighbor (d := .right) hbe hroom)
    refine ⟨_, hnext, fun hne => ?_⟩
    cases e with
    | nil => exact absurd rfl hne
    | cons y e =>
      have hback : Dir.left.along l = e.reverse ++ y :: (x :: b.reverse) := by
        rw [hbe]
        simp [Dir.along]
      obtain ⟨r, h', hr, rfl, rfl⟩ := wp_returns (hm.neighbor hback hroom)
      exact hr
  · intro x hx hscript
    have hroom' : l.length + (script.map List.length).sum + 2 ≤ fuel := by omega
    obtain ⟨r, h', hr, rfl⟩ := wp_returns (hm.iterate hc script (some x) (fun y hy => Option.some.inj hy ▸ hx) hscript
      hroom')
    exact ⟨h', hr⟩

end

/-- the iteration is at the first element; it is deleted, and one is inserted before the node that was fetched and one
behind it -/
theorem someOps_iterates : ∃ h root,
    iterate compareInt 12 [[.delete 11, .insert 4 (some 14), .insert 9 (some 15)]] (some 11) root h =
      (.ok [11, 13, 15], (iterate compareInt 12 [[.delete 11, .insert 4 (some 14), .insert 9 (some 15)]]
        (some 11) root h).2) := by
  have hk : KeyOrder compareInt compareInt := fun k => compareInt_consistent.probe k
  have hlegal : AllLegal compareInt [] someOps := by
    simp [AllLegal, Legal, someOps, mapOp, insertElement, compareInt]
  obtain ⟨h, root, l, -, rfl, -, -, -, -, -, -, hiterate⟩ := orderedCollection_iterates compareInt_consistent hk someOps
    hlegal [[.delete 11, .insert 4 (some 14), .insert 9 (some 15)]] 12 (by decide)
  have hscript : ScriptLegal compareInt (mapOps compareInt [] someOps).2
      [[.delete 11, .insert 4 (some 14), .insert 9 (some 15)]] (some (11, 1)) := by
    simp [ScriptLegal, AllLegal, Legal, someOps, mapOps, mapOp, insertElement, compareInt, larger]
  obtain ⟨h', hrun⟩ := hiterate (11, 1) (by decide) hscript
  refine ⟨h, root, ?_⟩
  rw [hrun]
  exact congrArg (fun l => (Except.ok l, h')) (by decide)

end Audk.OrderedCollection
