import Audk.OrderedCollection.Shape

/-!
# Deletion

* `DeleteInv`, `deleteTurn_spec`: the loop that takes the black-increment up, one turn;
* `orderedCollectionDelete_spec`: the whole function.
-/

namespace Audk.OrderedCollection

open Prog RecordHeap RedBlack RedBlack.RbTree List

section
variable {U : Type} {h : Heap (Node U)} {p : RbPath (Nat × U)} {t l r : RbTree (Nat × U)}
  {x y : Nat × U} {c : Color} {d : Dir} {E : Fault → Heap (Node U) → Prop}

/-! ## unlinking -/

/-- a node was taken from between the path and `t`; its record `node` is not freed yet -/
structure Removed (L : List (Nat × U)) (node : Nat × Node U) (p : RbPath (Nat × U))
    (t : RbTree (Nat × U)) (u : Unlinked) (h : Heap (Node U)) : Prop where
  owns : Owns h ({node} + cells none (p.fill t))
  list : (p.fill t).toList = L
  child : u.child = ptr t
  parent : u.parent = pathPtr none p
  newRoot : u.newRoot = ptr (p.fill t)
  balanced : ∃ c n, t.Balanced c n ∧ (u.colorOfUnlinked = .red → p.Balanced c n) ∧
    (u.colorOfUnlinked = .black → p.Balanced .black (n+1))

variable {fuel : Nat} {root : Ptr} {c' : Color}

lemma balanced_of_removed {near far : RbTree (Nat × U)} {n : Nat}
    (ht : (mk d c near x far).Balanced c' n) (hp : p.Balanced c' n) :
    ∃ c1 k, near.Balanced c1 k ∧ (c = .red → p.Balanced c1 k) ∧ (c = .black → p.Balanced .black (k+1)) := by
  cases c with
  | red =>
    obtain ⟨rfl, hnear, -⟩ := Balanced.of_mkRed ht
    exact ⟨_, n, hnear, fun _ => hp.toBlack, fun hc => Color.noConfusion hc⟩
  | black =>
    obtain ⟨k, c1, c2, rfl, rfl, hnear, -⟩ := Balanced.of_mkBlack ht
    exact ⟨c1, k, hnear, fun hc => Color.noConfusion hc, fun _ => hp⟩

lemma unlinkNode_spec (hrep : Represents h root (p.fill (mk d c t x leaf))) :
    wp (unlinkNode (some x.1) (Node.mk' d x.2 (pathPtr none p) (ptr t) none c) root)
      (fun u h' => ∃ node : Node U, Removed (p.before ++ t.toList ++ p.after) (x.1, node) p t u h')
      E h := by
  obtain ⟨ho, hroot, m, hm⟩ := hrep
  obtain ⟨c', n, ht, hp⟩ := RbPath.balanced_of_fill hm
  have hchild : (if (Node.mk' d x.2 (pathPtr none p) (ptr t) none c).left ≠ none then
      (Node.mk' d x.2 (pathPtr none p) (ptr t) none c).left else
      (Node.mk' d x.2 (pathPtr none p) (ptr t) none c).right) = ptr t := by
    cases d with
    | left =>
      show (if ptr t ≠ none then ptr t else none) = ptr t
      by_cases hn : ptr t = none
      · rw [if_neg (fun h => h hn), hn]
      · rw [if_pos hn]
    | right => exact if_neg (fun h => h rfl)
  unfold unlinkNode
  rw [hchild, Node.mk'_parent, Node.mk'_color, wp_bind]
  have ho1 : Owns h (cells (some x.1) t + (cell d x (pathPtr none p) (ptr t) none c +
      pathCells none (some x.1) p)) := by
    rw [cells_focus, cells, add_zero, ptr_leaf] at ho
    exact Owns.of_eq ho (by abel)
  refine wp_adopt ho1 fun h2 ho2 => ?_
  rw [wp_bind]
  have ho3 : Owns h2 (cell d x (pathPtr none p) (ptr t) none c + pathCells none (some x.1) p +
      cells (pathPtr none p) t) := Owns.of_eq ho2 (by abel)
  refine wp_replaceChild ho3 fun h4 ho4 => ?_
  refine ⟨Node.mk' d x.2 (pathPtr none p) (ptr t) none c, ?_, RbPath.toList_fill p t, rfl, rfl, ?_, ?_⟩
  · rw [cells_fill, ← add_assoc]
    exact ho4
  · rw [hroot]
    exact newRoot_eq _ _ _
  · exact balanced_of_removed ht hp

lemma leftmost_spec (l : RbTree (Nat × U)) (p : RbPath (Nat × U)) (c : Color) (y : Nat × U)
    (r : RbTree (Nat × U)) (fuel : Nat) (ho : Owns h (cells none (p.fill (node c l y r)))) :
    wp (repeatWhile (fun s => s.left ≠ none) leftmostStep .stuck (fuel + l.height + 1) ⟨some y.1, ptr l⟩)
      (fun s h' => h' = h ∧ ∃ q c1 z r1, node c l y r = RbPath.fill q (node c1 leaf z r1) ∧
        (∀ f, f ∈ q → f.dir = .left) ∧ s.node = some z.1) E h := by
  induction l generalizing p c y r fuel with
  | leaf =>
    rw [wp_repeatWhile_succ]
    exact ⟨fun hc => absurd rfl hc, fun _ =>
      ⟨rfl, [], c, y, r, rfl, fun f hf => absurd hf not_mem_nil, rfl⟩⟩
  | node c' l' y' r' ihl ihr =>
    rw [wp_repeatWhile_succ]
    refine ⟨fun _ => ?_, fun hn => absurd (Option.some_ne_none _) hn⟩
    unfold leftmostStep
    rw [wp_bind, ptr_node]
    refine wp_root (p := ⟨.left, c, y, r⟩ :: p) (d := .left) ho ?_
    rw [wp_pure, height]
    have hfuel : fuel + (max l'.height r'.height + 1) =
        (fuel + (max l'.height r'.height - l'.height)) + l'.height + 1 := by omega
    rw [hfuel]
    refine wp_post (ihl (⟨.left, c, y, r⟩ :: p) c' y' r' _ ho) ?_
    rintro s h' ⟨rfl, q, c1, z, r1, hq, hdir, hs⟩
    refine ⟨rfl, q ++ [⟨.left, c, y, r⟩], c1, z, r1, ?_, ?_, hs⟩
    · rw [RbPath.fill_append, ← hq]
      rfl
    · intro f hf
      rcases mem_append.mp hf with hf | hf
      · exact hdir f hf
      · rw [mem_singleton.mp hf]

/-- the successor has been unlinked: it is on its own, above what is left of the right subtree -/
def SuccessorUnlinked (m : Multiset (Nat × Node U)) (r : RbTree (Nat × U)) (s : ToRelink)
    (h : Heap (Node U)) : Prop :=
  ∃ q c₁ y r₁ parent, r = RbPath.fill q (node c₁ leaf y r₁) ∧ q.before = [] ∧ s.toRelink = some y.1 ∧
    s.child = ptr r₁ ∧ s.parent = pathPtr (some y.1) q ∧
    Owns h (cell .left y parent none (ptr (RbPath.fill q r₁)) c₁ + (cells (some y.1) (RbPath.fill q r₁) + m))

lemma unlinkSuccessor_spec {rl rr : RbTree (Nat × U)} {z : Nat × U}
    (hr : r = node c' rl z rr) (ho : Owns h (cells none (p.fill (node c l x r))))
    (hfuel : r.toList.length + 1 ≤ fuel) : wp (unlinkSuccessor fuel (ptr r) ⟨z.2, some x.1, ptr rl, ptr rr, c'⟩)
      (SuccessorUnlinked (cell .left x (pathPtr none p) (ptr l) (ptr r) c +
        (pathCells none (some x.1) p + cells (some x.1) l)) r) E h := by
  have hcells : cells none (p.fill (node c l x r)) = cells (some x.1) r +
      (cell .left x (pathPtr none p) (ptr l) (ptr r) c + (pathCells none (some x.1) p + cells (some x.1) l)) := by
    rw [show node c l x r = mk .left c l x r from rfl, cells_focus]
    abel
  have ho0 := ho
  rw [hcells] at ho
  generalize cell .left x (pathPtr none p) (ptr l) (ptr r) c +
    (pathCells none (some x.1) p + cells (some x.1) l) = m at ho ⊢
  unfold unlinkSuccessor
  by_cases hleft : rl = leaf
  · -- the right child is the successor
    subst hleft
    subst hr
    refine ⟨[], c', z, rr, some x.1, rfl, rfl, rfl, rfl, rfl, ?_⟩
    rw [cells, cells, add_zero] at ho
    exact Owns.of_eq ho (by rw [add_assoc]; rfl)
  · rw [if_neg (fun hn => hleft (ptr_eq_none.mp hn)), wp_bind]
    have hheight := height_le_length r
    rw [hr, height, ← hr] at hheight
    have hloop := leftmost_spec (E := E) rl (⟨.right, c, x, l⟩ :: p) c' z rr (fuel - (rl.height + 1)) (hr ▸ ho0)
    rw [show fuel - (rl.height + 1) + rl.height + 1 = fuel by omega] at hloop
    have hptr : ptr r = some z.1 := by rw [hr, ptr_node]
    rw [← hptr] at hloop
    refine wp_post hloop ?_
    rintro s h' ⟨rfl, q, c1, y, r1, hq, hdir, hs⟩
    rw [← hr] at hq
    cases q with
    | nil =>
      rw [hr] at hq
      obtain rfl : rl = leaf := by
        cases hq
        rfl
      exact absurd rfl hleft
    | cons f q =>
      have hset : Node.setChild (U := U) .left (ptr r1) = Node.setChild f.dir (ptr r1) := by
        rw [hdir f mem_cons_self]
      have hptr1 : ptr r = ptr (RbPath.fill (f :: q) r1) := by
        rw [hq]
        exact ptr_fill (cons_ne_nil _ _)
      have hsplit : cells (some x.1) r = pathCells (some x.1) (some y.1) (f :: q) +
          (cell .left y (some f.label.1) none (ptr r1) c1 + cells (some y.1) r1) := by
        rw [hq, cells_fill, ptr_node, cells, cells, add_zero]
        rfl
      rw [hsplit] at ho
      rw [hs, wp_bind]
      have ho1 : Owns h' (cell .left y (some f.label.1) none (ptr r1) c1 +
          (pathCells (some x.1) (some y.1) (f :: q) + cells (some y.1) r1 + m)) :=
        Owns.of_eq ho (by abel)
      refine wp_load ho1 rfl ?_
      show wp (store (some f.label.1) (Node.setChild .left (ptr r1)) >>= _) _ _ h'
      rw [wp_bind, hset]
      have ho2 : Owns h' (pathCells (some x.1) (some y.1) (f :: q) +
          (cell .left y (some f.label.1) none (ptr r1) c1 + cells (some y.1) r1 + m)) :=
        Owns.of_eq ho (by abel)
      refine wp_setHole ho2 fun h3 ho3 => ?_
      show wp (adopt (ptr r1) (some f.label.1) >>= _) _ _ h3
      rw [wp_bind]
      have ho4 : Owns h3 (cells (some y.1) r1 + (pathCells (some x.1) (ptr r1) (f :: q) +
          cell .left y (some f.label.1) none (ptr r1) c1 + m)) := Owns.of_eq ho3 (by abel)
      refine wp_adopt ho4 fun h5 ho5 => ?_
      rw [wp_bind]
      have ho6 : Owns h5 (cell .left y (some f.label.1) none (ptr r1) c1 +
          (cells (some x.1) (RbPath.fill (f :: q) r1) + m)) := by
        rw [cells_fill]
        exact Owns.of_eq ho5 (by rw [pathPtr]; abel)
      refine wp_setFar ho6 fun h7 ho7 => ?_
      rw [wp_bind, hptr1]
      rw [hptr1] at ho7
      have ho8 : Owns h7 (cells (some x.1) (RbPath.fill (f :: q) r1) +
          (cell .left y (some f.label.1) none (ptr (RbPath.fill (f :: q) r1)) c1 + m)) :=
        Owns.of_eq ho7 (by abel)
      refine wp_reparent (RbPath.fill_ne_leaf (p := q) (mk_ne_leaf _ _ _ _ _)) ho8 fun h9 ho9 => ?_
      refine ⟨f :: q, c1, y, r1, some f.label.1, hq, RbPath.before_eq_nil hdir, rfl, rfl, rfl, ?_⟩
      exact Owns.of_eq ho9 (by abel)

lemma relinkSuccessor_spec (hl : l ≠ leaf) (hr : r ≠ leaf)
    (hrep : Represents h root (p.fill (node c l x r))) (hfuel : r.toList.length + 1 ≤ fuel) :
    wp (relinkSuccessor fuel (some x.1) ⟨x.2, pathPtr none p, ptr l, ptr r, c⟩ root) (fun u h' => ∃ node p' t,
        Removed (p.before ++ l.toList ++ r.toList ++ p.after) (x.1, node) p' t u h') E h := by
  obtain ⟨ho, hroot, m, hm⟩ := hrep
  obtain ⟨c', rl, z, rr, hrr⟩ := exists_mk .left hr
  have hload : Owns h (cell .left z (some x.1) (ptr rl) (ptr rr) c' +
      (cells (some z.1) rl + cells (some z.1) rr + (cell .left x (pathPtr none p) (ptr l) (ptr r) c +
        (pathCells none (some x.1) p + cells (some x.1) l)))) := by
    rw [show node c l x r = mk .left c l x r from rfl, cells_focus] at ho
    refine Owns.of_eq ho ?_
    rw [show cells (some x.1) r = cells (some x.1) (mk .left c' rl z rr) by rw [← hrr], cells_mk]
    abel
  unfold relinkSuccessor
  rw [wp_bind, show ptr r = some z.1 by rw [hrr, ptr_mk]]
  refine wp_load hload rfl ?_
  rw [wp_bind, ← show ptr r = some z.1 by rw [hrr, ptr_mk]]
  refine wp_post (unlinkSuccessor_spec hrr ho hfuel) ?_
  rintro s h1 ⟨q, c1, y, r1, parent, hq, hbefore, hs, hchild, hparent, ho1⟩
  rw [hs, wp_bind]
  refine wp_setNear ho1 fun h2 ho2 => ?_
  rw [wp_bind]
  have ho3 : Owns h2 (cells (some x.1) l + (cell .left y parent (ptr l) (ptr (RbPath.fill q r1)) c1 +
      (cells (some y.1) (RbPath.fill q r1) + (cell .left x (pathPtr none p) (ptr l) (ptr r) c +
        pathCells none (some x.1) p)))) := Owns.of_eq ho2 (by abel)
  refine wp_reparent hl ho3 fun h4 ho4 => ?_
  rw [wp_bind]
  have ho5 : Owns h4 (cell .left y parent (ptr l) (ptr (RbPath.fill q r1)) c1 +
      (cell .left x (pathPtr none p) (ptr l) (ptr r) c + (cells (some y.1) (RbPath.fill q r1) +
        cells (some y.1) l + pathCells none (some x.1) p))) := Owns.of_eq ho4 (by abel)
  refine wp_load ho5 rfl ?_
  rw [wp_bind]
  have ho6 : Owns h4 (cell .left x (pathPtr none p) (ptr l) (ptr r) c +
      (cell .left y parent (ptr l) (ptr (RbPath.fill q r1)) c1 + (cells (some y.1) (RbPath.fill q r1) +
        cells (some y.1) l + pathCells none (some x.1) p))) := Owns.of_eq ho5 (by abel)
  refine wp_load ho6 rfl ?_
  rw [wp_bind, Node.mk'_color]
  refine wp_setColor ho5 fun h7 ho7 => ?_
  rw [wp_bind]
  refine wp_setParent ho7 fun h8 ho8 => ?_
  rw [wp_bind]
  have ho9 : Owns h8 (cell .left x (pathPtr none p) (ptr l) (ptr r) c + pathCells none (some x.1) p +
      (cell .left y (pathPtr none p) (ptr l) (ptr (RbPath.fill q r1)) c +
        (cells (some y.1) (RbPath.fill q r1) + cells (some y.1) l))) := Owns.of_eq ho8 (by abel)
  refine wp_replaceChild ho9 fun h10 ho10 => ?_
  -- the tree that results, seen from the child of the successor
  have hfill : RbPath.fill (q ++ ⟨.right, c, y, l⟩ :: p) r1 = p.fill (mk .left c l y (RbPath.fill q r1)) := by
    rw [RbPath.fill_append]
    rfl
  have hbal : RbPath.fill (q ++ ⟨.right, c, x, l⟩ :: p) (node c1 leaf y r1) = p.fill (node c l x r) := by
    rw [RbPath.fill_append, ← hq]
    rfl
  rw [← hbal] at hm
  obtain ⟨cc, n, ht, hp⟩ := RbPath.balanced_of_fill hm
  refine ⟨Node.mk' .left x.2 (pathPtr none p) (ptr l) (ptr r) c, q ++ ⟨.right, c, y, l⟩ :: p, r1, ?_⟩
  exact {
    owns := by
      rw [hfill, cells_focus]
      exact Owns.of_eq ho10 (by abel)
    list := by
      rw [hfill, hq, RbPath.toList_fill, RbPath.toList_fill]
      simp [mk, toList, RbPath.toList_fill, hbefore]
    child := hchild
    parent := by
      show s.parent = _
      rw [hparent]
      cases q <;> rfl
    newRoot := by
      rw [hfill, hroot, ← ptr_mk .left c l (RbPath.fill q r1) y]
      exact newRoot_eq _ _ _
    balanced := balanced_of_removed (d := .right) ht (hp.relabel x y) }

/-! ## the loop that takes the black-increment up -/

/-- with a black-increment at its root, `t` has the black height `n + 1`; a red root takes the
increment, its children may be red -/
def Lacking (t : RbTree (Nat × U)) (n : Nat) : Prop :=
  t.Balanced .black n ∨ (t.color = .red ∧ t.blacken.Balanced .black (n+1))

/-- the black-increment is at `Child`, the end of the path -/
structure DeleteInv (L : List (Nat × U)) (p : RbPath (Nat × U)) (t : RbTree (Nat × U)) (n : Nat)
    (s : DeleteFix) (h : Heap (Node U)) : Prop where
  owns : Owns h (cells none (p.fill t))
  list : (p.fill t).toList = L
  tree : Lacking t n
  path : p.Balanced .black (n+1)
  child : s.child = ptr t
  parent : p ≠ [] → s.parent = pathPtr none p
  newRoot : s.newRoot = ptr (p.fill t)
  running : s.running = true

/-- behind the loop only `Child` may have the wrong color -/
def DeleteDone (L : List (Nat × U)) (s : DeleteFix) (h : Heap (Node U)) : Prop :=
  s.running = false ∧ ∃ (p : RbPath (Nat × U)) (t : RbTree (Nat × U)),
    Owns h (cells none (p.fill t)) ∧ (p.fill t).toList = L ∧ s.child = ptr t ∧
    s.newRoot = ptr (p.fill t) ∧ ∃ m, (p.fill t.blacken).Balanced .black m

/-- how far the loop may still go: a red child ends it -/
def distance (p : RbPath (Nat × U)) (t : RbTree (Nat × U)) : Nat :=
  if t.color = .red then 0 else p.length

/-- the sibling of `Child` is black -/
structure SiblingInv (L : List (Nat × U)) (d : Dir) (c : Color) (x : Nat × U) (sib : RbTree (Nat × U))
    (p : RbPath (Nat × U)) (t : RbTree (Nat × U)) (n : Nat) (h : Heap (Node U)) : Prop where
  owns : Owns h (cells none (p.fill (mk d c t x sib)))
  list : (p.fill (mk d c t x sib)).toList = L
  tree : t.Balanced .black n
  path : RbPath.Balanced (⟨d, c, x, sib⟩ :: p) .black (n+1)

variable {L : List (Nat × U)} {n : Nat} {s : DeleteFix} {sib near far : RbTree (Nat × U)}

/-- a red sibling is rotated above the parent -/
lemma blackSibling_spec (hi : SiblingInv L d c x sib p t n h) :
    wp (blackSibling d (some x.1) (ptr sib) (ptr (p.fill (mk d c t x sib))))
      (fun r h' => ∃ c' sib' p', SiblingInv L d c' x sib' p' t n h' ∧ sib'.color = .black ∧
        r = (ptr sib', ptr (p'.fill (mk d c' t x sib'))) ∧ (c' = .red ∨ p'.length = p.length)) E h := by
  obtain ⟨ho, hlist, ht, hpath⟩ := hi
  have hne : sib ≠ leaf := by
    cases hpath with
    | red _ _ hs _ => exact hs.ne_leaf
    | black _ _ _ hs _ => exact hs.ne_leaf
  obtain ⟨cs, near, y, far, rfl⟩ := exists_mk d hne
  have hsib : Owns h (cells none (RbPath.fill (⟨d.other, c, x, t⟩ :: p) (mk d cs near y far))) := by
    rw [RbPath.fill_other]
    exact ho
  unfold blackSibling
  rw [wp_bind, ptr_mk]
  refine wp_root hsib ?_
  rw [Node.mk'_color, wp_ite]
  refine ⟨fun hred => ?_, fun hblack => ?_⟩
  · subst hred
    cases hpath with
    | red _ _ hs _ => cases hs.color_eq.symm.trans (color_mk _ _ _ _ _)
    | @black _ _ _ _ _ _ _ hs hup =>
      obtain ⟨-, hnear, hfar⟩ := Balanced.of_mkRed hs
      rw [wp_bind]
      refine wp_recolor hsib fun h1 ho1 => ?_
      rw [RbPath.fill_other] at ho1
      rw [wp_bind]
      refine wp_recolor ho1 fun h2 ho2 => ?_
      rw [wp_bind]
      have hroot : ptr (p.fill (mk d .black t x (mk d .red near y far))) =
          ptr (p.fill (mk d .red t x (mk d .black near y far))) :=
        ptr_fill_congr ((ptr_mk _ _ _ _ _).trans (ptr_mk _ _ _ _ _).symm) p
      rw [hroot]
      refine wp_rotate ho2 fun h3 ho3 => ?_
      rw [wp_bind]
      refine wp_root (p := ⟨d, .black, y, far⟩ :: p) (d := d) ho3 ?_
      rw [Node.mk'_child_other, wp_bind]
      refine wp_check (fun hn => hnear.ne_leaf (ptr_eq_none.mp hn)) ?_
      refine ⟨.red, near, ⟨d, .black, y, far⟩ :: p, ⟨ho3, ?_, ht, ?_⟩, hnear.color_eq, rfl, .inl rfl⟩
      · rw [← hlist]
        refine RbPath.toList_fill_congr (p := p) ?_
        cases d <;> simp [mk, toList]
      · exact .red _ _ hnear (.black _ _ _ hfar hup)
  · rw [wp_pure]
    obtain rfl : cs = .black := by
      cases cs with
      | red => exact absurd rfl hblack
      | black => rfl
    exact ⟨c, _, p, ⟨ho, hlist, ht, hpath⟩, color_mk _ _ _ _ _, by rw [ptr_mk], .inr rfl⟩

lemma nephews_balanced (hi : SiblingInv L d c x (mk d .black near y far) p t n h) :
    ∃ c1 c2, near.Balanced c1 n ∧ far.Balanced c2 n := by
  have hsib : ∃ c', (mk d .black near y far).Balanced c' (n+1) := by
    cases hi.path with
    | red _ _ hs _ => exact ⟨_, hs⟩
    | black _ _ _ hs _ => exact ⟨_, hs⟩
  obtain ⟨c', hs⟩ := hsib
  obtain ⟨k, c1, c2, -, hk, hnear, hfar⟩ := Balanced.of_mkBlack hs
  obtain rfl : n = k := Nat.succ.inj hk
  exact ⟨c1, c2, hnear, hfar⟩

lemma sibling_owns (hi : SiblingInv L d c x sib p t n h) :
    Owns h (cells none (RbPath.fill (⟨d.other, c, x, t⟩ :: p) sib)) := by
  rw [RbPath.fill_other]
  exact hi.owns

section
variable (hi : SiblingInv L d c x (mk d .black near y far) p t n h)
include hi

/-- if only the near nephew is red, it is rotated above the sibling -/
lemma redFarNephew_spec (hred : ¬ (near.color = .black ∧ far.color = .black)) :
    wp (redFarNephew d (some x.1) (some y.1) (ptr near) (ptr far)
        (ptr (p.fill (mk d c t x (mk d .black near y far)))))
      (fun r h' => ∃ near' y' far', SiblingInv L d c x (mk d .black near' y' far') p t n h' ∧ far'.color = .red ∧
        r = ⟨some y'.1, ptr far', ptr (p.fill (mk d c t x (mk d .black near' y' far')))⟩) E h := by
  obtain ⟨c1, c2, hnear, hfar⟩ := nephews_balanced hi
  have hsib := sibling_owns hi
  have hfarOwns : Owns h (cells none (RbPath.fill (⟨d.other, .black, y, near⟩ :: ⟨d.other, c, x, t⟩ :: p) far)) := by
    rw [RbPath.fill_other]
    exact hsib
  unfold redFarNephew
  rw [wp_bind]
  refine wp_nodeIsNullOrBlack hfarOwns ?_
  rw [wp_ite]
  refine ⟨fun hblack => ?_, fun hn => ?_⟩
  · have hfarBlack : far.color = .black := of_decide_eq_true hblack
    obtain rfl : c2 = .black := hfar.color_eq.symm.trans hfarBlack
    obtain rfl : c1 = .red := by
      cases c1 with
      | red => rfl
      | black => exact absurd ⟨hnear.color_eq, hfarBlack⟩ hred
    obtain ⟨cn, n1, z, n2, rfl⟩ := exists_mk d (t := near) (by
      rintro rfl
      cases hnear)
    obtain rfl : cn = .red := (color_mk _ _ _ _ _).symm.trans hnear.color_eq
    obtain ⟨-, hn1, hn2⟩ := Balanced.of_mkRed hnear
    rw [wp_bind, ptr_mk]
    refine wp_recolor (p := ⟨d, .black, y, far⟩ :: ⟨d.other, c, x, t⟩ :: p) (d := d) hsib fun h1 ho1 => ?_
    rw [wp_bind]
    refine wp_recolor (p := ⟨d.other, c, x, t⟩ :: p) (d := d) ho1 fun h2 ho2 => ?_
    rw [wp_bind]
    -- the same tree, seen from the other side
    have hflip : mk d .red (mk d .black n1 z n2) y far =
        mk d.other .red far y (mk d.other .black n2 z n1) := by rw [mk_other, mk_other]
    have hback : mk d.other .black (mk d.other .red far y n2) z n1 =
        mk d .black n1 z (mk d .red n2 y far) := by rw [mk_other, mk_other]
    have ho3 : Owns h2 (cells none (RbPath.fill (⟨d.other, c, x, t⟩ :: p)
        (mk d.other .red far y (mk d.other .black n2 z n1)))) := hflip ▸ ho2
    have hroot : ptr (p.fill (mk d c t x (mk d .black (mk d .red n1 z n2) y far))) =
        ptr (RbPath.fill (⟨d.other, c, x, t⟩ :: p) (mk d.other .red far y (mk d.other .black n2 z n1))) := by
      exact ptr_fill_congr ((ptr_mk _ _ _ _ _).trans (ptr_mk _ _ _ _ _).symm) p
    rw [hroot]
    refine wp_rotate ho3 fun h4 ho4 => ?_
    rw [hback] at ho4 ⊢
    rw [RbPath.fill_other] at ho4 ⊢
    rw [wp_bind]
    refine wp_root ho4 ?_
    rw [Node.mk'_child_other, ptr_mk, wp_bind]
    have ho5 := ho4
    rw [← RbPath.fill_other] at ho5
    refine wp_root ho5 ?_
    rw [Node.mk'_child_other, wp_pure]
    refine ⟨n1, z, mk d .red n2 y far, ⟨ho4, ?_, hi.tree, ?_⟩, color_mk _ _ _ _ _, rfl⟩
    · rw [← hi.list]
      refine RbPath.toList_fill_congr (p := p) ?_
      cases d <;> simp [mk, toList]
    · exact hi.path.resibling (hn1.mkBlack (hn2.mkRed hfar))
  · rw [wp_pure]
    have hfarRed : far.color = .red := by
      cases hc : far.color with
      | red => rfl
      | black => exact absurd (decide_eq_true hc) hn
    exact ⟨near, y, far, hi, hfarRed, rfl⟩

lemma flushIncrement_spec (hred : far.color = .red) :
    wp (flushIncrement d (some x.1) ⟨some y.1, ptr far, ptr (p.fill (mk d c t x (mk d .black near y far)))⟩)
      (fun r h' => ∃ T m, Owns h' (cells none T) ∧ T.toList = L ∧ r = ptr T ∧ T.Balanced .black m)
      E h := by
  obtain ⟨c1, c2, hnear, hfar⟩ := nephews_balanced hi
  obtain ⟨cf, f1, w, f2, rfl⟩ := exists_mk d (t := far) (by
    rintro rfl
    cases hred)
  rw [color_mk] at hred
  subst hred
  obtain ⟨-, hf1, hf2⟩ := Balanced.of_mkRed hfar
  have hsib := sibling_owns hi
  have hfarOwns : Owns h (cells none (RbPath.fill (⟨d.other, .black, y, near⟩ :: ⟨d.other, c, x, t⟩ :: p)
      (mk d .red f1 w f2))) := by
    rw [RbPath.fill_other]
    exact hsib
  unfold flushIncrement
  rw [wp_bind, ptr_mk]
  refine wp_check (Option.some_ne_none _) ?_
  rw [wp_bind]
  refine wp_root hfarOwns ?_
  rw [wp_bind, Node.mk'_color]
  refine wp_check rfl ?_
  rw [wp_bind]
  refine wp_check (Option.some_ne_none _) ?_
  rw [wp_bind]
  refine wp_root hsib ?_
  rw [wp_bind, Node.mk'_color]
  refine wp_check rfl ?_
  rw [wp_bind]
  refine wp_root hi.owns ?_
  rw [wp_bind, Node.mk'_color]
  -- the sibling, the parent and the far nephew change their colors
  refine wp_recolor hsib fun h1 ho1 => ?_
  rw [RbPath.fill_other] at ho1
  rw [wp_bind]
  refine wp_recolor ho1 fun h2 ho2 => ?_
  rw [wp_bind]
  rw [← RbPath.fill_other, ← RbPath.fill_other] at ho2
  refine wp_recolor ho2 fun h3 ho3 => ?_
  rw [RbPath.fill_other, RbPath.fill_other] at ho3
  have hroot : ptr (p.fill (mk d c t x (mk d .black near y (mk d .red f1 w f2)))) =
      ptr (p.fill (mk d .black t x (mk d c near y (mk d .black f1 w f2)))) :=
    ptr_fill_congr ((ptr_mk _ _ _ _ _).trans (ptr_mk _ _ _ _ _).symm) p
  rw [hroot]
  refine wp_rotate ho3 fun h4 ho4 => ?_
  obtain ⟨m, hm⟩ := hi.path.fill_node (y := y) (hi.tree.mkBlack (x := x) (d := d) hnear)
    (hf1.mkBlack (x := w) (d := d) hf2)
  refine ⟨_, m, ho4, ?_, rfl, hm⟩
  rw [← hi.list]
  refine RbPath.toList_fill_congr (p := p) ?_
  cases d <;> simp [mk, toList]

end

/-- a turn ends the loop or brings `Child` closer to its end -/
def DeleteNext (L : List (Nat × U)) (k : Nat) (s : DeleteFix) (h : Heap (Node U)) : Prop :=
  DeleteDone L s h ∨ ∃ p t n, distance p t < k ∧ DeleteInv L p t n s h

/-- the sibling becomes red, the increment goes to the parent -/
lemma lacking_parent (hi : SiblingInv L d c x (mk d .black near y far) p t n h)
    (hnear : near.color = .black) (hfar : far.color = .black) :
    ∃ k, Lacking (mk d c t x (mk d .red near y far)) k ∧ p.Balanced .black (k+1) := by
  obtain ⟨c1, c2, hn, hf⟩ := nephews_balanced hi
  obtain rfl : c1 = .black := hn.color_eq.symm.trans hnear
  obtain rfl : c2 = .black := hf.color_eq.symm.trans hfar
  have hred : (mk d .red near y far).Balanced .red n := hn.mkRed hf
  cases hi.path with
  | red _ _ _ hp =>
    refine ⟨n, .inr ⟨color_mk _ _ _ _ _, ?_⟩, hp.toBlack⟩
    rw [blacken_mk]
    exact hi.tree.mkBlack hred
  | black _ _ _ _ hp => exact ⟨n+1, .inl (hi.tree.mkBlack hred), hp⟩

/-- **the body of the loop** -/
theorem deleteRepair_spec (hi : SiblingInv L d c x sib p t n h) (hparent : s.parent = some x.1)
    (hroot : s.newRoot = ptr (p.fill (mk d c t x sib))) (hrun : s.running = true) :
    wp (deleteRepair d s) (DeleteNext L (p.length + 1)) E h := by
  have hne : sib ≠ leaf := by
    cases hi.path with
    | red _ _ hs _ => exact hs.ne_leaf
    | black _ _ _ hs _ => exact hs.ne_leaf
  unfold deleteRepair
  rw [wp_bind, hparent]
  refine wp_root hi.owns ?_
  rw [Node.mk'_child_other, wp_bind]
  refine wp_check (fun hn => hne (ptr_eq_none.mp hn)) ?_
  rw [wp_bind, hroot]
  refine wp_post (blackSibling_spec hi) ?_
  rintro _ h1 ⟨c, sib, p1, hi, hblack, rfl, hlen⟩
  obtain ⟨cs, near, y, far, rfl⟩ := exists_mk d (t := sib) (by
    cases hi.path with
    | red _ _ hs _ => exact hs.ne_leaf
    | black _ _ _ hs _ => exact hs.ne_leaf)
  rw [color_mk] at hblack
  subst hblack
  have hsib := sibling_owns hi
  show wp (load (ptr (mk d .black near y far)) >>= _) _ _ h1
  rw [wp_bind, ptr_mk]
  refine wp_root hsib ?_
  rw [wp_bind, Node.mk'_color]
  refine wp_check rfl ?_
  rw [wp_bind, Node.mk'_child, Node.mk'_child_other]
  refine wp_nodeIsNullOrBlack (p := ⟨d, .black, y, far⟩ :: ⟨d.other, c, x, t⟩ :: p1) hsib ?_
  rw [wp_bind]
  have hfarOwns : Owns h1 (cells none
      (RbPath.fill (⟨d.other, .black, y, near⟩ :: ⟨d.other, c, x, t⟩ :: p1) far)) := by
    rw [RbPath.fill_other]
    exact hsib
  refine wp_nodeIsNullOrBlack hfarOwns ?_
  rw [wp_ite]
  refine ⟨fun hb => ?_, fun hb => ?_⟩
  · obtain ⟨k, hlack, hp⟩ := lacking_parent hi (of_decide_eq_true hb.1) (of_decide_eq_true hb.2)
    rw [wp_bind]
    refine wp_recolor hsib fun h2 ho2 => ?_
    rw [RbPath.fill_other] at ho2
    rw [wp_bind]
    refine wp_root ho2 ?_
    rw [wp_pure, Node.mk'_parent]
    refine .inr ⟨p1, mk d c t x (mk d .red near y far), k, ?_, ?_⟩
    · -- a red parent ends the loop, otherwise the path is shorter
      unfold distance
      rw [color_mk]
      rcases hlen with rfl | hlen
      · exact Nat.succ_pos _
      · split
        · exact Nat.succ_pos _
        · omega
    · exact {
        owns := ho2
        list := by
          rw [← hi.list]
          refine RbPath.toList_fill_congr (p := p1) ?_
          cases d <;> rfl
        tree := hlack
        path := hp
        child := (ptr_mk _ _ _ _ _).symm
        parent := fun _ => rfl
        newRoot := ptr_fill_congr ((ptr_mk _ _ _ _ _).trans (ptr_mk _ _ _ _ _).symm) p1
        running := hrun }
  · have hred : ¬ (near.color = .black ∧ far.color = .black) :=
      fun hc => hb ⟨decide_eq_true hc.1, decide_eq_true hc.2⟩
    refine wp_seq (redFarNephew_spec hi hred) ?_
    rintro _ h2 ⟨near', y', far', hi', hred', rfl⟩
    refine wp_seq (flushIncrement_spec hi' hred') ?_
    rintro _ h3 ⟨T, m, ho, hlist, rfl, hm⟩
    refine .inr ⟨[], T, m, ?_, ho, hlist, .inl hm, .root _, rfl, fun hn => absurd rfl hn, rfl, hrun⟩
    unfold distance
    split <;> exact Nat.succ_pos _

lemma deleteTurn_spec (hi : DeleteInv L p t n s h) :
    wp (deleteTurn s) (fun s' h' => DeleteDone L s' h' ∨
      ∃ p' t' n', distance p' t' < distance p t ∧ DeleteInv L p' t' n' s' h') E h := by
  unfold deleteTurn
  cases p with
  | nil =>
    rw [if_pos (hi.child.trans hi.newRoot.symm), wp_pure]
    refine .inl ⟨rfl, [], t, hi.owns, hi.list, hi.child, hi.newRoot, ?_⟩
    rcases hi.tree with ht | ⟨-, ht⟩
    · exact ht.blacken
    · exact ⟨_, ht⟩
  | cons f p =>
    have htop : s.child ≠ s.newRoot := by
      rw [hi.child, hi.newRoot]
      exact ptr_fill_ne hi.owns (cons_ne_nil _ _)
    rw [if_neg htop, wp_bind, hi.child]
    refine wp_nodeIsNullOrBlack hi.owns ?_
    rcases hi.tree with ht | ⟨hred, ht⟩
    · obtain ⟨d, c, x, sib⟩ := f
      have hsib : SiblingInv L d c x sib p t n h := ⟨hi.owns, hi.list, ht, hi.path⟩
      have hne : sib ≠ leaf := by
        cases hi.path with
        | red _ _ hs _ => exact hs.ne_leaf
        | black _ _ _ hs _ => exact hs.ne_leaf
      have hside : ptr sib ≠ ptr t := siblings_ne hsib.owns (.inr hne)
      have hdist : distance (⟨d, c, x, sib⟩ :: p) t = p.length + 1 := by
        unfold distance
        rw [ht.color_eq, if_neg (fun hc => Color.noConfusion hc)]
        rfl
      rw [ht.color_eq, wp_ite]
      refine ⟨fun hc => absurd hc (by decide), fun _ => ?_⟩
      rw [wp_bind, hi.parent (cons_ne_nil _ _)]
      refine wp_root hsib.owns ?_
      rw [Node.mk'_side hside, hdist]
      exact deleteRepair_spec hsib (hi.parent (cons_ne_nil _ _)) hi.newRoot hi.running
    · rw [hred, wp_ite]
      refine ⟨fun _ => ?_, fun hn => absurd rfl hn⟩
      exact .inl ⟨rfl, f :: p, t, hi.owns, hi.list, rfl, hi.newRoot, hi.path.fill ht⟩

/-- **the loop** -/
theorem deleteLoop_spec (fuel : Nat) (hi : DeleteInv L p t n s h) :
    wp (repeatWhile (fun s => s.running = true) deleteTurn .stuck (fuel + distance p t + 2) s)
      (DeleteDone L) E h := by
  refine wp_repeatWhile_measure (fun k s h => ∃ p t n, distance p t = k ∧ DeleteInv L p t n s h) ?_
    fuel (distance p t) ⟨p, t, n, rfl, hi⟩
  rintro k s h ⟨p, t, n, rfl, hi⟩
  refine ⟨hi.running, wp_post (deleteTurn_spec hi) ?_⟩
  rintro s' h' (hdone | ⟨p', t', n', hlt, hi'⟩)
  · exact .inl ⟨fun hc => Bool.false_ne_true (hdone.1.symm.trans hc), hdone⟩
  · exact .inr ⟨_, hlt, p', t', n', rfl, hi'⟩

/-! ## the whole function -/

lemma absorb_spec {node : Nat × Node U} {u : Unlinked} {h0 : Heap (Node U)}
    (hr : Removed L node p t u h0) (ho : Owns h (cells none (p.fill t))) (hfuel : L.length + 2 ≤ fuel) :
    wp (absorb fuel u) (fun root h' => ∃ T, Represents h' root T ∧ T.toList = L) E h := by
  obtain ⟨c, n, ht, hred, hblack⟩ := hr.balanced
  unfold absorb
  rw [wp_ite]
  refine ⟨fun hc => ?_, fun hc => ?_⟩
  · have hlack : Lacking t n := by
      cases c with
      | black => exact .inl ht
      | red =>
        obtain ⟨ct, near, y, far, rfl⟩ := exists_mk .left (t := t) (by
          rintro rfl
          cases ht)
        obtain rfl : ct = .red := (color_mk _ _ _ _ _).symm.trans ht.color_eq
        obtain ⟨-, hnear, hfar⟩ := Balanced.of_mkRed ht
        refine .inr ⟨ht.color_eq, ?_⟩
        rw [blacken_mk]
        exact hnear.mkBlack hfar
    have hinv : DeleteInv L p t n ⟨u.child, u.parent, u.newRoot, true⟩ h :=
      ⟨ho, hr.list, hlack, hblack hc, hr.child, fun _ => hr.parent, hr.newRoot, rfl⟩
    have hdist : distance p t + 2 ≤ fuel := by
      have hlen := RbPath.length_le p t
      rw [hr.list] at hlen
      unfold distance
      split <;> omega
    have hloop := deleteLoop_spec (E := E) (fuel - (distance p t + 2)) hinv
    rw [show fuel - (distance p t + 2) + distance p t + 2 = fuel by omega] at hloop
    refine wp_seq hloop ?_
    rintro s h1 ⟨-, q, t', ho1, hlist, hchild, hroot, m, hm⟩
    rw [hchild, hroot]
    by_cases hleaf : t' = leaf
    · subst hleaf
      exact ⟨_, ⟨ho1, rfl, m, hm⟩, hlist⟩
    obtain ⟨ct, near, y, far, rfl⟩ := exists_mk .left hleaf
    rw [ptr_mk, if_neg (Option.some_ne_none _), wp_bind]
    refine wp_recolor ho1 fun h2 ho2 => ?_
    refine ⟨_, ⟨ho2, ?_, m, hm⟩, ?_⟩
    · exact ptr_fill_congr ((ptr_mk _ _ _ _ _).trans (ptr_mk _ _ _ _ _).symm) q
    · rw [← hlist]
      exact RbPath.toList_fill_congr (toList_recolor _ _ _ _ _ _) q
  · rw [wp_pure]
    have hu : u.colorOfUnlinked = .red := by
      cases hcolor : u.colorOfUnlinked with
      | red => rfl
      | black => exact absurd hcolor hc
    exact ⟨_, ⟨ho, hr.newRoot, (hred hu).fill ht⟩, hr.list⟩

lemma unlink_spec (hrep : Represents h root (p.fill (node c l x r))) (hfuel : r.toList.length + 1 ≤ fuel) :
    wp (unlink fuel (some x.1) ⟨x.2, pathPtr none p, ptr l, ptr r, c⟩ root) (fun u h' => ∃ node p' t,
        Removed (p.before ++ l.toList ++ r.toList ++ p.after) (x.1, node) p' t u h') E h := by
  unfold unlink
  rw [wp_ite]
  refine ⟨fun hc => ?_, fun hc => ?_⟩
  · by_cases hl : l = leaf
    · subst hl
      refine wp_post (unlinkNode_spec (d := .right) (t := r) hrep) ?_
      rintro u h' ⟨node, hr⟩
      refine ⟨node, p, r, ?_⟩
      simpa [toList] using hr
    · obtain rfl : r = leaf := ptr_eq_none.mp (hc.resolve_left (fun hn => hl (ptr_eq_none.mp hn)))
      refine wp_post (unlinkNode_spec (d := .left) (t := l) hrep) ?_
      rintro u h' ⟨node, hr⟩
      refine ⟨node, p, l, ?_⟩
      simpa [toList] using hr
  · exact relinkSuccessor_spec (fun hl => hc (.inl (by rw [hl]; rfl)))
      (fun hr => hc (.inr (by rw [hr]; rfl))) hrep hfuel

/-- **deletion**: the node is removed, and nothing else -/
theorem orderedCollectionDelete_spec (hrep : Represents h root (p.fill (node c l x r)))
    (hfuel : (p.fill (node c l x r)).toList.length + 2 ≤ fuel) : wp (orderedCollectionDelete fuel (some x.1) root)
      (fun d h' => d.userStruct = x.2 ∧ ∃ T, Represents h' d.root T ∧
        T.toList = p.before ++ l.toList ++ r.toList ++ p.after) E h := by
  have hlen := congrArg List.length (RbPath.toList_fill p (node c l x r))
  simp only [toList, List.length_append, List.length_cons] at hlen
  unfold orderedCollectionDelete
  rw [wp_bind]
  refine wp_root (d := .left) hrep.owns ?_
  refine wp_seq (unlink_spec hrep (by omega)) ?_
  rintro u h1 ⟨node, p', t, hr⟩
  rw [wp_bind]
  refine wp_release hr.owns rfl fun h2 ho2 => ?_
  refine wp_seq (absorb_spec hr ho2 ?_) ?_
  · simp only [List.length_append]
    omega
  · rintro root' h3 ⟨T, hrep', hlist⟩
    exact ⟨rfl, T, hrep', hlist⟩

end

end Audk.OrderedCollection
