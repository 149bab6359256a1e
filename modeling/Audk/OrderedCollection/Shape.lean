import Audk.OrderedCollection.Model

/-!
# The nodes of a tree on the heap

A tree of `(address, UserStruct)` pairs says where every node is and what its links are: `cells`.  The
functions of the source that change links are functions on trees.

* `wp_rotate`: a rotation;
* `wp_root`, `wp_recolor`: a node at the focus.
-/

namespace Audk.OrderedCollection

open Prog RecordHeap RedBlack RedBlack.RbTree

section
variable {U : Type}

/-- a node with the child `near` on the side `d` -/
def Node.mk' (d : Dir) (userStruct : U) (parent near far : Ptr) (c : Color) : Node U :=
  match d with
  | .left => ⟨userStruct, parent, near, far, c⟩
  | .right => ⟨userStruct, parent, far, near, c⟩

section
variable (d : Dir) (u : U) (parent near far p : Ptr) (c c' : Color)

@[simp] lemma Node.mk'_child : (Node.mk' d u parent near far c).child d = near := by cases d <;> rfl

@[simp] lemma Node.mk'_child_other : (Node.mk' d u parent near far c).child d.other = far := by
  cases d <;> rfl

@[simp] lemma Node.mk'_parent : (Node.mk' d u parent near far c).parent = parent := by cases d <;> rfl

@[simp] lemma Node.mk'_color : (Node.mk' d u parent near far c).color = c := by cases d <;> rfl

@[simp] lemma Node.mk'_userStruct : (Node.mk' d u parent near far c).userStruct = u := by
  cases d <;> rfl

@[simp] lemma Node.setChild_mk' :
    (Node.mk' d u parent near far c).setChild d p = Node.mk' d u parent p far c := by cases d <;> rfl

@[simp] lemma Node.setChild_other_mk' :
    (Node.mk' d u parent near far c).setChild d.other p = Node.mk' d u parent near p c := by
  cases d <;> rfl

@[simp] lemma Node.setParent_mk' :
    (Node.mk' d u parent near far c).setParent p = Node.mk' d u p near far c := by cases d <;> rfl

@[simp] lemma Node.setColor_mk' :
    (Node.mk' d u parent near far c).setColor c' = Node.mk' d u parent near far c' := by cases d <;> rfl

end

lemma Node.mk'_side {d : Dir} {u : U} {parent near far : Ptr} {c : Color} (h : far ≠ near) :
    (if near = (Node.mk' d u parent near far c).left then Dir.left else Dir.right) = d := by
  cases d with
  | left => exact if_pos rfl
  | right => exact if_neg (Ne.symm h)

/-! ## cells -/

def ptr (t : RbTree (Nat × U)) : Ptr := t.root.map Prod.fst

@[simp] lemma ptr_leaf : ptr (leaf : RbTree (Nat × U)) = none := rfl

@[simp] lemma ptr_node (c : Color) (l r : RbTree (Nat × U)) (x : Nat × U) : ptr (node c l x r) = some x.1 := rfl

@[simp] lemma ptr_mk (d : Dir) (c : Color) (near far : RbTree (Nat × U)) (x : Nat × U) :
    ptr (mk d c near x far) = some x.1 := by cases d <;> rfl

lemma ptr_eq_none {t : RbTree (Nat × U)} : ptr t = none ↔ t = leaf := by cases t <;> simp [ptr, root]

/-- the node of `x`, with the child `near` on the side `d` -/
abbrev cell (d : Dir) (x : Nat × U) (parent near far : Ptr) (c : Color) : Multiset (Nat × Node U) :=
  {(x.1, Node.mk' d x.2 parent near far c)}

/-- the nodes of a tree whose root has the given parent -/
def cells (parent : Ptr) : RbTree (Nat × U) → Multiset (Nat × Node U)
  | leaf => 0
  | node c l x r =>
    {(x.1, ⟨x.2, parent, ptr l, ptr r, c⟩)} + cells (some x.1) l + cells (some x.1) r

/-- the parent of what is at the end of a path -/
def pathPtr (base : Ptr) : RbPath (Nat × U) → Ptr
  | [] => base
  | f :: _ => some f.label.1

/-- the nodes of a path and beside it; `hole` is the address of what is at its end -/
def pathCells (base hole : Ptr) : RbPath (Nat × U) → Multiset (Nat × Node U)
  | [] => 0
  | f :: p =>
    cell f.dir f.label (pathPtr base p) hole (ptr f.sibling) f.color +
      cells (some f.label.1) f.sibling + pathCells base (some f.label.1) p

variable {d : Dir} {c : Color} {near far t s : RbTree (Nat × U)} {x : Nat × U} {base q : Ptr} {p : RbPath (Nat × U)}

lemma cells_mk (q : Ptr) :
    cells q (mk d c near x far) =
      cell d x q (ptr near) (ptr far) c + cells (some x.1) near + cells (some x.1) far := by
  cases d with
  | left => rfl
  | right =>
    show {_} + cells (some x.1) far + cells (some x.1) near = _
    rw [add_right_comm]
    rfl

lemma cells_fill (base : Ptr) (p : RbPath (Nat × U)) (t : RbTree (Nat × U)) :
    cells base (p.fill t) = pathCells base (ptr t) p + cells (pathPtr base p) t := by
  induction p generalizing t with
  | nil => exact (zero_add _).symm
  | cons f p ih =>
    rw [RbPath.fill_cons, ih, cells_mk, pathCells, ptr_mk, pathPtr]
    abel

lemma map_fst_cells (q : Ptr) (t : RbTree (Nat × U)) :
    (cells q t).map Prod.fst = (t.toList.map Prod.fst : List Nat) := by
  induction t generalizing q with
  | leaf => rfl
  | node c l x r ihl ihr =>
    rw [cells, Multiset.map_add, Multiset.map_add, ihl, ihr, Multiset.map_singleton, toList,
      List.map_append, List.map_cons, ← Multiset.coe_add, ← Multiset.cons_coe,
      ← Multiset.singleton_add]
    abel

/-- the root of the whole tree only changes with the focus if the focus is the root -/
lemma ptr_fill (hp : p ≠ []) : ptr (p.fill t) = ptr (p.fill s) := by
  induction p generalizing t s with
  | nil => exact absurd rfl hp
  | cons f p ih =>
    by_cases h : p = []
    · subst h
      simp [RbPath.fill]
    · exact ih h

lemma ptr_fill_congr (h : ptr t = ptr s) (p : RbPath (Nat × U)) : ptr (p.fill t) = ptr (p.fill s) := by
  by_cases hp : p = []
  · subst hp
    exact h
  · exact ptr_fill hp

lemma newRoot_eq (p : RbPath (Nat × U)) (t s : RbTree (Nat × U)) :
    (if p = [] then ptr s else ptr (p.fill t)) = ptr (p.fill s) := by
  by_cases hp : p = []
  · subst hp
    exact if_pos rfl
  · rw [if_neg hp]
    exact ptr_fill hp

/-! ## links -/

variable {h : Heap (Node U)} {m : Multiset (Nat × Node U)} {a : Nat} {n : Node U} {E : Fault → Heap (Node U) → Prop}

lemma ptr_ne_of_owns (ho : Owns h ({(a, n)} + cells q t + m)) : ptr t ≠ some a := by
  cases t with
  | leaf => exact (Option.some_ne_none a).symm
  | node c l x r =>
    intro hx
    obtain rfl : x.1 = a := Option.some.inj hx
    rw [add_assoc] at ho
    refine ho.notMem ⟨x.2, q, ptr l, ptr r, c⟩ ?_
    simp only [cells, Multiset.mem_add, Multiset.mem_singleton, true_or]

lemma wp_reparent {q' : Ptr} {Q : Unit → Heap (Node U) → Prop} (ht : t ≠ leaf)
    (ho : Owns h (cells q t + m)) (hQ : ∀ h', Owns h' (cells q' t + m) → Q () h') :
    wp (store (ptr t) (Node.setParent q')) Q E h := by
  cases t with
  | leaf => exact absurd rfl ht
  | node c l x r =>
    have hcells : ∀ q, cells q (node c l x r) + m = {(x.1, ⟨x.2, q, ptr l, ptr r, c⟩)} +
        (cells (some x.1) l + cells (some x.1) r + m) := by
      intro q
      rw [cells]
      abel
    refine wp_store ho (hcells q) fun h' ho' => hQ h' ?_
    rw [hcells q']
    exact ho'

lemma wp_adopt {q' : Ptr} {Q : Unit → Heap (Node U) → Prop} (ho : Owns h (cells q t + m))
    (hQ : ∀ h', Owns h' (cells q' t + m) → Q () h') : wp (adopt (ptr t) q') Q E h := by
  unfold adopt
  by_cases ht : t = leaf
  · subst ht
    exact hQ h ho
  · rw [if_neg (fun hn => ht (ptr_eq_none.mp hn))]
    exact wp_reparent ht ho hQ

lemma wp_setHole {f : RbFrame (Nat × U)} {hole hole' : Ptr} {Q : Unit → Heap (Node U) → Prop}
    (ho : Owns h (pathCells base hole (f :: p) + m))
    (hQ : ∀ h', Owns h' (pathCells base hole' (f :: p) + m) → Q () h') :
    wp (store (some f.label.1) (Node.setChild f.dir hole')) Q E h := by
  have hcells : ∀ hole, pathCells base hole (f :: p) + m =
      cell f.dir f.label (pathPtr base p) hole (ptr f.sibling) f.color +
        (cells (some f.label.1) f.sibling + pathCells base (some f.label.1) p + m) := by
    intro hole
    rw [pathCells]
    abel
  refine wp_store ho (hcells hole) fun h' ho' => hQ h' ?_
  rw [hcells hole']
  rwa [Node.setChild_mk'] at ho'

lemma wp_replaceChild {new newRoot : Ptr} {Q : Ptr → Heap (Node U) → Prop}
    (ho : Owns h ({(a, n)} + pathCells none (some a) p + m))
    (hQ : ∀ h', Owns h' ({(a, n)} + pathCells none new p + m) → Q (if p = [] then new else newRoot) h') :
    wp (replaceChild (pathPtr none p) (some a) new newRoot) Q E h := by
  unfold replaceChild
  cases p with
  | nil => exact hQ h ho
  | cons f p =>
    rw [pathPtr, if_neg (Option.some_ne_none _), wp_bind]
    have hload : {(a, n)} + pathCells none (some a) (f :: p) + m =
        cell f.dir f.label (pathPtr none p) (some a) (ptr f.sibling) f.color +
          ({(a, n)} + cells (some f.label.1) f.sibling + pathCells none (some f.label.1) p + m) := by
      rw [pathCells]
      abel
    refine wp_load ho hload ?_
    -- the sibling is another node
    have hsibling : ptr f.sibling ≠ some a := by
      have hcells : {(a, n)} + pathCells none (some a) (f :: p) + m =
          {(a, n)} + cells (some f.label.1) f.sibling +
            (cell f.dir f.label (pathPtr none p) (some a) (ptr f.sibling) f.color +
              pathCells none (some f.label.1) p + m) := by
        rw [pathCells]
        abel
      rw [hcells] at ho
      exact ptr_ne_of_owns ho
    rw [Node.mk'_side hsibling, wp_bind]
    rw [add_comm {(a, n)}, add_assoc] at ho
    refine wp_setHole ho fun h' ho' => hQ h' ?_
    rw [add_comm {(a, n)}, add_assoc]
    exact ho'

lemma exists_root_cell (base hole : Ptr) (p : RbPath (Nat × U)) (t : RbTree (Nat × U)) (hp : p ≠ []) :
    ∃ a n m, ptr (p.fill t) = some a ∧ pathCells base hole p = {(a, n)} + m := by
  induction p generalizing t hole with
  | nil => exact absurd rfl hp
  | cons f p ih =>
    by_cases h : p = []
    · subst h
      exact ⟨_, _, _, ptr_mk _ _ _ _ _, add_assoc _ _ _⟩
    · obtain ⟨a, n, m, hptr, hm⟩ := ih (some f.label.1) _ h
      have hcells : pathCells base hole (f :: p) = {(a, n)} +
          (cell f.dir f.label (pathPtr base p) hole (ptr f.sibling) f.color +
            cells (some f.label.1) f.sibling + m) := by rw [pathCells, hm, add_left_comm]
      exact ⟨a, n, _, hptr, hcells⟩

lemma ptr_fill_ne (ho : Owns h (cells none (p.fill t))) (hp : p ≠ []) : ptr t ≠ ptr (p.fill t) := by
  obtain ⟨a, n, m, hptr, hm⟩ := exists_root_cell none (ptr t) p t hp
  rw [cells_fill, hm, add_right_comm] at ho
  rw [hptr]
  exact ptr_ne_of_owns ho

lemma siblings_ne {y : Nat × U} (ho : Owns h (cells none (p.fill (mk d c near y far))))
    (hne : near ≠ leaf ∨ far ≠ leaf) : ptr far ≠ ptr near := by
  rw [cells_fill, cells_mk] at ho
  cases near with
  | leaf =>
    have hfar : far ≠ leaf := hne.resolve_left (fun h => h rfl)
    exact fun h => hfar (ptr_eq_none.mp h)
  | node c' l x r =>
    have hcells : pathCells none (ptr (mk d c (node c' l x r) y far)) p +
        (cell d y (pathPtr none p) (ptr (node c' l x r)) (ptr far) c +
          cells (some y.1) (node c' l x r) + cells (some y.1) far) =
        {(x.1, ⟨x.2, some y.1, ptr l, ptr r, c'⟩)} + cells (some y.1) far +
          (pathCells none (ptr (mk d c (node c' l x r) y far)) p +
            cell d y (pathPtr none p) (ptr (node c' l x r)) (ptr far) c +
            cells (some x.1) l + cells (some x.1) r) := by
      rw [cells]
      abel
    rw [hcells] at ho
    exact ptr_ne_of_owns ho

/-! ## one node -/

section
variable {parent near far p : Ptr} {Q : Unit → Heap (Node U) → Prop}

section
variable (ho : Owns h (cell d x parent near far c + m))
include ho

lemma wp_setParent (hQ : ∀ h', Owns h' (cell d x p near far c + m) → Q () h') :
    wp (store (some x.1) (Node.setParent p)) Q E h := by
  refine wp_store ho rfl fun h' ho' => hQ h' ?_
  rwa [Node.setParent_mk'] at ho'

lemma wp_setColor {c' : Color} (hQ : ∀ h', Owns h' (cell d x parent near far c' + m) → Q () h') :
    wp (store (some x.1) (Node.setColor c')) Q E h := by
  refine wp_store ho rfl fun h' ho' => hQ h' ?_
  rwa [Node.setColor_mk'] at ho'

lemma wp_setNear (hQ : ∀ h', Owns h' (cell d x parent p far c + m) → Q () h') :
    wp (store (some x.1) (Node.setChild d p)) Q E h := by
  refine wp_store ho rfl fun h' ho' => hQ h' ?_
  rwa [Node.setChild_mk'] at ho'

lemma wp_setFar (hQ : ∀ h', Owns h' (cell d x parent near p c + m) → Q () h') :
    wp (store (some x.1) (Node.setChild d.other p)) Q E h := by
  refine wp_store ho rfl fun h' ho' => hQ h' ?_
  rwa [Node.setChild_other_mk'] at ho'

end

end

lemma Owns.of_eq {m' : Multiset (Nat × Node U)} (ho : Owns h m) (hm : m = m') : Owns h m' := hm ▸ ho

/-! ## the node at the focus -/

lemma cells_focus (d : Dir) (p : RbPath (Nat × U)) (c : Color) (near far : RbTree (Nat × U)) (x : Nat × U) :
    cells none (p.fill (mk d c near x far)) =
      cell d x (pathPtr none p) (ptr near) (ptr far) c +
        (pathCells none (some x.1) p + cells (some x.1) near + cells (some x.1) far) := by
  rw [cells_fill, cells_mk, ptr_mk]
  abel

lemma wp_root {Q : Node U → Heap (Node U) → Prop} (ho : Owns h (cells none (p.fill (mk d c near x far))))
    (hQ : Q (Node.mk' d x.2 (pathPtr none p) (ptr near) (ptr far) c) h) : wp (load (some x.1)) Q E h :=
  wp_load ho (cells_focus d p c near far x) hQ

lemma wp_recolor {c' : Color} {Q : Unit → Heap (Node U) → Prop}
    (ho : Owns h (cells none (p.fill (mk d c near x far))))
    (hQ : ∀ h', Owns h' (cells none (p.fill (mk d c' near x far))) → Q () h') :
    wp (store (some x.1) (Node.setColor c')) Q E h := by
  refine wp_store ho (cells_focus d p c near far x) fun h' ho' => hQ h' ?_
  rw [cells_focus]
  rwa [Node.setColor_mk'] at ho'

lemma wp_nodeIsNullOrBlack {Q : Bool → Heap (Node U) → Prop} (ho : Owns h (cells none (p.fill t)))
    (hQ : Q (decide (t.color = .black)) h) : wp (nodeIsNullOrBlack (ptr t)) Q E h := by
  unfold nodeIsNullOrBlack
  cases t with
  | leaf => exact hQ
  | node c l x r =>
    rw [ptr_node, if_neg (Option.some_ne_none _), wp_bind]
    exact wp_root (d := .left) ho hQ

/-! ## rotations -/

/-- **a rotation to the side `d`** -/
theorem wp_rotate {cx cy : Color} {inner outer : RbTree (Nat × U)} {y : Nat × U} {Q : Ptr → Heap (Node U) → Prop}
    (ho : Owns h (cells none (p.fill (mk d cx near x (mk d cy inner y outer)))))
    (hQ : ∀ h', Owns h' (cells none (p.fill (mk d cy (mk d cx near x inner) y outer))) →
      Q (ptr (p.fill (mk d cy (mk d cx near x inner) y outer))) h') :
    wp (rotate d (some x.1) (ptr (p.fill (mk d cx near x (mk d cy inner y outer))))) Q E h := by
  have hroot : (if p = [] then some y.1 else ptr (p.fill (mk d cx near x (mk d cy inner y outer)))) =
      ptr (p.fill (mk d cy (mk d cx near x inner) y outer)) := by
    rw [← ptr_mk d cy (mk d cx near x inner) outer y]
    exact newRoot_eq _ _ _
  rw [cells_focus, cells_mk, ptr_mk] at ho
  unfold rotate
  rw [wp_bind]
  refine wp_load ho rfl ?_
  rw [Node.mk'_parent, Node.mk'_child_other, wp_bind]
  have ho1 : Owns h (cell d y (some x.1) (ptr inner) (ptr outer) cy +
      (cell d x (pathPtr none p) (ptr near) (some y.1) cx + (pathCells none (some x.1) p +
        cells (some x.1) near + cells (some y.1) inner + cells (some y.1) outer))) :=
    Owns.of_eq ho (by abel)
  refine wp_load ho1 rfl ?_
  rw [Node.mk'_child, wp_bind]
  refine wp_setFar ho fun h2 ho2 => ?_
  rw [wp_bind]
  have ho3 : Owns h2 (cells (some y.1) inner + (cell d x (pathPtr none p) (ptr near) (ptr inner) cx +
      cell d y (some x.1) (ptr inner) (ptr outer) cy + (pathCells none (some x.1) p +
        cells (some x.1) near + cells (some y.1) outer))) :=
    Owns.of_eq ho2 (by abel)
  refine wp_adopt ho3 fun h4 ho4 => ?_
  rw [wp_bind]
  have ho5 : Owns h4 (cell d y (some x.1) (ptr inner) (ptr outer) cy +
      (cell d x (pathPtr none p) (ptr near) (ptr inner) cx + (pathCells none (some x.1) p +
        cells (some x.1) near + cells (some x.1) inner + cells (some y.1) outer))) :=
    Owns.of_eq ho4 (by abel)
  refine wp_setParent ho5 fun h6 ho6 => ?_
  rw [wp_bind]
  have ho7 : Owns h6 (cell d x (pathPtr none p) (ptr near) (ptr inner) cx +
      pathCells none (some x.1) p + (cell d y (pathPtr none p) (ptr inner) (ptr outer) cy +
        (cells (some x.1) near + cells (some x.1) inner + cells (some y.1) outer))) :=
    Owns.of_eq ho6 (by abel)
  refine wp_replaceChild ho7 fun h8 ho8 => ?_
  rw [wp_bind, hroot]
  have ho9 : Owns h8 (cell d y (pathPtr none p) (ptr inner) (ptr outer) cy +
      (cell d x (pathPtr none p) (ptr near) (ptr inner) cx + (pathCells none (some y.1) p +
        cells (some x.1) near + cells (some x.1) inner + cells (some y.1) outer))) :=
    Owns.of_eq ho8 (by abel)
  refine wp_setNear ho9 fun h10 ho10 => ?_
  rw [wp_bind]
  have ho11 : Owns h10 (cell d x (pathPtr none p) (ptr near) (ptr inner) cx +
      (cell d y (pathPtr none p) (some x.1) (ptr outer) cy + (pathCells none (some y.1) p +
        cells (some x.1) near + cells (some x.1) inner + cells (some y.1) outer))) :=
    Owns.of_eq ho10 (by abel)
  refine wp_setParent ho11 fun h12 ho12 => hQ h12 ?_
  rw [cells_focus, cells_mk, ptr_mk]
  exact Owns.of_eq ho12 (by abel)

/-! ## collections -/

/-- the heap holds the red-black tree `T`, and nothing else -/
structure Represents (h : Heap (Node U)) (root : Ptr) (T : RbTree (Nat × U)) : Prop where
  owns : Owns h (cells none T)
  root : root = ptr T
  balanced : ∃ m, T.Balanced .black m

end

end Audk.OrderedCollection
