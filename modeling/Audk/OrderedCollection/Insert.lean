import Audk.OrderedCollection.Search

/-!
# Insertion

* `insertElement`: what an insertion does to the elements;
* `orderedCollectionInsert_spec`: the whole function.
-/

namespace Audk.OrderedCollection

open Prog RecordHeap RedBlack RedBlack.RbTree List

section
variable {U : Type} {cmp : U → U → Int} {h : Heap (Node U)} {u : U} {p : RbPath (Nat × U)}
  {t : RbTree (Nat × U)} {E : Fault → Heap (Node U) → Prop}

/-! ## the loop that restores property #3 -/

/-- the red node `Tmp` is at the end of the path; property #3 may be broken between it and its parent -/
structure InsertInv (L : List (Nat × U)) (p : RbPath (Nat × U)) (t : RbTree (Nat × U)) (n : Nat)
    (s : InsertFix) (h : Heap (Node U)) : Prop where
  owns : Owns h (cells none (p.fill t))
  list : (p.fill t).toList = L
  tree : t.Balanced .red n
  path : p.Balanced .black n
  tmp : s.tmp = ptr t
  parent : s.parent = pathPtr none p
  newRoot : s.newRoot = ptr (p.fill t)
  running : s.running = true

/-- behind the loop only the root may have the wrong color -/
def InsertDone (L : List (Nat × U)) (s : InsertFix) (h : Heap (Node U)) : Prop :=
  s.running = false ∧ ∃ T : RbTree (Nat × U), T ≠ leaf ∧ Owns h (cells none T) ∧ T.toList = L ∧
    s.newRoot = ptr T ∧ ∃ m, T.blacken.Balanced .black m

/-- a turn ends the loop or brings `Tmp` closer to the root -/
def InsertNext (L : List (Nat × U)) (k : Nat) (s : InsertFix) (h : Heap (Node U)) : Prop :=
  InsertDone L s h ∨ ∃ p t n, p.length < k ∧ InsertInv L p t n s h

variable {L : List (Nat × U)} {n : Nat} {s : InsertFix} {d e : Dir} {x y : Nat × U} {sib uncle : RbTree (Nat × U)}

section
variable (hi : InsertInv L (⟨d, .red, x, sib⟩ :: ⟨e, .black, y, uncle⟩ :: p) t n s h)
include hi

/-- the uncle is red: the grandparent takes the black from its children -/
lemma insertRepair_red (hred : uncle.color = .red) :
    wp (insertRepair e (some y.1) s) (InsertNext L (p.length + 2)) E h := by
  obtain ⟨ho, hlist, htree, hpath, htmp, hparent, hroot, hrun⟩ := hi
  cases hpath with
  | red _ _ hsib hpath =>
    cases hpath with
    | black _ _ _ huncle hup =>
      obtain ⟨cu, near, z, far, rfl⟩ := exists_mk e (t := uncle) (by
        rintro rfl
        cases hred)
      rw [color_mk] at hred
      subst hred
      obtain ⟨rfl, hnear, hfar⟩ := Balanced.of_mkRed huncle
      unfold insertRepair
      rw [wp_bind]
      refine wp_root (p := p) ho ?_
      rw [Node.mk'_child_other, wp_bind]
      have hu : Owns h (cells none (RbPath.fill (⟨e.other, .black, y, mk d .red t x sib⟩ :: p)
          (mk e .red near z far))) := by
        rw [RbPath.fill_flip]
        exact ho
      refine wp_nodeIsNullOrBlack hu ?_
      rw [color_mk, wp_ite]
      refine ⟨fun _ => ?_, fun hn => absurd rfl hn⟩
      -- the parent, the uncle and the grandparent change their colors
      rw [wp_bind, hparent, ptr_mk]
      refine wp_recolor (p := ⟨e, .black, y, mk e .red near z far⟩ :: p) (d := d) ho fun h1 ho1 => ?_
      rw [wp_bind]
      rw [← RbPath.fill_flip] at ho1
      refine wp_recolor ho1 fun h2 ho2 => ?_
      rw [wp_bind]
      rw [RbPath.fill_flip] at ho2
      refine wp_recolor (p := p) (d := e) ho2 fun h3 ho3 => ?_
      rw [wp_bind]
      refine wp_root ho3 ?_
      rw [wp_pure, Node.mk'_parent]
      have hinv : InsertInv L p (mk e .red (mk d .black t x sib) y (mk e .black near z far)) (n+1)
          ⟨some y.1, pathPtr none p, s.newRoot, s.running⟩ h3 := {
        owns := ho3
        list := by
          rw [← hlist]
          refine RbPath.toList_fill_congr ?_ p
          cases d <;> cases e <;> rfl
        tree := (htree.mkBlack hsib).mkRed (hnear.mkBlack hfar)
        path := hup
        tmp := (ptr_mk _ _ _ _ _).symm
        parent := rfl
        newRoot := hroot.trans (ptr_fill_congr ((ptr_mk _ _ _ _ _).trans (ptr_mk _ _ _ _ _).symm) p)
        running := hrun }
      exact .inr ⟨p, _, _, by omega, hinv⟩

lemma straighten_spec :
    wp (straighten e (some y.1) s) (fun s' h' => ∃ x' sib' t',
        InsertInv L (⟨e, .red, x', sib'⟩ :: ⟨e, .black, y, uncle⟩ :: p) t' n s' h') E h := by
  have hi' := hi
  obtain ⟨ho, hlist, htree, hpath, htmp, hparent, hroot, hrun⟩ := hi
  obtain ⟨ct, t1, z, t2, rfl⟩ := exists_mk e (t := t) (by
    rintro rfl
    cases htree)
  unfold straighten
  rw [wp_bind, hparent]
  refine wp_root (p := ⟨e, .black, y, uncle⟩ :: p) (d := d) ho ?_
  by_cases hd : d = e
  · subst hd
    have hne : ptr sib ≠ ptr (mk d ct t1 z t2) := siblings_ne ho (.inl (mk_ne_leaf _ _ _ _ _))
    rw [Node.mk'_child_other, htmp, if_neg hne.symm, wp_pure]
    exact ⟨x, sib, _, hi'⟩
  obtain rfl := Dir.eq_other hd
  obtain rfl : ct = .red := (color_mk e ct t1 t2 z).symm.trans htree.color_eq
  obtain ⟨-, ht1, ht2⟩ := Balanced.of_mkRed htree
  cases hpath with
  | red _ _ hsib hpath =>
    rw [Node.mk'_child, htmp, if_pos rfl, wp_bind]
    rw [RbPath.fill_other] at ho hroot hlist
    rw [hroot]
    refine wp_rotate ho fun h1 ho1 => ?_
    rw [wp_bind]
    refine wp_root (p := ⟨e, .red, z, t2⟩ :: ⟨e, .black, y, uncle⟩ :: p) (d := e) ho1 ?_
    rw [Node.mk'_parent, wp_bind]
    refine wp_root (p := ⟨e, .black, y, uncle⟩ :: p) (d := e) ho1 ?_
    rw [Node.mk'_parent, wp_bind]
    refine wp_check rfl ?_
    refine ⟨z, t2, mk e .red sib x t1, ?_⟩
    exact {
      owns := ho1
      list := by
        rw [← hlist]
        exact RbPath.toList_fill_congr (toList_rotate _ _ _ _ _ _ _ _).symm _
      tree := hsib.mkRed ht1
      path := .red _ _ ht2 hpath
      tmp := (ptr_mk _ _ _ _ _).symm
      parent := rfl
      newRoot := rfl
      running := hrun }

/-- the uncle is black: the child is brought to the outer side, then the parent above the grandparent -/
lemma insertRepair_black (hblack : uncle.color = .black) :
    wp (insertRepair e (some y.1) s) (InsertNext L (p.length + 2)) E h := by
  have huncle : Owns h (cells none (RbPath.fill (⟨e.other, .black, y, mk d .red t x sib⟩ :: p) uncle)) := by
    rw [RbPath.fill_flip]
    exact hi.owns
  unfold insertRepair
  rw [wp_bind]
  refine wp_root (p := p) hi.owns ?_
  rw [Node.mk'_child_other, wp_bind]
  refine wp_nodeIsNullOrBlack huncle ?_
  rw [hblack, wp_ite]
  refine ⟨fun hc => absurd hc (by decide), fun _ => ?_⟩
  refine wp_seq (straighten_spec hi) ?_
  rintro s1 h1 ⟨x, sib, t, hi⟩
  obtain ⟨ho, hlist, htree, hpath, htmp, hparent, hroot, hrun⟩ := hi
  cases hpath with
  | red _ _ hsib hpath =>
    cases hpath with
    | @black _ _ c _ _ _ _ hu hup =>
      obtain rfl : c = .black := hu.color_eq.symm.trans hblack
      rw [wp_bind, hparent]
      refine wp_recolor (p := ⟨e, .black, y, uncle⟩ :: p) (d := e) ho fun h2 ho2 => ?_
      rw [wp_bind]
      refine wp_recolor (p := p) (d := e) ho2 fun h3 ho3 => ?_
      rw [wp_bind]
      -- the same tree, seen from the other side
      have hflip : mk e .red (mk e .black t x sib) y uncle =
          mk e.other .red uncle y (mk e.other .black sib x t) := by rw [mk_other, mk_other]
      have hback : mk e.other .black (mk e.other .red uncle y sib) x t =
          mk e .black t x (mk e .red sib y uncle) := by rw [mk_other, mk_other]
      have hroot3 : s1.newRoot = ptr (p.fill (mk e.other .red uncle y (mk e.other .black sib x t))) := by
        refine hroot.trans (ptr_fill_congr (p := p) ?_)
        exact (ptr_mk _ _ _ _ _).trans (ptr_mk _ _ _ _ _).symm
      have ho4 : Owns h3 (cells none (p.fill (mk e.other .red uncle y (mk e.other .black sib x t)))) := hflip ▸ ho3
      rw [hroot3]
      refine wp_rotate ho4 fun h5 ho5 => ?_
      rw [wp_pure, hback]
      rw [hback] at ho5
      have hinv : InsertInv L (⟨e, .black, x, mk e .red sib y uncle⟩ :: p) t n
          ⟨s1.tmp, some x.1, ptr (p.fill (mk e .black t x (mk e .red sib y uncle))), s1.running⟩
          h5 := {
        owns := ho5
        list := by
          rw [← hlist]
          refine RbPath.toList_fill_congr (p := p) ?_
          cases e <;> simp [mk, toList]
        tree := htree
        path := .black _ _ _ (hsib.mkRed hu) hup
        tmp := htmp
        parent := rfl
        newRoot := rfl
        running := hrun }
      refine .inr ⟨_, t, n, ?_, hinv⟩
      exact Nat.lt_succ_self (p.length + 1)

end

lemma insertTurn_spec (hi : InsertInv L p t n s h) : wp (insertTurn s) (InsertNext L p.length) E h := by
  have hne : t ≠ leaf := by
    rintro rfl
    cases hi.tree
  unfold insertTurn
  cases hp : hi.path with
  | root =>
    rw [if_pos (hi.tmp.trans hi.newRoot.symm), wp_pure]
    exact .inl ⟨rfl, t, hne, hi.owns, hi.list, hi.newRoot, hi.tree.blacken⟩
  | black d x c' hs hup =>
    have htop : s.tmp ≠ s.newRoot := by
      rw [hi.tmp, hi.newRoot]
      exact ptr_fill_ne hi.owns (cons_ne_nil _ _)
    rw [if_neg htop, wp_bind, hi.parent]
    refine wp_root (d := d) hi.owns ?_
    rw [Node.mk'_color, if_pos rfl, wp_pure]
    -- the parent is black, nothing is broken
    have hfill := RbPath.Balanced.fill (.black d x .red hs hup) hi.tree
    obtain ⟨m, hm⟩ := hfill
    exact .inl ⟨rfl, _, RbPath.fill_ne_leaf hne, hi.owns, hi.list, hi.newRoot, hm.blacken⟩
  | @red sib up _ d x hs hup =>
    have htop : s.tmp ≠ s.newRoot := by
      rw [hi.tmp, hi.newRoot]
      exact ptr_fill_ne hi.owns (cons_ne_nil _ _)
    cases hup with
    | @black uncle up c _ e y _ hu hup =>
      have ho : Owns h (cells none (up.fill (mk e .black (mk d .red t x sib) y uncle))) := hi.owns
      have hside : ptr uncle ≠ ptr (mk d .red t x sib) := siblings_ne ho (.inl (mk_ne_leaf _ _ _ _ _))
      rw [if_neg htop, wp_bind, hi.parent]
      refine wp_root (d := d) hi.owns ?_
      rw [Node.mk'_color, Node.mk'_parent]
      show wp (load (some y.1) >>= _) _ _ h
      rw [wp_bind]
      refine wp_root ho ?_
      rw [ptr_mk] at hside ⊢
      show wp (insertRepair (if some x.1 = (Node.mk' e y.2 (pathPtr none up) (some x.1) (ptr uncle)
        .black).left then Dir.left else Dir.right) (some y.1) s) _ _ h
      rw [Node.mk'_side hside]
      cases hcolor : uncle.color with
      | red => exact insertRepair_red hi hcolor
      | black => exact insertRepair_black hi hcolor

/-- **the loop** -/
theorem insertLoop_spec (fuel : Nat) (hi : InsertInv L p t n s h) :
    wp (repeatWhile (fun t => t.running = true) insertTurn .stuck (fuel + p.length + 2) s) (InsertDone L) E h := by
  refine wp_repeatWhile_measure (fun k s h => ∃ p t n, p.length = k ∧ InsertInv L p t n s h) ?_ fuel
    p.length ⟨p, t, n, rfl, hi⟩
  rintro k s h ⟨p, t, n, rfl, hi⟩
  refine ⟨hi.running, wp_post (insertTurn_spec hi) ?_⟩
  rintro s' h' (hdone | ⟨p', t', n', hlt, hi'⟩)
  · exact .inl ⟨fun hc => Bool.false_ne_true (hdone.1.symm.trans hc), hdone⟩
  · exact .inr ⟨_, hlt, p', t', n', rfl, hi'⟩

/-! ## the whole function -/

variable {T : RbTree (Nat × U)} {root : Ptr} {fuel : Nat}

lemma wp_blackenRoot {Q : Unit → Heap (Node U) → Prop}
    (hne : T ≠ leaf) (ho : Owns h (cells none T)) (hroot : root = ptr T)
    (hQ : ∀ h', Owns h' (cells none T.blacken) → Q () h') :
    wp (store root (Node.setColor .black)) Q E h := by
  obtain ⟨c, l, x, r, rfl⟩ := exists_mk .left hne
  rw [hroot, ptr_mk]
  exact wp_recolor (p := []) ho hQ

lemma ptr_blacken (T : RbTree (Nat × U)) : ptr T.blacken = ptr T := by cases T <;> rfl

lemma insertNode_spec {a : Nat} {s : Search}
    (hrep : Represents h root (p.fill leaf)) (hat : SearchAt (cmp u) p s) (ha : h a = none)
    (hfuel : p.length + 2 ≤ fuel) : wp (insertNode fuel a u s root)
      (fun root' h' => ∃ T, Represents h' root' T ∧ T.toList = p.before ++ (a, u) :: p.after) E h := by
  obtain ⟨ho, hroot, m, hm⟩ := hrep
  unfold insertNode
  rw [hat.parent]
  cases p with
  | nil =>
    rw [pathPtr, if_pos rfl, wp_bind]
    refine wp_allocate ho ha fun h' ho' => ?_
    have hcells : cells none (node .black leaf (a, u) leaf) =
        {(a, ⟨u, none, none, none, .black⟩)} + cells none (RbPath.fill [] leaf) := by
      simp [cells, RbPath.fill]
    refine ⟨node .black leaf (a, u) leaf, ⟨?_, rfl, 1, .black _ .leaf .leaf⟩, rfl⟩
    exact ho'
  | cons f up =>
    rw [pathPtr, if_neg (Option.some_ne_none _), wp_bind]
    refine wp_allocate ho ha fun h1 ho1 => ?_
    rw [wp_bind, hat.side f up rfl]
    have hpath : Owns h1 (pathCells none none (f :: up) + {(a, ⟨u, some f.label.1, none, none, .red⟩)}) := by
      rw [cells_fill, ptr_leaf, cells, add_zero, add_comm] at ho1
      exact ho1
    refine wp_setHole hpath fun h2 ho2 => ?_
    have hnew : Owns h2 (cells none (RbPath.fill (f :: up) (node .red leaf (a, u) leaf))) := by
      rw [cells_fill, cells, cells, add_zero, add_zero]
      exact ho2
    obtain ⟨c, n, hleaf, hbal⟩ := RbPath.balanced_of_fill hm
    obtain ⟨rfl, rfl⟩ : c = .black ∧ n = 0 := by
      cases hleaf
      exact ⟨rfl, rfl⟩
    have hinv : InsertInv (RbPath.fill (f :: up) (node .red leaf (a, u) leaf)).toList (f :: up)
        (node .red leaf (a, u) leaf) 0 ⟨some a, some f.label.1, root, true⟩ h2 := {
      owns := hnew
      list := rfl
      tree := .red _ .leaf .leaf
      path := hbal
      tmp := rfl
      parent := rfl
      newRoot := hroot.trans (ptr_fill (cons_ne_nil _ _))
      running := rfl }
    rw [wp_bind]
    have hloop := insertLoop_spec (E := E) (fuel - ((f :: up).length + 2)) hinv
    rw [show fuel - ((f :: up).length + 2) + (f :: up).length + 2 = fuel by omega] at hloop
    refine wp_post hloop ?_
    rintro t h3 ⟨-, T, hne, ho3, hlist, hroot3, hT⟩
    rw [wp_bind]
    refine wp_blackenRoot hne ho3 hroot3 fun h4 ho4 => ?_
    refine ⟨T.blacken, ⟨ho4, hroot3.trans (ptr_blacken T).symm, hT⟩, ?_⟩
    rw [toList_blacken, hlist, RbPath.toList_fill, append_assoc]
    rfl

/-- how an insertion changes the elements `l`; `pool` is what `AllocatePool` returns -/
def insertElement (cmp : U → U → Int) (pool : Ptr) (u : U) (l : List (Nat × U)) :
    InsertStatus × Ptr × List (Nat × U) :=
  match l.find? fun y => cmp u y.2 = 0 with
  | some y => (.alreadyStarted, some y.1, l)
  | none =>
    match pool with
    | none => (.outOfResources, none, l)
    | some a => (.success, some a, l.takeWhile (fun y => cmp y.2 u < 0) ++ (a, u) ::
        l.dropWhile fun y => cmp y.2 u < 0)

lemma insertElement_located (hc : ConsistentOrder cmp) (hl : Located (cmp u) p) (pool : Ptr) :
    insertElement cmp pool u (p.before ++ p.after) =
      match pool with
      | none => (.outOfResources, none, p.before ++ p.after)
      | some a => (.success, some a, p.before ++ (a, u) :: p.after) := by
  have hnone : (p.before ++ p.after).find? (fun y => cmp u y.2 = 0) = none := by
    rw [List.find?_eq_none]
    intro y hy
    have hne : cmp u y.2 ≠ 0 := hl.ne (by rwa [RbPath.toList_fill, toList, List.append_nil])
    simpa using hne
  have hbefore : ∀ y, y ∈ p.before → decide (cmp y.2 u < 0) = true :=
    fun y hy => decide_eq_true ((hc.swap y.2 u).mpr (hl.1 y hy))
  have hafter : ∀ y, y ∈ p.after → ¬ decide (cmp y.2 u < 0) = true := by
    intro y hy
    have := (hc.swap u y.2).mp (hl.2 y hy)
    simp only [decide_eq_true_eq]
    omega
  have htake : (p.before ++ p.after).takeWhile (fun y => cmp y.2 u < 0) = p.before := by
    rw [List.takeWhile_append_of_pos hbefore]
    cases hp : p.after with
    | nil => simp
    | cons z l =>
      rw [List.takeWhile_cons, if_neg (hafter z (hp ▸ List.mem_cons_self)), List.append_nil]
  have hdrop : (p.before ++ p.after).dropWhile (fun y => cmp y.2 u < 0) = p.after := by
    rw [List.dropWhile_append_of_pos hbefore]
    cases hp : p.after with
    | nil => rfl
    | cons z l => rw [List.dropWhile_cons, if_neg (hafter z (hp ▸ List.mem_cons_self))]
  unfold insertElement
  rw [hnone, htake, hdrop]

lemma sorted_located (hc : ConsistentOrder cmp) (hl : Located (cmp u) p) (hs : Sorted cmp (p.before ++ p.after)) (a : Nat) :
    Sorted cmp (p.before ++ (a, u) :: p.after) := by
  obtain ⟨hbefore, hafter, hcross⟩ := pairwise_append.mp hs
  refine pairwise_append.mpr ⟨hbefore, pairwise_cons.mpr ⟨hl.2, hafter⟩, ?_⟩
  intro y hy z hz
  rcases mem_cons.mp hz with rfl | hz
  · exact (hc.swap y.2 u).mpr (hl.1 y hy)
  · exact hcross y hy z hz

/-- **insertion**: the element is added, or the collection is left as it is -/
theorem orderedCollectionInsert_spec (hc : ConsistentOrder cmp) {root pool : Ptr}
     (hrep : Represents h root T) (hs : Sorted cmp T.toList)
    (hpool : ∀ a, pool = some a → h a = none) (hfuel : T.toList.length + 2 ≤ fuel) :
    wp (orderedCollectionInsert cmp fuel pool u root) (fun r h' => ∃ T', Represents h' r.root T' ∧
        (r.status, r.node, T'.toList) = insertElement cmp pool u T.toList ∧ Sorted cmp T'.toList ∧
        (r.status ≠ .success → h' = h ∧ r.root = root)) E h := by
  have hheight := height_le_length T
  have hstart : SearchAt (cmp u) [] ⟨root, none, 0, false⟩ :=
    ⟨located_nil _, rfl, fun g up hg => absurd hg.symm (List.cons_ne_nil g up)⟩
  have hsearch := search_spec (E := E) (hc.probe u) T [] _ (fuel - (T.height + 2)) hrep.owns hs hstart hrep.root
    rfl
  rw [show fuel - (T.height + 2) + T.height + 2 = fuel by omega] at hsearch
  refine wp_seq hsearch ?_
  rintro s h' ⟨rfl, hend⟩
  rcases hend with ⟨y, hy, hzero, htmp⟩ | ⟨htmp, p, hT, hat⟩
  · -- a collision
    rw [htmp, if_pos (Option.some_ne_none _), wp_pure]
    refine ⟨T, hrep, ?_, hs, fun _ => ⟨rfl, rfl⟩⟩
    unfold insertElement
    rw [find_of_eq_zero (hc.probe u) hs hy hzero]
  · have hT' : T = p.fill leaf := hT
    subst hT'
    have hlist : (p.fill leaf).toList = p.before ++ p.after := by
      rw [RbPath.toList_fill, toList, List.append_nil]
    rw [htmp, if_neg (fun hn => hn rfl), hlist]
    cases pool with
    | none =>
      rw [wp_pure, insertElement_located hc hat.located]
      exact ⟨_, hrep, by rw [hlist], hs, fun _ => ⟨rfl, rfl⟩⟩
    | some a =>
      have hlen := RbPath.length_le p leaf
      refine wp_seq (insertNode_spec hrep hat (hpool a rfl) (by omega)) ?_
      rintro root' h1 ⟨T', hrep', hlist'⟩
      rw [wp_pure, insertElement_located hc hat.located]
      refine ⟨T', hrep', by rw [hlist'], ?_, fun hn => absurd rfl hn⟩
      rw [hlist']
      exact sorted_located hc hat.located (hlist ▸ hs) a

end

end Audk.OrderedCollection
