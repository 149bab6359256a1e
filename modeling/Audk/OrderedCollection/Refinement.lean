import Audk.OrderedCollection.Insert
import Audk.OrderedCollection.Delete

/-!
# The collection is a sorted map

A collection is run through any sequence of insertions and deletions.  What it holds is described by
a sorted list of nodes: the address of each node and its `UserStruct`.

* `IsMap`: the collection holds a red-black tree of the elements of the list;
* `orderedCollection_refines`: the collection refines the sorted list.
-/

namespace Audk.OrderedCollection

open Prog RecordHeap RedBlack RedBlack.RbTree List Nat

section
variable {U : Type}

/-- a call; `pool` is what `AllocatePool` returns -/
inductive Op (U : Type) where
  | insert (userStruct : U) (pool : Ptr)
  | delete (node : Nat)

inductive Reply (U : Type) where
  | inserted (status : InsertStatus) (node : Ptr)
  | deleted (userStruct : Option U)
deriving DecidableEq

/-- one call; returns `Tree->Root`, too -/
def runOp (cmp : U → U → Int) (fuel : Nat) (root : Ptr) : Op U → Run U (Reply U × Ptr)
  | .insert u pool => do
    let r ← orderedCollectionInsert cmp fuel pool u root
    return (.inserted r.status r.node, r.root)
  | .delete a => do
    let r ← orderedCollectionDelete fuel (some a) root
    return (.deleted (some r.userStruct), r.root)

def runOps (cmp : U → U → Int) (fuel : Nat) : List (Op U) → Ptr → Run U (List (Reply U) × Ptr)
  | [], root => return ([], root)
  | op :: ops, root => do
    let r ← runOp cmp fuel root op
    let rs ← runOps cmp fuel ops r.2
    return (r.1 :: rs.1, rs.2)

def orderedCollectionInit : Ptr := none

def noNodes : Heap (Node U) := fun _ => none

/-! ## the abstract map -/

def mapOp (cmp : U → U → Int) (l : List (Nat × U)) : Op U → Reply U × List (Nat × U)
  | .insert u pool =>
    let r := insertElement cmp pool u l
    (.inserted r.1 r.2.1, r.2.2)
  | .delete a => (.deleted ((l.find? fun x => x.1 = a).map Prod.snd), l.filter fun x => x.1 ≠ a)

def mapOps (cmp : U → U → Int) (l : List (Nat × U)) : List (Op U) → List (Reply U) × List (Nat × U)
  | [] => ([], l)
  | op :: ops =>
    let r := mapOp cmp l op
    let rs := mapOps cmp r.2 ops
    (r.1 :: rs.1, rs.2)

/-- `AllocatePool` returns memory that is not in use, and a node that is deleted is of the tree -/
def Legal (l : List (Nat × U)) : Op U → Prop
  | .insert _ pool => ∀ a, pool = some a → a ∉ l.map Prod.fst
  | .delete a => a ∈ l.map Prod.fst

def AllLegal (cmp : U → U → Int) (l : List (Nat × U)) : List (Op U) → Prop
  | [] => True
  | op :: ops => Legal l op ∧ AllLegal cmp (mapOp cmp l op).2 ops

/-- the heap holds a red-black search tree of the elements, with the links of `cells`, and nothing
else -/
structure IsMap (cmp : U → U → Int) (h : Heap (Node U)) (root : Ptr) (l : List (Nat × U)) : Prop where
  tree : ∃ T : RbTree (Nat × U), T.toList = l ∧ Owns h (cells none T) ∧ root = ptr T ∧
    (∃ n, T.Balanced .black n) ∧ T.height ≤ 2 * Nat.log 2 (l.length + 1)
  sorted : l.Pairwise fun x y => cmp x.2 y.2 < 0

variable {cmp : U → U → Int} {h : Heap (Node U)} {root : Ptr} {l : List (Nat × U)}

lemma IsMap.of_represents {T : RbTree (Nat × U)} (hrep : Represents h root T)
    (hs : Sorted cmp T.toList) : IsMap cmp h root T.toList := by
  obtain ⟨ho, hroot, n, hn⟩ := hrep
  exact ⟨⟨T, rfl, ho, hroot, ⟨n, hn⟩, hn.height_le⟩, hs⟩

lemma isMap_init : IsMap cmp noNodes orderedCollectionInit [] where
  tree := ⟨leaf, rfl, owns_empty, rfl, ⟨0, .leaf⟩, zero_le _⟩
  sorted := List.Pairwise.nil

lemma IsMap.nodup (hm : IsMap cmp h root l) : (l.map Prod.fst).Nodup := by
  obtain ⟨T, rfl, ho, -⟩ := hm.tree
  have := ho.nodup
  rwa [map_fst_cells, Multiset.coe_nodup] at this

lemma IsMap.free_iff (hm : IsMap cmp h root l) (a : Nat) : h a = none ↔ a ∉ l.map Prod.fst := by
  obtain ⟨T, rfl, ho, -⟩ := hm.tree
  rw [ho.eq_none_iff, map_fst_cells, Multiset.mem_coe]

lemma delete_elements {b c : List (Nat × U)} {x : Nat × U} (hn : ((b ++ x :: c).map Prod.fst).Nodup) :
    (b ++ x :: c).find? (fun y => y.1 = x.1) = some x ∧ (b ++ x :: c).filter (fun y => y.1 ≠ x.1) = b ++ c := by
  rw [map_append, map_cons, nodup_middle, nodup_cons, mem_append] at hn
  have hb : ∀ y, y ∈ b → y.1 ≠ x.1 := fun y hy hc => hn.1 (.inl (hc ▸ mem_map_of_mem hy))
  have hc : ∀ y, y ∈ c → y.1 ≠ x.1 := fun y hy hc => hn.1 (.inr (hc ▸ mem_map_of_mem hy))
  constructor
  · rw [List.find?_append, List.find?_eq_none.mpr (by simpa using hb)]
    simp
  · rw [filter_append, filter_cons_of_neg (by simp), filter_eq_self.mpr (by simpa using hb),
      filter_eq_self.mpr (by simpa using hc)]

/-- **one call** -/
theorem runOp_spec (hc : ConsistentOrder cmp) {fuel : Nat} {op : Op U} (hm : IsMap cmp h root l)
    (hlegal : Legal l op) (hfuel : l.length + 2 ≤ fuel) : wp (runOp cmp fuel root op)
      (fun r h' => r.1 = (mapOp cmp l op).1 ∧ IsMap cmp h' r.2 (mapOp cmp l op).2)
      (fun _ _ => False) h := by
  have hnodup := hm.nodup
  have hfree := hm.free_iff
  obtain ⟨⟨T, rfl, ho, hroot, hbal, -⟩, hs⟩ := hm
  have hrep : Represents h root T := ⟨ho, hroot, hbal⟩
  cases op with
  | insert u pool =>
    have hpool : ∀ a, pool = some a → h a = none := fun a ha => (hfree a).mpr (hlegal a ha)
    show wp (orderedCollectionInsert cmp fuel pool u root >>= _) _ _ h
    refine wp_seq (orderedCollectionInsert_spec hc hrep hs hpool hfuel) ?_
    rintro r h' ⟨T', hrep', hresult, hs', -⟩
    show Reply.inserted r.status r.node = .inserted (insertElement cmp pool u T.toList).1
        (insertElement cmp pool u T.toList).2.1 ∧
      IsMap cmp h' r.root (insertElement cmp pool u T.toList).2.2
    rw [← hresult]
    exact ⟨rfl, .of_represents hrep' hs'⟩
  | delete a =>
    obtain ⟨x, hx, rfl⟩ := mem_map.mp hlegal
    obtain ⟨p, c, tl, tr, rfl⟩ := RbPath.exists_fill_of_mem hx
    have hlist : (p.fill (node c tl x tr)).toList = (p.before ++ tl.toList) ++ x :: (tr.toList ++ p.after) := by
      rw [RbPath.toList_fill]
      simp [toList]
    rw [hlist] at hnodup
    obtain ⟨hfind, hfilter⟩ := delete_elements hnodup
    show wp (orderedCollectionDelete fuel (some x.1) root >>= _) _ _ h
    refine wp_seq (orderedCollectionDelete_spec hrep hfuel) ?_
    rintro r h' ⟨huser, T', hrep', hlist'⟩
    show Reply.deleted (some r.userStruct) = .deleted (((p.fill (node c tl x tr)).toList.find?
        fun y => y.1 = x.1).map Prod.snd) ∧
      IsMap cmp h' r.root ((p.fill (node c tl x tr)).toList.filter fun y => y.1 ≠ x.1)
    have hrest : T'.toList = (p.before ++ tl.toList) ++ (tr.toList ++ p.after) := by
      rw [hlist', append_assoc]
    rw [hlist, hfind, hfilter, huser, ← hrest]
    refine ⟨rfl, .of_represents hrep' ?_⟩
    rw [hrest]
    rw [hlist] at hs
    exact hs.sublist (List.Sublist.append_left (sublist_cons_self _ _) _)

lemma mapOp_length (op : Op U) : (mapOp cmp l op).2.length ≤ l.length + 1 := by
  cases op with
  | insert u pool =>
    show (insertElement cmp pool u l).2.2.length ≤ _
    unfold insertElement
    split
    · exact le_succ _
    · cases pool with
      | none => exact le_succ _
      | some a =>
        rw [length_append, length_cons, ← add_assoc, ← length_append,
          takeWhile_append_dropWhile]
  | delete a => exact (length_filter_le _ _).trans (le_succ _)

/-- **a sequence of calls**: no access goes wrong, no `ASSERT` fails, the replies are those of the
sorted list, and the tree is one of its elements -/
theorem runOps_spec (hc : ConsistentOrder cmp) {fuel : Nat} (ops : List (Op U))
    (hm : IsMap cmp h root l) (hlegal : AllLegal cmp l ops) (hfuel : l.length + ops.length + 2 ≤ fuel) :
    wp (runOps cmp fuel ops root) (fun r h' => r.1 = (mapOps cmp l ops).1 ∧ IsMap cmp h' r.2 (mapOps cmp l ops).2)
      (fun _ _ => False) h := by
  induction ops generalizing h root l with
  | nil => exact ⟨rfl, hm⟩
  | cons op ops ih =>
    rw [length_cons] at hfuel
    show wp (runOp cmp fuel root op >>= _) _ _ h
    refine wp_seq (runOp_spec hc hm hlegal.1 (by omega)) ?_
    rintro r h1 ⟨hreply, hm1⟩
    have hlen : (mapOp cmp l op).2.length ≤ l.length + 1 := mapOp_length op
    show wp (runOps cmp fuel ops r.2 >>= _) _ _ h1
    refine wp_seq (ih hm1 hlegal.2 (by omega)) ?_
    rintro rs h2 ⟨hreplies, hm2⟩
    refine ⟨?_, hm2⟩
    show r.1 :: rs.1 = (mapOp cmp l op).1 :: (mapOps cmp (mapOp cmp l op).2 ops).1
    rw [hreply, hreplies]

lemma mapOps_length (ops : List (Op U)) : (mapOps cmp l ops).2.length ≤ l.length + ops.length := by
  induction ops generalizing l with
  | nil => exact le_rfl
  | cons op ops ih =>
    have hop : (mapOp cmp l op).2.length ≤ l.length + 1 := mapOp_length op
    have hops := ih (l := (mapOp cmp l op).2)
    show (mapOps cmp (mapOp cmp l op).2 ops).2.length ≤ _
    rw [length_cons]
    omega

/-- **the collection refines a sorted map**: from `OrderedCollectionInit` on, any sequence of calls
returns what the sorted list of the nodes says and leaves a red-black tree of them; an insertion that
is refused changes nothing, and a lookup finds the node of a key -/
theorem orderedCollection_refines {K : Type} {keyCompare : K → U → Int} (hc : ConsistentOrder cmp)
    (hk : KeyOrder cmp keyCompare) (ops : List (Op U)) (hlegal : AllLegal cmp [] ops) (fuel : Nat)
    (hfuel : ops.length + 2 ≤ fuel) : ∃ h root, runOps cmp fuel ops orderedCollectionInit noNodes =
        (.ok ((mapOps cmp [] ops).1, root), h) ∧ IsMap cmp h root (mapOps cmp [] ops).2 ∧
      (∀ u pool, Legal (mapOps cmp [] ops).2 (.insert u pool) →
        ∃ r h', orderedCollectionInsert cmp fuel pool u root h = (.ok r, h') ∧
          (r.status ≠ .success → h' = h ∧ r.root = root)) ∧ (∀ k, orderedCollectionFind keyCompare fuel k root h =
        (.ok (((mapOps cmp [] ops).2.find? fun y => keyCompare k y.2 = 0).map Prod.fst), h)) := by
  have hfuel' : ([] : List (Nat × U)).length + ops.length + 2 ≤ fuel := by simpa using hfuel
  have hrun := runOps_spec hc ops isMap_init hlegal hfuel'
  obtain ⟨⟨replies, root⟩, h, hrun, hreplies, hm⟩ := wp_returns hrun
  have hlen : (mapOps cmp [] ops).2.length ≤ [].length + ops.length := mapOps_length ops
  refine ⟨h, root, ?_, hm, ?_, ?_⟩
  · rw [hrun]
    exact congrArg (fun l => (Except.ok (l, root), h)) hreplies
  · intro u pool hp
    have hfree := hm.free_iff
    obtain ⟨⟨T, hT, ho, hroot, hbal, -⟩, hs⟩ := hm
    rw [← hT] at hs hlen
    have hfuel' : T.toList.length + 2 ≤ fuel := by omega
    obtain ⟨r, h', hr, T', -, -, -, hsame⟩ := wp_returns (orderedCollectionInsert_spec hc
      ⟨ho, hroot, hbal⟩ hs (fun a ha => (hfree a).mpr (hp a ha)) hfuel')
    exact ⟨r, h', hr, hsame⟩
  · intro k
    obtain ⟨⟨T, hT, ho, hroot, hbal, -⟩, hs⟩ := hm
    rw [← hT] at hs hlen ⊢
    have hfuel' : T.toList.length + 2 ≤ fuel := by omega
    obtain ⟨r, h', hr, rfl, rfl⟩ := wp_returns (orderedCollectionFind_spec hk k ⟨ho, hroot, hbal⟩ hs hfuel')
    exact hr

end

/-- integers in their order, looked up by themselves -/
def compareInt (a b : Int) : Int := a - b

lemma compareInt_consistent : ConsistentOrder compareInt := by
  constructor <;> intros <;> simp only [compareInt] at * <;> omega

/-- insertions, one of them without memory and one with a collision, and a deletion -/
def someOps : List (Op Int) :=
  [.insert 2 (some 10), .insert 1 (some 11), .insert 3 none, .insert 2 (some 12), .insert 5 (some 13), .delete 10]

theorem someOps_refines :
    (mapOps compareInt [] someOps).1 = [.inserted .success (some 10), .inserted .success (some 11),
      .inserted .outOfResources none, .inserted .alreadyStarted (some 10), .inserted .success (some 13),
      .deleted (some 2)] ∧ ∃ h root, runOps compareInt 8 someOps orderedCollectionInit noNodes =
        (.ok ((mapOps compareInt [] someOps).1, root), h) ∧
      IsMap compareInt h root [(11, 1), (13, 5)] := by
  have hk : KeyOrder compareInt compareInt := fun k => compareInt_consistent.probe k
  have hlegal : AllLegal compareInt [] someOps := by
    simp [AllLegal, Legal, someOps, mapOp, insertElement, compareInt]
  obtain ⟨h, root, hrun, hm, -⟩ := orderedCollection_refines compareInt_consistent hk someOps hlegal 8 (by decide)
  exact ⟨by decide, h, root, hrun, hm⟩

end Audk.OrderedCollection
