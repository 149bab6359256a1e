import Mathlib.Tactic
import Mathlib.Data.Nat.Log

/-!
# Red-black trees with a focus

A tree is looked at from one of its subtrees: `RbPath.fill p t` is the tree that has `t` at the end of
the path `p`.  An algorithm that walks up or down and rotates is a change of the focus.

`Dir` is a side; `RbTree.mk d` builds a node from the child on the side `d` and the child on the other
side, so that a statement and its mirror image are one statement.

* `RbPath.Balanced.fill`: it does;
* `RbTree.Balanced.height_le`: the height is at most twice the logarithm of the size.
-/

namespace RedBlack

open List Nat

inductive Color where
  | red
  | black
deriving DecidableEq

inductive Dir where
  | left
  | right
deriving DecidableEq

def Dir.other : Dir → Dir
  | .left => .right
  | .right => .left

@[simp] lemma Dir.other_other (d : Dir) : d.other.other = d := by cases d <;> rfl

lemma Dir.eq_other {d e : Dir} (h : d ≠ e) : d = e.other := by
  cases d <;> cases e <;> first | rfl | exact absurd rfl h

/-- a list in the order towards the side `d` -/
def Dir.along {α : Type} (d : Dir) (l : List α) : List α :=
  match d with
  | .left => l.reverse
  | .right => l

/-! ## trees -/

inductive RbTree (α : Type) where
  | leaf
  | node (color : Color) (left : RbTree α) (label : α) (right : RbTree α)
deriving DecidableEq

section
variable {α : Type}

namespace RbTree

/-- the node with the child `near` on the side `d` -/
def mk (d : Dir) (c : Color) (near : RbTree α) (x : α) (far : RbTree α) : RbTree α :=
  match d with
  | .left => node c near x far
  | .right => node c far x near

def toList : RbTree α → List α
  | leaf => []
  | node _ l x r => l.toList ++ x :: r.toList

def color : RbTree α → Color
  | leaf => .black
  | node c _ _ _ => c

def root : RbTree α → Option α
  | leaf => none
  | node _ _ x _ => some x

def blacken : RbTree α → RbTree α
  | leaf => leaf
  | node _ l x r => node .black l x r

def height : RbTree α → Nat
  | leaf => 0
  | node _ l _ r => max l.height r.height + 1

lemma mk_other (d : Dir) (c : Color) (near far : RbTree α) (x : α) :
    mk d.other c near x far = mk d c far x near := by cases d <;> rfl

lemma exists_mk (d : Dir) {t : RbTree α} (h : t ≠ leaf) : ∃ c near x far, t = mk d c near x far := by
  cases t with
  | leaf => exact absurd rfl h
  | node c l x r =>
    cases d with
    | left => exact ⟨c, l, x, r, rfl⟩
    | right => exact ⟨c, r, x, l, rfl⟩

@[simp] lemma color_mk (d : Dir) (c : Color) (near far : RbTree α) (x : α) :
    (mk d c near x far).color = c := by cases d <;> rfl

@[simp] lemma blacken_mk (d : Dir) (c : Color) (near far : RbTree α) (x : α) :
    (mk d c near x far).blacken = mk d .black near x far := by cases d <;> rfl

@[simp] lemma toList_blacken (t : RbTree α) : t.blacken.toList = t.toList := by cases t <;> rfl

lemma mk_ne_leaf (d : Dir) (c : Color) (near far : RbTree α) (x : α) : mk d c near x far ≠ leaf := by
  cases d <;> simp [mk]

lemma length_toList_mk (d : Dir) (c : Color) (near far : RbTree α) (x : α) :
    (mk d c near x far).toList.length = near.toList.length + far.toList.length + 1 := by
  cases d <;> simp only [mk, toList, length_append, length_cons] <;> omega

lemma height_le_length (t : RbTree α) : t.height ≤ t.toList.length := by
  induction t with
  | leaf => exact le_rfl
  | node c l x r ihl ihr =>
    rw [height, toList, length_append, length_cons]
    omega

lemma toList_recolor (d : Dir) (c c' : Color) (near far : RbTree α) (x : α) :
    (mk d c near x far).toList = (mk d c' near x far).toList := by cases d <;> rfl

lemma toList_rotate (d : Dir) (cx cy : Color) (near inner outer : RbTree α) (x y : α) :
    (mk d cx near x (mk d cy inner y outer)).toList = (mk d cy (mk d cx near x inner) y outer).toList := by
  cases d <;> simp [mk, toList]

/-- the labels in the order towards the side `d` -/
def labels (d : Dir) (t : RbTree α) : List α := d.along t.toList

lemma labels_mk (d : Dir) (c : Color) (near far : RbTree α) (x : α) :
    (mk d c near x far).labels d = far.labels d ++ x :: near.labels d := by
  cases d <;> simp [labels, Dir.along, mk, toList]

lemma labels_mk_other (d : Dir) (c : Color) (near far : RbTree α) (x : α) :
    (mk d c near x far).labels d.other = near.labels d.other ++ x :: far.labels d.other := by
  rw [← mk_other, labels_mk]

/-! ## balance -/

/-- `t` has the root color `c` and the black height `n`; leaves are black -/
inductive Balanced : RbTree α → Color → Nat → Prop where
  | leaf : Balanced leaf .black 0
  | red {l r : RbTree α} {n : Nat} (x : α) :
    Balanced l .black n → Balanced r .black n → Balanced (node .red l x r) .red n
  | black {l r : RbTree α} {c c' : Color} {n : Nat} (x : α) :
    Balanced l c n → Balanced r c' n → Balanced (node .black l x r) .black (n+1)

namespace Balanced

variable {t near far : RbTree α} {c : Color} {n : Nat} {x : α} {d : Dir}

lemma color_eq (h : t.Balanced c n) : t.color = c := by cases h <;> rfl

lemma mkRed (hnear : near.Balanced .black n) (hfar : far.Balanced .black n) :
    (mk d .red near x far).Balanced .red n := by
  cases d with
  | left => exact .red x hnear hfar
  | right => exact .red x hfar hnear

lemma mkBlack {c c' : Color} (hnear : near.Balanced c n) (hfar : far.Balanced c' n) :
    (mk d .black near x far).Balanced .black (n+1) := by
  cases d with
  | left => exact .black x hnear hfar
  | right => exact .black x hfar hnear

lemma of_mkRed (h : (mk d .red near x far).Balanced c n) :
    c = .red ∧ near.Balanced .black n ∧ far.Balanced .black n := by
  cases d with
  | left => cases h with | red _ hl hr => exact ⟨rfl, hl, hr⟩
  | right => cases h with | red _ hl hr => exact ⟨rfl, hr, hl⟩

lemma of_mkBlack (h : (mk d .black near x far).Balanced c n) :
    ∃ m c1 c2, c = .black ∧ n = m + 1 ∧ near.Balanced c1 m ∧ far.Balanced c2 m := by
  cases d with
  | left => cases h with | black _ hl hr => exact ⟨_, _, _, rfl, rfl, hl, hr⟩
  | right => cases h with | black _ hl hr => exact ⟨_, _, _, rfl, rfl, hr, hl⟩

lemma blacken (h : t.Balanced c n) : ∃ m, t.blacken.Balanced .black m := by
  cases h with
  | leaf => exact ⟨0, .leaf⟩
  | red x hl hr => exact ⟨_, .black x hl hr⟩
  | black x hl hr => exact ⟨_, .black x hl hr⟩

lemma ne_leaf (h : t.Balanced c (n+1)) : t ≠ RbTree.leaf := by
  rintro rfl
  cases h

lemma height_le_blackHeight (h : t.Balanced c n) : t.height ≤ 2 * n + if c = .red then 1 else 0 := by
  induction h with
  | leaf => exact le_rfl
  | red x hl hr ihl ihr =>
    simp only [reduceCtorEq, if_false] at ihl ihr
    simp only [height, if_true]
    omega
  | @black l r c c' n x hl hr ihl ihr =>
    have h1 : ∀ c : Color, (if c = .red then 1 else 0) ≤ 1 := fun c => by split <;> decide
    have hc := h1 c
    have hc' := h1 c'
    simp only [height, reduceCtorEq, if_false]
    omega

lemma two_pow_le (h : t.Balanced c n) : 2^n ≤ t.toList.length + 1 := by
  induction h with
  | leaf => exact le_rfl
  | red x hl hr ihl ihr =>
    rw [toList, length_append, length_cons]
    omega
  | black x hl hr ihl ihr =>
    rw [toList, length_append, length_cons, pow_succ]
    omega

/-- **the height is logarithmic** -/
theorem height_le (h : t.Balanced .black n) : t.height ≤ 2 * Nat.log 2 (t.toList.length + 1) := by
  have h1 := h.height_le_blackHeight
  have h2 : n ≤ Nat.log 2 (t.toList.length + 1) := le_log_of_pow_le (by norm_num) h.two_pow_le
  simp only [reduceCtorEq, if_false] at h1
  omega

end Balanced

end RbTree

/-! ## paths -/

/-- a node on the way to the focus, which is on its side `dir` -/
structure RbFrame (α : Type) where
  dir : Dir
  color : Color
  label : α
  sibling : RbTree α

/-- the way from the focus up to the root -/
abbrev RbPath (α : Type) := List (RbFrame α)

namespace RbPath

open RedBlack.RbTree

/-- the tree with `t` at the end of the path -/
def fill : RbPath α → RbTree α → RbTree α
  | [], t => t
  | f :: p, t => fill p (RbTree.mk f.dir f.color t f.label f.sibling)

def before : RbPath α → List α
  | [] => []
  | ⟨.left, _, _, _⟩ :: p => before p
  | ⟨.right, _, x, s⟩ :: p => before p ++ s.toList ++ [x]

def after : RbPath α → List α
  | [] => []
  | ⟨.left, _, x, s⟩ :: p => x :: s.toList ++ after p
  | ⟨.right, _, _, _⟩ :: p => after p

lemma fill_cons (f : RbFrame α) (p : RbPath α) (t : RbTree α) :
    fill (f :: p) t = fill p (RbTree.mk f.dir f.color t f.label f.sibling) := rfl

lemma fill_flip (d : Dir) (c : Color) (x : α) (near far : RbTree α) (p : RbPath α) :
    fill (⟨d.other, c, x, near⟩ :: p) far = fill (⟨d, c, x, far⟩ :: p) near := by
  rw [fill_cons, fill_cons, mk_other]

lemma fill_other (d : Dir) (c : Color) (x : α) (s t : RbTree α) (p : RbPath α) :
    fill (⟨d.other, c, x, s⟩ :: p) t = fill p (RbTree.mk d c s x t) := by rw [fill_cons, mk_other]

lemma fill_append (p q : RbPath α) (t : RbTree α) : fill (p ++ q) t = fill q (fill p t) := by
  induction p generalizing t with
  | nil => rfl
  | cons f p ih => exact ih _

lemma toList_fill (p : RbPath α) (t : RbTree α) : (fill p t).toList = before p ++ t.toList ++ after p := by
  induction p generalizing t with
  | nil => simp [fill, before, after]
  | cons f p ih =>
    obtain ⟨d, c, x, s⟩ := f
    cases d <;> simp [fill, ih, before, after, RbTree.mk, RbTree.toList, append_assoc]

/-- the labels behind the focus in the order towards the side `d` -/
def beyond (d : Dir) (p : RbPath α) : List α :=
  match d with
  | .left => p.before.reverse
  | .right => p.after

lemma beyond_near (d : Dir) (c : Color) (x : α) (s : RbTree α) (p : RbPath α) :
    beyond d (⟨d, c, x, s⟩ :: p) = beyond d p := by cases d <;> rfl

lemma beyond_far (d : Dir) (c : Color) (x : α) (s : RbTree α) (p : RbPath α) :
    beyond d (⟨d.other, c, x, s⟩ :: p) = x :: (s.labels d ++ beyond d p) := by
  cases d <;> simp [beyond, before, after, Dir.other, labels, Dir.along]

lemma labels_fill (d : Dir) (p : RbPath α) (t : RbTree α) :
    (fill p t).labels d = (beyond d.other p).reverse ++ t.labels d ++ beyond d p := by
  cases d <;> simp [labels, Dir.along, toList_fill, beyond, Dir.other]

lemma before_eq_nil {p : RbPath α} (h : ∀ f, f ∈ p → f.dir = .left) : before p = [] := by
  induction p with
  | nil => rfl
  | cons f p ih =>
    obtain ⟨d, c, x, s⟩ := f
    obtain rfl : d = .left := h _ mem_cons_self
    exact ih fun f hf => h f (mem_cons_of_mem _ hf)

lemma toList_fill_congr {t s : RbTree α} (h : t.toList = s.toList) (p : RbPath α) :
    (fill p t).toList = (fill p s).toList := by rw [toList_fill, toList_fill, h]

lemma fill_ne_leaf {p : RbPath α} {t : RbTree α} (h : t ≠ leaf) : fill p t ≠ leaf := by
  induction p generalizing t with
  | nil => exact h
  | cons f p ih => exact ih (mk_ne_leaf _ _ _ _ _)

lemma length_le (p : RbPath α) (t : RbTree α) : p.length + t.toList.length ≤ (fill p t).toList.length := by
  induction p generalizing t with
  | nil => exact le_of_eq (zero_add _)
  | cons f p ih =>
    have h := ih (RbTree.mk f.dir f.color t f.label f.sibling)
    rw [length_toList_mk] at h
    rw [fill_cons, length_cons]
    omega

lemma exists_fill_of_mem {t : RbTree α} {x : α} (h : x ∈ t.toList) : ∃ p c l r, t = fill p (node c l x r) := by
  suffices hs : ∀ q : RbPath α, ∃ p c l r, fill q t = fill p (node c l x r) from hs []
  induction t with
  | leaf => exact absurd h not_mem_nil
  | node c l y r ihl ihr =>
    intro q
    rw [toList, mem_append, mem_cons] at h
    rcases h with h | rfl | h
    · exact ihl h (⟨.left, c, y, r⟩ :: q)
    · exact ⟨q, c, l, r, rfl⟩
    · exact ihr h (⟨.right, c, y, l⟩ :: q)

/-! ## balance -/

/-- with a tree of root color `c` and black height `n` at its end, the path is a red-black tree -/
inductive Balanced : RbPath α → Color → Nat → Prop where
  | root (n : Nat) : Balanced [] .black n
  | red {s : RbTree α} {p : RbPath α} {n : Nat} (d : Dir) (x : α) :
    s.Balanced .black n → Balanced p .red n → Balanced (⟨d, .red, x, s⟩ :: p) .black n
  | black {s : RbTree α} {p : RbPath α} {c : Color} {n : Nat} (d : Dir) (x : α) (c' : Color) :
    s.Balanced c n → Balanced p .black (n+1) → Balanced (⟨d, .black, x, s⟩ :: p) c' n

variable {p : RbPath α} {t s : RbTree α} {c c' : Color} {n : Nat} {x : α} {d : Dir}

lemma Balanced.toBlack (h : Balanced p c n) : Balanced p .black n := by
  cases h with
  | root => exact .root n
  | red d x hs hp => exact .red d x hs hp
  | black d x c' hs hp => exact .black d x _ hs hp

lemma Balanced.fill (h : Balanced p c n) (ht : t.Balanced c n) : ∃ m, (fill p t).Balanced .black m := by
  induction h generalizing t with
  | root n => exact ⟨n, ht⟩
  | red d x hs hp ih => exact ih (ht.mkRed hs)
  | black d x c' hs hp ih => exact ih (ht.mkBlack hs)

lemma Balanced.resibling {s' : RbTree α} (h : Balanced (⟨d, c', x, s⟩ :: p) .black n)
    (hs : s'.Balanced .black n) : Balanced (⟨d, c', x, s'⟩ :: p) .black n := by
  cases h with
  | red _ _ _ hp => exact .red d x hs hp
  | black _ _ _ _ hp => exact .black d x _ hs hp

/-- a node above two black trees fits where the last node of the path was -/
lemma Balanced.fill_node {near far : RbTree α} {y : α} (h : Balanced (⟨d, c', x, s⟩ :: p) .black n)
    (hnear : near.Balanced .black n) (hfar : far.Balanced .black n) :
    ∃ m, (RbPath.fill p (RbTree.mk d c' near y far)).Balanced .black m := by
  cases h with
  | red _ _ _ hp => exact hp.fill (hnear.mkRed hfar)
  | black _ _ _ _ hp => exact hp.fill (hnear.mkBlack hfar)

lemma Balanced.relabel {q : RbPath α} (x y : α)
    (h : Balanced (q ++ ⟨d, c', x, s⟩ :: p) c n) : Balanced (q ++ ⟨d, c', y, s⟩ :: p) c n := by
  induction q generalizing c n with
  | nil =>
    cases h with
    | red _ _ hs hp => exact .red d y hs hp
    | black _ _ _ hs hp => exact .black d y _ hs hp
  | cons f q ih =>
    cases h with
    | red d x hs hp => exact .red d x hs (ih hp)
    | black d x _ hs hp => exact .black d x c hs (ih hp)

lemma balanced_of_fill {m : Nat} (h : (RbPath.fill p t).Balanced .black m) :
    ∃ c n, t.Balanced c n ∧ Balanced p c n := by
  induction p generalizing t m with
  | nil => exact ⟨_, m, h, .root m⟩
  | cons f p ih =>
    obtain ⟨d, c, x, s⟩ := f
    obtain ⟨c', n, ht, hp⟩ := ih h
    cases c with
    | red =>
      obtain ⟨rfl, hnear, hfar⟩ := RbTree.Balanced.of_mkRed ht
      exact ⟨_, n, hnear, .red d x hfar hp⟩
    | black =>
      obtain ⟨k, c1, c2, rfl, rfl, hnear, hfar⟩ := RbTree.Balanced.of_mkBlack ht
      exact ⟨c1, k, hnear, .black d x c1 hfar hp⟩

end RbPath

end

end RedBlack
