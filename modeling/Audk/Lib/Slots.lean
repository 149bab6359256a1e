import Audk.Lib.Prog
import Mathlib.Data.List.Perm.Basic
import Mathlib.Logic.Equiv.Basic

/-!
# A buffer of records that is edited in place

A buffer has `size` slots.  A program that expands a table in place reads its records one after the
other and writes into the same buffer; the slots below `unread` hold records that it has still to
read.  An access outside the buffer stops the run, and so does a write to a slot below `unread`.

* `exchangeSort`: the nested loop that compares every slot with every later one and exchanges them,
  with its rule `wp_exchangeSort`;
* `take_of_sorted`, `mem_take_of_sorted`: what a cut of a sorted list keeps.
-/

namespace Slots

open Prog

inductive SlotFault where
  | outside | unread | stuck
deriving DecidableEq

end Slots

/-- a buffer of records; those below `unread` have not been read yet -/
structure Slots (α : Type) where
  slot : Nat → α
  size : Nat
  unread : Int

namespace Slots

open Prog List Function Nat

variable {α : Type}

def Inside (b : Slots α) (i : Int) : Prop := 0 ≤ i ∧ i < b.size

instance (b : Slots α) (i : Int) : Decidable (b.Inside i) := inferInstanceAs (Decidable (_ ∧ _))

abbrev SlotProg (α β : Type) := Prog (Slots α) SlotFault β

def peek (i : Int) : SlotProg α α := fun b =>
  if b.Inside i then (.ok (b.slot i.toNat), b) else (.error .outside, b)

/-- read the last record that has not been read -/
def take (i : Int) : SlotProg α α := do
  let x ← peek i
  modify fun b => { b with unread := i }
  pure x

def change (i : Int) (f : α → α) : SlotProg α Unit := fun b =>
  if ¬ b.Inside i then (.error .outside, b)
  else if i < b.unread then (.error .unread, b)
  else (.ok (), { b with slot := Function.update b.slot i.toNat (f (b.slot i.toNat)) })

def write (i : Int) (x : α) : SlotProg α Unit := change i fun _ => x

/-- move `n` records from slot `i` on to the start of the buffer -/
def moveDown (i : Int) (n : Nat) : SlotProg α Unit := fun b =>
  if i < 0 ∨ b.size < i + n then (.error .outside, b)
  else if 0 < b.unread then (.error .unread, b)
  else (.ok (), { b with slot := fun k => if k < n then b.slot (i.toNat + k) else b.slot k })

def firsts (b : Slots α) (n : Nat) : List α := (List.range n).map b.slot

@[simp] lemma length_firsts (b : Slots α) (n : Nat) : (b.firsts n).length = n := by
  rw [firsts, length_map, length_range]

lemma take_firsts (b : Slots α) {m n : Nat} (h : m ≤ n) : (b.firsts n).take m = b.firsts m := by
  rw [firsts, firsts, ← map_take, take_range, min_eq_left h]

/-! ## rules -/

section
variable {E : SlotFault → Slots α → Prop} {b : Slots α} {i : Nat}

lemma wp_peek {Q : α → Slots α → Prop} (hi : i < b.size) (h : Q (b.slot i) b) : wp (peek (i : Int)) Q E b := by
  have hin : b.Inside i := ⟨by omega, by omega⟩
  unfold wp peek
  rw [if_pos hin, Int.toNat_natCast]
  exact h

lemma wp_take {Q : α → Slots α → Prop} (hi : i < b.size) (h : Q (b.slot i) { b with unread := i }) :
    wp (take (i : Int)) Q E b := by
  unfold take
  rw [wp_bind]
  exact wp_peek hi h

variable {Q : Unit → Slots α → Prop}

lemma wp_change {f : α → α} (hi : i < b.size) (hu : b.unread ≤ i)
    (h : Q () { b with slot := Function.update b.slot i (f (b.slot i)) }) :
    wp (change (i : Int) f) Q E b := by
  have hin : ¬ ¬ b.Inside i := not_not_intro ⟨by omega, by omega⟩
  unfold wp change
  rw [if_neg hin, if_neg (not_lt.mpr hu), Int.toNat_natCast]
  exact h

lemma wp_write {x : α} (hi : i < b.size) (hu : b.unread ≤ i)
    (h : Q () { b with slot := Function.update b.slot i x }) : wp (write (i : Int) x) Q E b :=
  wp_change hi hu h

lemma wp_write_outside {x : α} (hi : b.size ≤ i) (h : E .outside b) : wp (write (i : Int) x) Q E b := by
  have hin : ¬ b.Inside i := fun hin => by
    have := hin.2
    omega
  unfold wp write change
  rw [if_pos hin]
  exact h

lemma wp_moveDown {n : Nat} (hi : i + n ≤ b.size) (hu : b.unread ≤ 0)
    (h : Q () { b with slot := fun k => if k < n then b.slot (i + k) else b.slot k }) :
    wp (moveDown (i : Int) n) Q E b := by
  have hin : ¬ ((i : Int) < 0 ∨ (b.size : Int) < i + n) := by omega
  unfold wp moveDown
  rw [if_neg hin, if_neg (not_lt.mpr hu), Int.toNat_natCast]
  exact h

end

/-! ## lists written into the slots -/

/-- the slots `f` with `l` written from slot `i` on -/
def overlay (f : Nat → α) (i : Nat) : List α → Nat → α
  | [] => f
  | x :: xs => overlay (Function.update f i x) (i+1) xs

lemma overlay_append (f : Nat → α) (i : Nat) (l m : List α) :
    overlay f i (l ++ m) = overlay (overlay f i l) (i + l.length) m := by
  induction l generalizing f i with
  | nil => rfl
  | cons x l ih =>
    rw [cons_append, overlay, ih, overlay, length_cons, add_right_comm, add_assoc]

lemma overlay_outside (f : Nat → α) {i k : Nat} {l : List α} (h : k < i ∨ i + l.length ≤ k) :
    overlay f i l k = f k := by
  induction l generalizing f i with
  | nil => rfl
  | cons x l ih =>
    rw [length_cons] at h
    rw [overlay, ih _ (by omega), update_of_ne (by omega)]

lemma overlay_getElem (f : Nat → α) (i : Nat) {k : Nat} {l : List α} (h : k < l.length) :
    overlay f i l (i + k) = l[k] := by
  induction l generalizing f i k with
  | nil => exact absurd h (not_lt_zero k)
  | cons x l ih =>
    rw [overlay]
    cases k with
    | zero =>
      rw [overlay_outside _ (.inl (by omega)), add_zero, update_self]
      rfl
    | succ k =>
      rw [show i + (k + 1) = i + 1 + k by omega, ih]
      rfl

/-- the slots from `i` on hold `l` -/
def HoldsFrom (f : Nat → α) (i : Nat) (l : List α) : Prop := ∀ k (h : k < l.length), f (i + k) = l[k]

lemma HoldsFrom.nil (f : Nat → α) (i : Nat) : HoldsFrom f i [] := fun k h => absurd h (not_lt_zero k)

variable {f : Nat → α} {l m : List α}

lemma HoldsFrom.append {i : Nat} (hl : HoldsFrom f i l)
    (hm : HoldsFrom f (i + l.length) m) : HoldsFrom f i (l ++ m) := by
  intro k hk
  rw [length_append] at hk
  rcases lt_or_ge k l.length with h | h
  · rw [hl k h, getElem_append_left h]
  obtain ⟨j, rfl⟩ := Nat.exists_eq_add_of_le h
  have hj : j < m.length := by omega
  have hget : (l ++ m)[l.length + j] = m[j] := by
    rw [getElem_append_right h]
    congr 1
    omega
  rw [← add_assoc, hm j hj, hget]

lemma HoldsFrom.of_eq {f g : Nat → α} {i : Nat} {l : List α} (h : HoldsFrom f i l)
    (he : ∀ k, i ≤ k → k < i + l.length → g k = f k) : HoldsFrom g i l := by
  intro k hk
  rw [he _ (by omega) (by omega), h k hk]

lemma HoldsFrom.overlay (f : Nat → α) (i : Nat) (l : List α) : HoldsFrom (overlay f i l) i l :=
  fun _ hk => overlay_getElem f i hk

lemma HoldsFrom.get {i : Nat} {x : α} (h : HoldsFrom f i (l ++ x :: m)) : f (i + l.length) = x := by
  rw [h l.length (by rw [length_append, length_cons]; omega)]
  exact getElem_of_append rfl rfl

lemma HoldsFrom.left {i : Nat} (h : HoldsFrom f i (l ++ m)) : HoldsFrom f i l := by
  intro k hk
  rw [h k (by rw [length_append]; omega), getElem_append_left hk]

lemma HoldsFrom.right {i : Nat} (h : HoldsFrom f i (l ++ m)) : HoldsFrom f (i + l.length) m := by
  intro k hk
  rw [add_assoc, h (l.length + k) (by rw [length_append]; omega),
    getElem_append_right (le_add_right _ _)]
  congr 1
  omega

lemma HoldsFrom.singleton {i : Nat} {x : α} (h : f i = x) : HoldsFrom f i [x] := by
  intro k hk
  obtain rfl : k = 0 := lt_one_iff.mp hk
  exact h

lemma HoldsFrom.set {i : Nat} {x : α} (y : α) (h : HoldsFrom f i (l ++ x :: m)) :
    HoldsFrom (Function.update f (i + l.length) y) i (l ++ y :: m) := by
  have hright : HoldsFrom f (i + l.length + 1) m := HoldsFrom.right (l := [x]) h.right
  refine HoldsFrom.append (h.left.of_eq fun k h1 h2 => update_of_ne (by omega) _ _) ?_
  refine HoldsFrom.append (l := [y]) (.singleton (update_self _ _ _)) (hright.of_eq ?_)
  intro k h1 h2
  exact update_of_ne (by omega) _ _

lemma HoldsFrom.snoc {i : Nat} {l : List α} (h : HoldsFrom f i l) (y : α) :
    HoldsFrom (Function.update f (i + l.length) y) i (l ++ [y]) :=
  HoldsFrom.append (h.of_eq fun k h1 h2 => update_of_ne (by omega) _ _)
    (.singleton (update_self _ _ _))

lemma HoldsFrom.firsts {b : Slots α} {l : List α} (h : HoldsFrom b.slot 0 l) : b.firsts l.length = l := by
  apply ext_getElem
  · rw [length_firsts]
  · intro k h1 h2
    have hk := h k h2
    simpa [Slots.firsts] using hk

/-! ## exchange sort -/

section
variable (key : α → Nat)

/-- exchange the slots `i` and `j` if they are out of order -/
def exchange (i j : Nat) : SlotProg α Unit := do
  let x ← peek i
  let y ← peek j
  if key x > key y then do
    write i y
    write j x
  else pure ()

/-- every slot is compared with all later ones -/
def exchangeSort (n : Nat) : SlotProg α Unit :=
  loop (fun i _ => loop (fun j _ => exchange key i j) (i+1) (n - (i+1)) ()) 0 n ()

/-- what the sort has done: the slots below `n` are a permutation of the ones of `f` -/
structure Shuffled (f : Nat → α) (n : Nat) (b0 b : Slots α) : Prop where
  size : b.size = b0.size
  unread : b.unread = b0.unread
  perm : (b.firsts n).Perm ((List.range n).map f)

lemma map_swap_perm {i j n : Nat} (hi : i < n) (hj : j < n) :
    ((List.range n).map (Equiv.swap i j)).Perm (List.range n) := by
  refine (perm_ext_iff_of_nodup ?_ nodup_range).mpr ?_
  · exact nodup_range.map (Equiv.swap i j).injective
  · intro k
    constructor
    · intro h
      obtain ⟨m, hm, rfl⟩ := mem_map.mp h
      rw [mem_range] at hm ⊢
      rw [Equiv.swap_apply_def]
      split_ifs <;> omega
    · intro h
      rw [mem_range] at h
      refine mem_map.mpr ⟨Equiv.swap i j k, ?_, Equiv.swap_apply_self i j k⟩
      rw [mem_range, Equiv.swap_apply_def]
      split_ifs <;> omega

lemma update_update_eq_swap (f : Nat → α) (i j : Nat) :
    Function.update (Function.update f i (f j)) j (f i) = f ∘ Equiv.swap i j := by
  funext k
  simp only [update_apply, comp_apply, Equiv.swap_apply_def]
  split_ifs with h1 h2 h2
  · rw [← h1, h2]
  · rfl
  · rfl
  · rfl

variable {key} {E : SlotFault → Slots α → Prop} {b b0 : Slots α} {f : Nat → α} {i j n : Nat}

lemma Shuffled.swap (h : Shuffled f n b0 b) (hi : i < n) (hj : j < n) :
    Shuffled f n b0 { b with slot := b.slot ∘ Equiv.swap i j } where
  size := h.size
  unread := h.unread
  perm := by
    refine List.Perm.trans ?_ h.perm
    show ((List.range n).map (b.slot ∘ Equiv.swap i j)).Perm _
    rw [← map_map]
    exact (map_swap_perm hi hj).map b.slot

lemma wp_exchange {Q : Unit → Slots α → Prop} (hij : i ≤ j) (hj : j < b.size) (hu : b.unread ≤ 0)
    (hkeep : key (b.slot i) ≤ key (b.slot j) → Q () b)
    (hswap : key (b.slot j) < key (b.slot i) → Q () { b with slot := b.slot ∘ Equiv.swap i j }) :
    wp (exchange key i j) Q E b := by
  have hi : i < b.size := by omega
  unfold exchange
  rw [wp_bind]
  refine wp_peek hi ?_
  rw [wp_bind]
  refine wp_peek hj ?_
  rw [wp_ite, wp_bind, wp_pure]
  refine ⟨fun h => ?_, fun h => hkeep (by omega)⟩
  refine wp_write hi (by omega) (wp_write hj (by show b.unread ≤ _; omega) ?_)
  rw [← update_update_eq_swap] at hswap
  exact hswap h

/-- slot `i` has a key no larger than the ones below `j` -/
def LeastUpTo (key : α → Nat) (g : Nat → α) (i j : Nat) : Prop := ∀ k, i ≤ k → k < j → key (g i) ≤ key (g k)

/-- the slots below `i` are sorted, and no later one has a smaller key -/
def SortedUpTo (key : α → Nat) (g : Nat → α) (i n : Nat) : Prop :=
  ∀ k m, k < i → k ≤ m → m < n → key (g k) ≤ key (g m)

variable {g : Nat → α}

lemma SortedUpTo.swap (h : SortedUpTo key g i n) (hj : i ≤ j) (hjn : j < n) :
    SortedUpTo key (g ∘ Equiv.swap i j) i n := by
  intro k m hk hkm hm
  show key (g (Equiv.swap i j k)) ≤ key (g (Equiv.swap i j m))
  rw [Equiv.swap_apply_of_ne_of_ne (by omega) (by omega), Equiv.swap_apply_def]
  split_ifs
  · exact h k j hk (by omega) hjn
  · exact h k i hk (by omega) (by omega)
  · exact h k m hk hkm hm

lemma LeastUpTo.keep (h : LeastUpTo key g i j) (hle : key (g i) ≤ key (g j)) :
    LeastUpTo key g i (j+1) := by
  intro k hk hkj
  rcases lt_or_ge k j with hlt | hge
  · exact h k hk hlt
  · obtain rfl : k = j := by omega
    exact hle

lemma LeastUpTo.swap (h : LeastUpTo key g i j)
    (hlt : key (g j) < key (g i)) : LeastUpTo key (g ∘ Equiv.swap i j) i (j+1) := by
  intro k hk hkj
  show key (g (Equiv.swap i j i)) ≤ key (g (Equiv.swap i j k))
  rw [Equiv.swap_apply_left, Equiv.swap_apply_def]
  split_ifs with h1 h2
  · exact le_rfl
  · exact hlt.le
  · exact hlt.le.trans (h k hk (by omega))

/-- the inner loop brings the least of the remaining keys to slot `i` -/
lemma wp_exchange_row (hi : i < n) (hn : n ≤ b0.size) (hu : b0.unread ≤ 0)
    (hb : Shuffled f n b0 b) (hs : SortedUpTo key b.slot i n) :
    wp (loop (fun j _ => exchange key i j) (i+1) (n - (i+1)) ())
      (fun _ b => Shuffled f n b0 b ∧ SortedUpTo key b.slot (i+1) n) E b := by
  have hrow := wp_loop (E := E) (fun j _ => exchange key i j)
    (fun j _ b => Shuffled f n b0 b ∧ SortedUpTo key b.slot i n ∧ LeastUpTo key b.slot i j)
    (i+1) (n - (i+1)) () ⟨hb, hs, fun k hk hki => ?_⟩ ?_
  · refine wp_post hrow ?_
    rintro _ b' ⟨hb', hs', hl⟩
    rw [show i + 1 + (n - (i + 1)) = n by omega] at hl
    refine ⟨hb', fun k m hk hkm hm => ?_⟩
    rcases lt_or_ge k i with hlt | hge
    · exact hs' k m hlt hkm hm
    · obtain rfl : k = i := by omega
      exact hl m hkm hm
  · obtain rfl : k = i := by omega
    exact le_rfl
  · rintro j _ b' hj hjn ⟨hb', hs', hl⟩
    have hjs : j < b'.size := by rw [hb'.size]; omega
    refine wp_exchange (by omega) hjs (by rw [hb'.unread]; exact hu) (fun hle => ?_) (fun hlt => ?_)
    · exact ⟨hb', hs', hl.keep hle⟩
    · exact ⟨hb'.swap hi (by omega), hs'.swap (by omega) (by omega), hl.swap hlt⟩

/-- **exchange sort**: the first `n` records are permuted, and their keys ascend -/
theorem wp_exchangeSort (hn : n ≤ b.size) (hu : b.unread ≤ 0) : wp (exchangeSort key n)
      (fun _ b' => (b'.firsts n).Perm (b.firsts n) ∧ (b'.firsts n).Pairwise (key · ≤ key ·)) E b := by
  have hloop := wp_loop (E := E)
    (fun i _ => loop (fun j _ => exchange key i j) (i+1) (n - (i+1)) ())
    (fun i _ b' => Shuffled b.slot n b b' ∧ SortedUpTo key b'.slot i n) 0 n ()
    ⟨⟨rfl, rfl, List.Perm.refl _⟩, fun k m hk => absurd hk (not_lt_zero k)⟩ ?_
  · refine wp_post hloop ?_
    rintro _ b' ⟨hb', hs⟩
    rw [zero_add] at hs
    refine ⟨hb'.perm, pairwise_map.mpr ?_⟩
    refine pairwise_lt_range.imp_of_mem ?_
    intro k m hk hm hkm
    exact hs k m (mem_range.mp hk) hkm.le (mem_range.mp hm)
  · rintro i _ b' _ hi ⟨hb', hs⟩
    exact wp_exchange_row (by omega) hn hu hb' hs

end

/-! ## cutting a sorted list -/

section
variable {key : α → Nat} {M : Nat} {S A P : List α}

section
variable (hs : S.Pairwise (key · ≤ key ·))
include hs

lemma filter_append_of_sorted :
    S.filter (key · < M) ++ S.filter (¬ key · < M) = S := by
  induction S with
  | nil => rfl
  | cons x S ih =>
    rw [pairwise_cons] at hs
    by_cases hx : key x < M
    · rw [filter_cons_of_pos (by simpa using hx), filter_cons_of_neg (by simpa using hx),
        cons_append, ih hs.2]
    have hnil : S.filter (key · < M) = [] := by
      rw [filter_eq_nil_iff]
      intro y hy
      have hxy := hs.1 y hy
      simp only [decide_eq_true_eq]
      omega
    have hall := ih hs.2
    rw [hnil, nil_append] at hall
    rw [filter_cons_of_neg (by simpa using hx), filter_cons_of_pos (by simpa using hx),
      hnil, nil_append, hall]

lemma take_of_sorted (hp : S.Perm (A ++ P))
    (hA : ∀ x ∈ A, key x < M) (hP : ∀ x ∈ P, key x = M) : (S.take A.length).Perm A := by
  have hfA : A.filter (key · < M) = A := by
    rw [filter_eq_self]
    intro x hx
    simpa using hA x hx
  have hfP : P.filter (key · < M) = [] := by
    rw [filter_eq_nil_iff]
    intro x hx
    simp [hP x hx]
  have hfilter : (S.filter (key · < M)).Perm A := by
    have h := hp.filter (key · < M)
    rwa [filter_append, hfA, hfP, append_nil] at h
  have htake : S.take A.length = S.filter (key · < M) := by
    calc S.take A.length
        = (S.filter (key · < M) ++ S.filter (¬ key · < M)).take (S.filter (key · < M)).length := by
          rw [filter_append_of_sorted hs, hfilter.length_eq]
      _ = S.filter (key · < M) := take_left
  rw [htake]
  exact hfilter

/-- if a record has a larger key than the ones to be cut off, one of them is kept -/
lemma mem_take_of_sorted (hp : S.Perm (A ++ P))
    (hP : ∀ x ∈ P, key x = M) (hne : P ≠ []) {a : α} (ha : a ∈ A) (hM : M < key a) :
    ∃ x ∈ S.take A.length, key x = M := by
  by_contra hno
  push Not at hno
  have hlen : S.length = A.length + P.length := by rw [hp.length_eq, length_append]
  have hdrop : (S.drop A.length).length = P.length := by rw [length_drop]; omega
  -- all of the records to be cut off are in the part that is cut off, and fill it
  have hcount : P.length ≤ (S.drop A.length).countP (key · = M) := by
    have h1 : (S.take A.length).countP (key · = M) = 0 := by
      rw [countP_eq_zero]
      intro x hx
      simpa using hno x hx
    have h2 : S.countP (key · = M) = A.countP (key · = M) + P.length := by
      rw [hp.countP_eq, countP_append]
      congr 1
      rw [countP_eq_length]
      intro x hx
      simpa using hP x hx
    have h3 : S.countP (key · = M) = (S.take A.length).countP (key · = M) + (S.drop A.length).countP (key · = M) := by
      rw [← countP_append, take_append_drop]
    omega
  have hall : ∀ x ∈ S.drop A.length, key x = M := by
    have h := countP_le_length (p := fun x => decide (key x = M)) (l := S.drop A.length)
    have heq := countP_eq_length.mp (le_antisymm h (by omega))
    intro x hx
    simpa using heq x hx
  obtain ⟨y, hy⟩ := exists_mem_of_ne_nil (S.drop A.length) (by
    rw [← length_pos_iff_ne_nil, hdrop]
    exact length_pos_iff_ne_nil.mpr hne)
  have hmem : a ∈ S.take A.length ++ S.drop A.length := by
    rw [take_append_drop]
    exact hp.mem_iff.mpr (mem_append_left _ ha)
  rw [← take_append_drop A.length S, pairwise_append] at hs
  rcases mem_append.mp hmem with h | h
  · have hle := hs.2.2 a h y hy
    rw [hall y hy] at hle
    omega
  · rw [hall a h] at hM
    exact absurd hM (lt_irrefl _)

end

end

end Slots
