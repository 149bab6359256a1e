import Audk.Lib.Bytes

/-!
# Cells: encoded numbers in a memory

A cell is a way to keep a number below a modulus in a few bytes of memory, whatever the encoding
is.  Adding to the number is `Cell.shift`.

* `shift_shift`: two shifts of one cell add up;
* `shiftAll`: a list of shifts in order; `shiftAll_frame` says that nothing outside the cells changes.
-/

namespace Bytes

open List Nat

/-- a number below `modulus`, encoded in `width` bytes -/
structure Cell where
  width : Nat
  modulus : Nat
  get : Mem → Nat → Nat
  set : Mem → Nat → Nat → Mem
  pos : 0 < modulus
  get_congr : ∀ {m m' : Mem} {a : Nat}, SameOn m m' a (a + width) → get m a = get m' a
  set_congr : ∀ {m m' : Mem} {a : Nat} (v : Nat), SameOn m m' a (a + width) →
    SameOn (set m a v) (set m' a v) a (a + width)
  set_frame : ∀ (m : Mem) (a v i : Nat), ¬ (a ≤ i ∧ i < a + width) → set m a v i = m i
  get_set : ∀ (m : Mem) (a v : Nat), v < modulus → get (set m a v) a = v
  set_set : ∀ (m : Mem) (a v w : Nat), set (set m a v) a w = set m a w

namespace Cell

/-- the little-endian word of `n` bytes -/
def word (n : Nat) : Cell where
  width := n
  modulus := 256^n
  get := fun m a => le m a n
  set := fun m a v => put m a n v
  pos := Nat.pow_pos (by norm_num)
  get_congr := le_congr
  set_congr := by
    intro m m' a v h i h1 h2
    show (if _ then _ else _) = (if _ then _ else _)
    rw [if_pos ⟨h1, h2⟩, if_pos ⟨h1, h2⟩]
  set_frame := fun m a v i h => put_of_not_mem m v h
  get_set := fun m a v h => (le_put_same m a n v).trans (mod_eq_of_lt h)
  set_set := fun m a v w => put_put_same m a n v w

lemma set_comm (c d : Cell) (m : Mem) {a b : Nat} (v w : Nat) (h : a + c.width ≤ b ∨ b + d.width ≤ a) :
    c.set (d.set m b w) a v = d.set (c.set m a v) b w := by
  funext i
  have hd : SameOn (d.set m b w) m a (a + c.width) := fun j h1 h2 => d.set_frame m b w j (by omega)
  have hc : SameOn (c.set m a v) m b (b + d.width) := fun j h1 h2 => c.set_frame m a v j (by omega)
  by_cases h1 : a ≤ i ∧ i < a + c.width
  · rw [d.set_frame _ b w i (by omega)]
    exact c.set_congr v hd i h1.1 h1.2
  · rw [c.set_frame _ a v i h1]
    by_cases h2 : b ≤ i ∧ i < b + d.width
    · exact (d.set_congr w hc i h2.1 h2.2).symm
    · rw [d.set_frame _ b w i h2, d.set_frame _ b w i h2, c.set_frame _ a v i h1]

/-- add `x` to the number at `a` -/
def shift (c : Cell) (m : Mem) (a x : Nat) : Mem := c.set m a ((c.get m a + x) % c.modulus)

section
variable (c d : Cell) (m : Mem)

lemma get_shift (a x : Nat) : c.get (c.shift m a x) a = (c.get m a + x) % c.modulus :=
  c.get_set m a _ (mod_lt _ c.pos)

lemma shift_frame (a x i : Nat) (h : ¬ (a ≤ i ∧ i < a + c.width)) : c.shift m a x i = m i := c.set_frame m a _ i h

lemma shift_shift (a x y : Nat) : c.shift (c.shift m a x) a y = c.shift m a (x + y) := by
  show c.set (c.set m a _) a ((c.get (c.shift m a x) a + y) % c.modulus) = c.set m a _
  rw [get_shift, c.set_set, mod_add_mod, add_assoc]

lemma shift_mod (a x : Nat) : c.shift m a (x % c.modulus) = c.shift m a x := by
  unfold shift
  rw [add_mod_mod]

lemma shift_eq_of_mod {a x y : Nat} (h : x % c.modulus = y % c.modulus) : c.shift m a x = c.shift m a y := by
  rw [← shift_mod, h, shift_mod]

variable {m}

lemma shift_congr {m' : Mem} {a : Nat} (x : Nat) (h : SameOn m m' a (a + c.width)) :
    SameOn (c.shift m a x) (c.shift m' a x) a (a + c.width) := by
  unfold shift
  rw [c.get_congr h]
  exact c.set_congr _ h

lemma sameOn_shift {a x lo hi : Nat} (h : hi ≤ a ∨ a + c.width ≤ lo) : SameOn (c.shift m a x) m lo hi :=
  fun i h1 h2 => c.shift_frame m a x i (by omega)

end

end Cell

/-! ## lists of shifts -/

/-- a cell at an address -/
structure Target where
  cell : Cell
  addr : Nat

def Target.span (t : Target) : Span := ⟨t.addr, t.cell.width⟩

/-- shift every target by `x`, in order -/
def shiftAll (x : Nat) (ts : List Target) (m : Mem) : Mem := ts.foldl (fun m t => t.cell.shift m t.addr x) m

section
variable {x : Nat} {m : Mem}

lemma shiftAll_nil : shiftAll x [] m = m := rfl

lemma shiftAll_cons (t : Target) (ts : List Target) :
    shiftAll x (t :: ts) m = shiftAll x ts (t.cell.shift m t.addr x) := rfl

lemma shiftAll_append (ts us : List Target) :
    shiftAll x (ts ++ us) m = shiftAll x us (shiftAll x ts m) := foldl_append

variable {ts : List Target}

lemma shiftAll_frame {i : Nat}
    (h : ∀ t, t ∈ ts → ¬ (t.addr ≤ i ∧ i < t.addr + t.cell.width)) : shiftAll x ts m i = m i := by
  induction ts generalizing m with
  | nil => rfl
  | cons t ts ih =>
    rw [shiftAll_cons, ih (fun u hu => h u (mem_cons_of_mem _ hu))]
    exact t.cell.shift_frame m t.addr x i (h t mem_cons_self)

lemma sameOn_shiftAll {lo hi : Nat}
    (h : ∀ t, t ∈ ts → hi ≤ t.addr ∨ t.addr + t.cell.width ≤ lo) :
    SameOn (shiftAll x ts m) m lo hi := by
  intro i h1 h2
  apply shiftAll_frame
  intro t ht hc
  have := h t ht
  omega

lemma shiftAll_at (hd : ts.Pairwise fun t u => t.span.Disjoint u.span)
    {t : Target} (ht : t ∈ ts) :
    SameOn (shiftAll x ts m) (t.cell.shift m t.addr x) t.addr (t.addr + t.cell.width) := by
  induction ts generalizing m with
  | nil => exact absurd ht not_mem_nil
  | cons u ts ih =>
    obtain ⟨hu, hd'⟩ := pairwise_cons.mp hd
    rcases mem_cons.mp ht with rfl | ht'
    · rw [shiftAll_cons]
      apply sameOn_shiftAll
      intro v hv
      exact hu v hv
    · have hdis : u.addr + u.cell.width ≤ t.addr ∨ t.addr + t.cell.width ≤ u.addr := hu t ht'
      exact (ih hd' ht').trans (t.cell.shift_congr x (u.cell.sameOn_shift hdis.symm))

end

end Bytes
