import Audk.Lib.Prog
import Mathlib.Data.Multiset.AddSub
import Mathlib.Data.Multiset.UnionInter

/-!
# A heap of records

A heap maps an address to the record that is allocated there.  A pointer is an address or `NULL`; to
follow `NULL` or a pointer to a record that was freed is a fault.

`Owns h m` says that `m` is the whole heap: the records of `m` are at different addresses, and there
are no others.  A multiset of records is taken apart by `abel`, so that a load or a store is justified
by an equation `m = {(a, r)} + m'`.

* `load`, `store`, `release`: the accesses;
* `wp_load`, `wp_store`, `wp_release`: their rules over `Owns`.
-/

namespace RecordHeap

open Prog Function

/-- an address, or `NULL` -/
abbrev Ptr := Option Nat

/-- what is allocated -/
abbrev Heap (ρ : Type) := Nat → Option ρ

/-- what a run can stop with -/
inductive Fault where
  | pointer
  | assertion
  | stuck

section
variable {ρ : Type}

def load (p : Ptr) : Prog (Heap ρ) Fault ρ := fun h =>
  match p.bind h with
  | some r => (.ok r, h)
  | none => (.error .pointer, h)

def store (p : Ptr) (f : ρ → ρ) : Prog (Heap ρ) Fault Unit := fun h =>
  match p with
  | none => (.error .pointer, h)
  | some a =>
    match h a with
    | none => (.error .pointer, h)
    | some r => (.ok (), Function.update h a (some (f r)))

def release (p : Ptr) : Prog (Heap ρ) Fault Unit := fun h =>
  match p with
  | none => (.error .pointer, h)
  | some a =>
    match h a with
    | none => (.error .pointer, h)
    | some _ => (.ok (), Function.update h a none)

def allocate (a : Nat) (r : ρ) : Prog (Heap ρ) Fault Unit :=
  modify fun h => Function.update h a (some r)

def check (c : Prop) [Decidable c] : Prog (Heap ρ) Fault Unit := stopIf (¬ c) .assertion

/-! ## ownership -/

/-- the records of `m` are exactly those of the heap -/
structure Owns (h : Heap ρ) (m : Multiset (Nat × ρ)) : Prop where
  nodup : (m.map Prod.fst).Nodup
  mem : ∀ a r, h a = some r ↔ (a, r) ∈ m

variable {h : Heap ρ} {m m' : Multiset (Nat × ρ)} {a : Nat} {r : ρ}

lemma owns_empty : Owns (fun _ => none : Heap ρ) 0 := ⟨Multiset.nodup_zero, by simp⟩

section
variable (ho : Owns h ({(a, r)} + m))
include ho

lemma Owns.notMem : ∀ r', (a, r') ∉ m := by
  intro r' hmem
  have hnodup := ho.nodup
  rw [Multiset.map_add, Multiset.map_singleton, Multiset.nodup_add] at hnodup
  exact Multiset.disjoint_left.mp hnodup.2.2 (Multiset.mem_singleton_self a)
    (Multiset.mem_map.mpr ⟨(a, r'), hmem, rfl⟩)

lemma Owns.get : h a = some r :=
  (ho.mem a r).mpr (Multiset.mem_add.mpr (.inl (Multiset.mem_singleton_self _)))

lemma Owns.update (r' : ρ) : Owns (Function.update h a (some r')) ({(a, r')} + m) := by
  have hnodup := ho.nodup
  refine ⟨?_, fun b s => ?_⟩
  · rw [Multiset.map_add, Multiset.map_singleton] at hnodup ⊢
    exact hnodup
  · rw [Multiset.mem_add, Multiset.mem_singleton]
    by_cases hb : b = a
    · subst hb
      rw [update_self]
      have hout := ho.notMem s
      simp only [hout, or_false, Prod.mk.injEq, true_and, Option.some.injEq, eq_comm]
    · rw [update_of_ne hb, ho.mem, Multiset.mem_add, Multiset.mem_singleton]
      simp only [Prod.mk.injEq, hb, false_and, false_or]

lemma Owns.remove : Owns (Function.update h a none) m := by
  have hnodup := ho.nodup
  rw [Multiset.map_add, Multiset.nodup_add] at hnodup
  refine ⟨hnodup.2.1, fun b s => ?_⟩
  by_cases hb : b = a
  · subst hb
    rw [update_self]
    simp only [ho.notMem s, reduceCtorEq]
  · rw [update_of_ne hb, ho.mem, Multiset.mem_add, Multiset.mem_singleton]
    simp only [Prod.mk.injEq, hb, false_and, false_or]

end

lemma Owns.insert (ho : Owns h m) (ha : h a = none) (r : ρ) : Owns (Function.update h a (some r)) ({(a, r)} + m) := by
  have hout : ∀ s, (a, s) ∉ m := by
    intro s hs
    rw [← ho.mem, ha] at hs
    cases hs
  refine ⟨?_, fun b s => ?_⟩
  · rw [Multiset.map_add, Multiset.map_singleton, Multiset.nodup_add]
    refine ⟨Multiset.nodup_singleton a, ho.nodup, ?_⟩
    rw [Multiset.disjoint_left]
    intro b hb hb'
    obtain ⟨⟨b', s⟩, hs, rfl⟩ := Multiset.mem_map.mp hb'
    rw [Multiset.mem_singleton] at hb
    subst hb
    exact hout s hs
  · rw [Multiset.mem_add, Multiset.mem_singleton]
    by_cases hb : b = a
    · subst hb
      rw [update_self]
      simp only [hout s, or_false, Prod.mk.injEq, true_and, Option.some.injEq, eq_comm]
    · rw [update_of_ne hb, ho.mem]
      simp only [Prod.mk.injEq, hb, false_and, false_or]

lemma Owns.eq_none_iff (ho : Owns h m) : h a = none ↔ a ∉ m.map Prod.fst := by
  rw [Multiset.mem_map]
  constructor
  · rintro hn ⟨⟨b, r⟩, hr, rfl⟩
    rw [← ho.mem, hn] at hr
    cases hr
  · intro hn
    cases hr : h a with
    | none => rfl
    | some r => exact absurd ⟨(a, r), (ho.mem a r).mp hr, rfl⟩ hn

/-! ## rules -/

variable {Q : ρ → Heap ρ → Prop} {E : Fault → Heap ρ → Prop}

lemma wp_load (ho : Owns h m) (hm : m = {(a, r)} + m') (hQ : Q r h) : wp (load (some a)) Q E h := by
  subst hm
  unfold wp load
  simp only [Option.bind_some, ho.get]
  exact hQ

lemma wp_store {f : ρ → ρ} {Q : Unit → Heap ρ → Prop} (ho : Owns h m) (hm : m = {(a, r)} + m')
    (hQ : ∀ h', Owns h' ({(a, f r)} + m') → Q () h') : wp (store (some a) f) Q E h := by
  subst hm
  unfold wp store
  simp only [ho.get]
  exact hQ _ (ho.update (f r))

lemma wp_release {Q : Unit → Heap ρ → Prop} (ho : Owns h m) (hm : m = {(a, r)} + m')
    (hQ : ∀ h', Owns h' m' → Q () h') : wp (release (some a)) Q E h := by
  subst hm
  unfold wp release
  simp only [ho.get]
  exact hQ _ ho.remove

lemma wp_allocate {Q : Unit → Heap ρ → Prop} (ho : Owns h m) (ha : h a = none)
    (hQ : ∀ h', Owns h' ({(a, r)} + m) → Q () h') : wp (allocate a r) Q E h :=
  hQ _ (ho.insert ha r)

lemma wp_check {c : Prop} [Decidable c] {Q : Unit → Heap ρ → Prop} (hc : c) (hQ : Q () h) : wp (check c) Q E h := by
  unfold check
  rw [wp_stopIf]
  exact ⟨fun hn => absurd hc hn, fun _ => hQ⟩

end

end RecordHeap
