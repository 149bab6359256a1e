import Audk.Base.Overflow
import Mathlib.Logic.Function.Iterate

/-!
# The heap guard's bitmap: a walk over its tables, and the guard pages

`mGuardedMemoryMap` is a tree of tables over words of 64 pages; a set bit is a guarded page.

* `walk_scans`: what a walker keeps from page to page holds behind the last one;
* `setAllGuardPages_iff`: when the guard pages that are set are those around the marked runs.
-/

namespace Audk.Mem.HeapGuard

open List Function Nat Bool

abbrev Level := Nat × Nat

/-- `mLevelShift` and `mLevelMask`, the root's level first -/
def mLevels : List Level := [(55, 0x1FF), (46, 0x1FF), (37, 0x1FF), (28, 0x1FF), (18, 0x3FF)]

/-- the bitmap: `tables t i` is the entry `i` of the table at `t`; without a level in range nothing is done -/
structure GuardMap where
  tables : BitVec 64 → Nat → BitVec 64
  mGuardedMemoryMap : BitVec 64
  mMapLevel : Nat
  level_pos : 0 < mMapLevel
  level_le : mMapLevel ≤ 5

/-- the word of an address, or `NULL` where a table is missing -/
def findGuardedMemoryMap (tables : BitVec 64 → Nat → BitVec 64) (address : Nat) :
    List Level → BitVec 64 → Option (BitVec 64)
  | [], word => some word
  | (shift, mask) :: levels, table =>
    if table = 0#64 then none
    else findGuardedMemoryMap tables address levels (tables table ((address >>> shift) &&& mask))

def GuardMap.levels (m : GuardMap) : List Level := mLevels.drop (5 - m.mMapLevel)

/-- the tables of `mMapLevel` levels cover `2 ^ width` pages -/
def GuardMap.width (m : GuardMap) : Nat := 9 * (m.mMapLevel - 1) + 16

def GuardMap.word (m : GuardMap) (page : Nat) : Option (BitVec 64) :=
  findGuardedMemoryMap m.tables (page * 0x1000) m.levels m.mGuardedMemoryMap

@[irreducible] def GuardMap.marked (m : GuardMap) (page : Nat) : Bool :=
  decide (page < 2^m.width) && ((m.word page).getD 0#64).getLsbD (page % 64)

/-- `Tables`, `Indices` and `Addresses` at one level, with its shift, its mask and the levels below -/
structure Frame where
  shift : Nat
  mask : Nat
  below : List Level
  table : BitVec 64
  index : Nat
  address : Nat

def addressAbove (up : List Frame) : Nat := (up.head?.map Frame.address).getD 0

/-- the end of a turn: the next entry of the table that is left on top, none of them after the root -/
def advance : List Frame → List Frame
  | [] => []
  | f :: up =>
    { f with index := f.index + 1, address := addressAbove up ||| ((f.index + 1) <<< f.shift) % 2^64 } :: up

/-- what a walk does: whether it descends into `NULL` entries, and what it does with the entries of the last level
and those it does not descend into -/
structure Walker (σ : Type) where
  nulls : Bool
  visit : BitVec 64 → Nat → σ → σ

/-- one turn of the loop; the tables from the current `Level` up to the root's are a stack.  A walk that reads a
table at `NULL` ends without a value -/
def turn {σ : Type} (m : GuardMap) (w : Walker σ) : List Frame × Option σ → List Frame × Option σ
  | ([], x) => ([], x)
  | (_ :: _, none) => ([], none)
  | (f :: up, some x) =>
    if f.mask < f.index then (advance up, some x)
    else if f.table = 0#64 then ([], none)
    else
      let tableEntry := m.tables f.table f.index
      match f.below with
      | [] => (advance (f :: up), some (w.visit tableEntry f.address x))
      | (shift, mask) :: below =>
        if tableEntry ≠ 0#64 ∨ w.nulls then (⟨shift, mask, below, tableEntry, 0, f.address⟩ :: f :: up, some x)
        else (advance (f :: up), some (w.visit tableEntry f.address x))

/-- the loop, if it ends in so many turns -/
def walk {σ : Type} (m : GuardMap) (w : Walker σ) (x : σ) (turns : Nat) : Option (Option σ) :=
  match m.levels with
  | [] => some (some x)
  | (shift, mask) :: below =>
    match (turn m w)^[turns] ([⟨shift, mask, below, m.mGuardedMemoryMap, 0, 0⟩], some x) with
    | ([], x) => some x
    | _ => none

/-- `OnGuarding` and the calls of `SetGuardPage` -/
structure Guarding where
  onGuarding : Bool
  calls : List Nat

/-- `GuardPage` at a page: the page before the first one of a run, or the one after the last -/
def guardPage : (marked onGuarding : Bool) → (address : Nat) → Nat
  | true, true, _ => 0
  | true, false, address => sub64 address 0x1000
  | false, true, address => address
  | false, false, _ => 0

def Guarding.atPage (x : Guarding) (marked : Bool) (address : Nat) : Guarding where
  onGuarding := marked
  calls :=
    let page := guardPage marked x.onGuarding address
    if page ≠ 0 then x.calls ++ [page] else x.calls

def guardBits : Nat → BitVec 64 → Nat → Guarding → Guarding
  | 0, _, _, x => x
  | n + 1, tableEntry, address, x =>
    let x := x.atPage (tableEntry.getLsbD 0) address
    if tableEntry = 0#64 then x else guardBits n (tableEntry >>> 1) ((address + 0x1000) % 2^64) x

def guardWalker : Walker Guarding where
  nulls := false
  visit := fun tableEntry address x =>
    if tableEntry = 0#64 then { x with onGuarding := false } else guardBits 64 tableEntry address x

/-- the calls of `SetGuardPage`, if the loop ends in so many turns -/
def setAllGuardPages (m : GuardMap) (turns : Nat) : Option (List Nat) :=
  if m.mGuardedMemoryMap = 0#64 then some []
  else (walk m guardWalker ⟨false, []⟩ turns).join.map Guarding.calls

/-! ## the walk -/

/-- a table of these levels covers `2 ^ w` pages -/
inductive Levels : Nat → List Level → Prop
  | word : Levels 6 []
  | table {w : Nat} {levels : List Level} (n : Nat) (h : Levels w levels) :
      Levels (n + w) ((12 + w, 2^n - 1) :: levels)

lemma GuardMap.levels_width (m : GuardMap) :
    Levels m.width m.levels ∧ ∃ shift mask below, m.levels = (shift, mask) :: below := by
  obtain ⟨tables, root, level, hpos, hle⟩ := m
  have h1 : Levels 16 [(18, 0x3FF)] := Levels.word.table 10
  have h2 : Levels 25 [(28, 0x1FF), (18, 0x3FF)] := h1.table 9
  have h3 : Levels 34 [(37, 0x1FF), (28, 0x1FF), (18, 0x3FF)] := h2.table 9
  have h4 : Levels 43 [(46, 0x1FF), (37, 0x1FF), (28, 0x1FF), (18, 0x3FF)] := h3.table 9
  interval_cases level
  · exact ⟨h1, _, _, _, rfl⟩
  · exact ⟨h2, _, _, _, rfl⟩
  · exact ⟨h3, _, _, _, rfl⟩
  · exact ⟨h4, _, _, _, rfl⟩
  · exact ⟨h4.table 9, _, _, _, rfl⟩

lemma GuardMap.width_le (m : GuardMap) : 2^m.width ≤ 2^52 := by
  refine Nat.pow_le_pow_right (by decide) ?_
  have := m.level_le
  unfold GuardMap.width
  omega

lemma Levels.six_le {w : Nat} {levels : List Level} (h : Levels w levels) : 6 ≤ w := by
  induction h with
  | word => exact le_rfl
  | table n _ ih => omega

lemma index_eq {n w b i j : Nat} (hb : 2^(n + w) ∣ b) (hi : i < 2^n) (hj : j < 2^w) :
    (((b + i * 2^w + j) * 0x1000) >>> (12 + w)) &&& (2^n - 1) = i := by
  obtain ⟨k, rfl⟩ := hb
  rw [Nat.and_two_pow_sub_one_eq_mod, Nat.shiftRight_eq_div_pow, pow_add 2 12 w,
    show 0x1000 = 2^12 from rfl, ← Nat.div_div_eq_div_mul, Nat.mul_div_cancel _ (by decide),
    show 2^(n + w) * k + i * 2^w + j = j + (2^n * k + i) * 2^w by ring,
    Nat.add_mul_div_right _ _ (by positivity), Nat.div_eq_of_lt hj, Nat.zero_add, Nat.mul_add_mod,
    Nat.mod_eq_of_lt hi]

lemma address_eq {n w b i : Nat} (hb : 2^(n + w) ∣ b) (hi : i < 2^n) (hend : b + 2^(n + w) ≤ 2^52) :
    b * 0x1000 ||| (i <<< (12 + w)) % 2^64 = (b + i * 2^w) * 0x1000 := by
  have hlt : i * 2^(12 + w) < 2^(12 + (n + w)) := by
    rw [show 12 + (n + w) = n + (12 + w) by omega, pow_add 2 n]
    exact mul_lt_mul_of_pos_right hi (by positivity)
  have hle : 2^(12 + (n + w)) ≤ 2^64 := by
    rw [pow_add]
    omega
  obtain ⟨k, rfl⟩ := hb
  rw [shiftLeft_eq, mod_eq_of_lt (hlt.trans_le hle),
    show 2^(n + w) * k * 0x1000 = 2^(12 + (n + w)) * k by rw [pow_add 2 12]; ring,
    ← two_pow_add_eq_or_of_lt hlt, pow_add 2 12, pow_add 2 12]
  ring


/-- the tables of `levels` at `t` hold the pages from `b` on -/
def Holds (m : GuardMap) (levels : List Level) (t : BitVec 64) (b w : Nat) : Prop :=
  ∀ p, b ≤ p → p < b + 2^w → p < 2^m.width ∧ m.word p = findGuardedMemoryMap m.tables (p * 0x1000) levels t

section
variable {σ : Type} {m : GuardMap} {walker : Walker σ} {x : σ} {b p w : Nat} {levels : List Level} {t : BitVec 64}

variable {P : Nat → σ → Prop} {n i : Nat}

lemma entry_le (hi : i < 2^n) : i * 2^w + 2^w ≤ 2^(n + w) := by
  rw [pow_add, ← succ_mul]
  exact mul_le_mul_right _ hi

lemma Holds.entry (h : Holds m ((12 + w, 2^n - 1) :: levels) t b (n + w)) (ht : t ≠ 0#64)
    (hb : 2^(n + w) ∣ b) (hi : i < 2^n) : Holds m levels (m.tables t i) (b + i * 2^w) w := by
  intro p hp hlt
  have hle := entry_le (w := w) hi
  obtain ⟨hwidth, hword⟩ := h p (by omega) (by omega)
  refine ⟨hwidth, ?_⟩
  have := index_eq hb hi (show p - (b + i * 2^w) < 2^w by omega)
  rw [Nat.add_sub_cancel' hp] at this
  rw [hword, findGuardedMemoryMap, if_neg ht, this]

def GuardMap.Missing (m : GuardMap) : Prop := ∃ p < 2^m.width, m.word p = none

lemma Holds.missing {l : Level} (h : Holds m (l :: levels) 0#64 b w) : m.Missing := by
  obtain ⟨hwidth, hword⟩ := h b le_rfl (Nat.lt_add_of_pos_right (by positivity))
  exact ⟨b, hwidth, hword.trans (if_pos rfl)⟩

/-- `P b` is kept when the walker goes on from page `b` -/
def Walker.Scans (walker : Walker σ) (m : GuardMap) (P : Nat → σ → Prop) : Prop :=
  ∀ {levels e b w x}, Levels w levels → Holds m levels e b w → levels = [] ∨ e = 0#64 ∧ walker.nulls = false →
    2^w ∣ b → b + 2^w ≤ 2^52 → P b x → P (b + 2^w) (walker.visit e (b * 0x1000) x)

/-- the walk comes back to the stack `up`, with `Q`, or it reads a table that is not there -/
def Returns (m : GuardMap) (walker : Walker σ) (s : List Frame × Option σ) (up : List Frame) (Q : σ → Prop) : Prop :=
  ∃ k, (∃ x, (turn m walker)^[k] s = (advance up, some x) ∧ Q x) ∨
    (turn m walker)^[k] s = ([], none) ∧ walker.nulls = true ∧ m.Missing

lemma Returns.step {s s' : List Frame × Option σ} {up : List Frame} {Q : σ → Prop} (hturn : turn m walker s = s')
    (h : Returns m walker s' up Q) : Returns m walker s up Q := by
  subst hturn
  obtain ⟨k, hk⟩ := h
  exact ⟨k + 1, hk⟩

lemma Returns.trans {s : List Frame × Option σ} {up up' : List Frame} {Q Q' : σ → Prop}
    (h : Returns m walker s up Q) (h' : ∀ x, Q x → Returns m walker (advance up, some x) up' Q') :
    Returns m walker s up' Q' := by
  obtain ⟨k, ⟨x, hx, hQ⟩ | hnull⟩ := h
  · obtain ⟨l, hl⟩ := h' x hQ
    refine ⟨l + k, ?_⟩
    rwa [iterate_add_apply, hx]
  · exact ⟨k, .inr hnull⟩

/-- **the walk of one table** -/
theorem walk_table (hw : walker.Scans m P) (hl : Levels w levels) {shift mask : Nat}
    {below : List Level} (hbelow : levels = (shift, mask) :: below) (ht : t = 0#64 → walker.nulls = true)
    (hholds : Holds m levels t b w) (hb : 2^w ∣ b) (hend : b + 2^w ≤ 2^52) (up : List Frame)
    (hup : addressAbove up = b * 0x1000) (h : P b x) :
    Returns m walker (⟨shift, mask, below, t, 0, b * 0x1000⟩ :: up, some x) up (P (b + 2^w)) := by
  induction hl generalizing shift mask below t b up x with
  | word => cases hbelow
  | @table w levels n hl ih =>
    obtain ⟨⟨rfl, rfl⟩, rfl⟩ : ((12 + w = shift) ∧ 2^n - 1 = mask) ∧ levels = below := by
      simpa using hbelow
    by_cases ht0 : t = 0#64
    · subst ht0
      exact ⟨1, .inr ⟨rfl, ht rfl, hholds.missing⟩⟩
    have hdvd : 2^w ∣ b := (pow_dvd_pow 2 (le_add_left w n)).trans hb
    -- one entry
    have hentry : ∀ i < 2^n, ∀ f, f = ⟨12 + w, 2^n - 1, levels, t, i, (b + i * 2^w) * 0x1000⟩ → ∀ x,
        P (b + i * 2^w) x → Returns m walker (f :: up, some x) (f :: up) (P (b + i * 2^w + 2^w)) := by
      intro i hi f hf x hP
      have hle := entry_le (w := w) hi
      have hb' : 2^w ∣ b + i * 2^w := dvd_add hdvd (dvd_mul_left _ _)
      have hin : ¬ 2^n - 1 < i := by omega
      have hsub := hholds.entry ht0 hb hi
      cases hl with
      | word =>
        subst hf
        exact ⟨1, .inl ⟨_, (if_neg hin).trans (if_neg ht0), hw .word hsub (.inl rfl) hb' (by omega) hP⟩⟩
      | @table w levels n' hl =>
        by_cases hfollow : m.tables t i ≠ 0#64 ∨ walker.nulls = true
        · have hsub' := ih rfl (fun he => hfollow.resolve_left (not_not.mpr he)) hsub hb' (by omega) (f :: up)
            (hf ▸ rfl) hP
          subst hf
          exact .step ((if_neg hin).trans ((if_neg ht0).trans (if_pos hfollow))) hsub'
        · have hlast := not_or.mp hfollow
          subst hf
          exact ⟨1, .inl ⟨_, (if_neg hin).trans ((if_neg ht0).trans (if_neg hfollow)),
            hw (hl.table n') hsub (.inr ⟨not_not.mp hlast.1, eq_false_iff.mpr hlast.2⟩) hb' (by omega) hP⟩⟩
    -- the entries from `i` on: the address behind the last one is not used
    have hentries : ∀ r i a x, i + r = 2^n → (r ≠ 0 → a = (b + i * 2^w) * 0x1000) → P (b + i * 2^w) x →
        Returns m walker (⟨12 + w, 2^n - 1, levels, t, i, a⟩ :: up, some x) up (P (b + 2^(n + w))) := by
      intro r
      induction r with
      | zero =>
        intro i a x hi _ hx
        obtain rfl : i = 2^n := hi
        have hpos := Nat.two_pow_pos n
        refine ⟨1, .inl ⟨x, if_pos (by dsimp only; omega), ?_⟩⟩
        rw [pow_add]
        exact hx
      | succ r ihr =>
        intro i a x hi ha hx
        obtain rfl := ha (succ_ne_zero r)
        refine (hentry i (by omega) _ rfl x hx).trans fun x' hx' => ihr (i + 1) _ x' (by omega) (fun hr => ?_) ?_
        · have hi' : i + 1 < 2^n := by omega
          rw [hup, address_eq hb hi' hend]
        · rwa [add_assoc, ← succ_mul] at hx'
    have hstart : P (b + 0 * 2^w) x := by
      rw [zero_mul]
      exact h
    exact hentries (2^n) 0 _ x (zero_add _) (fun _ => by rw [zero_mul, add_zero]) hstart

/-- **the walk ends**, and it has been at every page or has read a table that is not there -/
theorem walk_scans (hw : walker.Scans m P) (hroot : m.mGuardedMemoryMap ≠ 0#64) (h : P 0 x) :
    ∃ turns x', (∀ k ≥ turns, walk m walker x k = some x') ∧
      ((∃ y, x' = some y ∧ P (2^m.width) y) ∨ x' = none ∧ walker.nulls = true ∧ m.Missing) := by
  obtain ⟨hlevels, shift, mask, below, hl⟩ := m.levels_width
  have hwidth := m.width_le
  have hholds : Holds m m.levels m.mGuardedMemoryMap 0 m.width := fun p _ hp => ⟨by omega, rfl⟩
  have hreturns := walk_table hw hlevels hl (fun h0 => absurd h0 hroot) hholds (dvd_zero _) (by omega) [] rfl h
  rw [zero_add, zero_mul] at hreturns
  -- the stack is empty in the end, and stays so
  have hstay : ∀ turns x', (turn m walker)^[turns] ([⟨shift, mask, below, m.mGuardedMemoryMap, 0, 0⟩], some x) =
      ([], x') → ∀ k ≥ turns, walk m walker x k = some x' := by
    intro turns x' hturns k hk
    obtain ⟨r, rfl⟩ := Nat.exists_eq_add_of_le' hk
    have hfixed : (turn m walker)^[r] ([], x') = ([], x') := iterate_fixed rfl r
    unfold walk
    rw [hl]
    dsimp only
    rw [iterate_add_apply, hturns, hfixed]
  obtain ⟨turns, ⟨y, hy, hP⟩ | ⟨hnone, hnull⟩⟩ := hreturns
  · exact ⟨turns, some y, hstay _ _ hy, .inl ⟨y, rfl, hP⟩⟩
  · exact ⟨turns, none, hstay _ _ hnone, .inr ⟨rfl, hnull⟩⟩

end

/-! ## the guard pages -/

def GuardMap.before (m : GuardMap) (p : Nat) : Bool := decide (p ≠ 0) && m.marked (p - 1)

/-- `c` is the guard page that is set at page `p`; the words without a marked page are not looked at -/
def GuardMap.Sets (m : GuardMap) (p c : Nat) : Prop :=
  c = guardPage (m.marked p) (m.before p) (p * 0x1000) ∧ c ≠ 0 ∧ ∃ q, q / 64 = p / 64 ∧ m.marked q = true

/-- the walk has looked at all pages below `b` -/
def Scanned (m : GuardMap) (b : Nat) (x : Guarding) : Prop :=
  x.onGuarding = m.before b ∧ ∀ c, c ∈ x.calls ↔ ∃ p < b, m.Sets p c

section
variable {m : GuardMap} {x : Guarding} {b p : Nat}

lemma before_succ (p : Nat) : m.before (p + 1) = m.marked p := by
  show (decide (p + 1 ≠ 0) && m.marked p) = m.marked p
  rw [decide_eq_true (Nat.succ_ne_zero p), Bool.true_and]

lemma mem_atPage {marked : Bool} {a c : Nat} :
    c ∈ (x.atPage marked a).calls ↔ c ∈ x.calls ∨ c = guardPage marked x.onGuarding a ∧ c ≠ 0 := by
  unfold Guarding.atPage
  by_cases hg : guardPage marked x.onGuarding a = 0
  · rw [if_neg (not_not.mpr hg), hg]
    exact (or_iff_left fun hc => hc.2 hc.1).symm
  · rw [if_pos hg, mem_append, mem_singleton]
    exact or_congr_right ⟨fun hc => ⟨hc, hc ▸ hg⟩, fun hc => hc.1⟩

lemma Scanned.page (h : Scanned m b x) (calls : List Nat)
    (hcalls : ∀ c, c ∈ calls ↔ c ∈ x.calls ∨ m.Sets b c) : Scanned m (b + 1) ⟨m.marked b, calls⟩ := by
  refine ⟨(before_succ b).symm, fun c => ?_⟩
  rw [hcalls, h.2]
  constructor
  · rintro (⟨p, hp, hs⟩ | hs)
    · exact ⟨p, lt_succ_of_lt hp, hs⟩
    · exact ⟨b, lt_succ_self b, hs⟩
  · rintro ⟨p, hp, hs⟩
    rcases Nat.lt_succ_iff_lt_or_eq.mp hp with hp | rfl
    · exact .inl ⟨p, hp, hs⟩
    · exact .inr hs

variable {e : BitVec 64} {n : Nat}

lemma Scanned.quiet (h : Scanned m b x) (hon : x.onGuarding = false)
    (hnone : ∀ p, b ≤ p → p < b + n → m.marked p = false) : Scanned m (b + n) x := by
  induction n with
  | zero => exact h
  | succ n ih =>
    have hs := ih fun p hp hlt => hnone p hp (by omega)
    have hb := hnone (b + n) (le_add_right b n) (by omega)
    have := hs.page x.calls fun c => (or_iff_left ?_).symm
    · rwa [hb, ← hon] at this
    · rintro ⟨hc, hne, -⟩
      rw [hb, ← hs.1, hon] at hc
      exact hne hc

/-- a run that ends before an empty word gets no guard page -/
lemma Scanned.skip (h : Scanned m b x) (hb : 64 ∣ b) (hn : 64 ≤ n)
    (hnone : ∀ p, b ≤ p → p < b + n → m.marked p = false) :
    Scanned m (b + n) { x with onGuarding := false } := by
  have hs := h.page x.calls fun c => (or_iff_left ?_).symm
  · rw [hnone b le_rfl (by omega)] at hs
    have := hs.quiet (n := n - 1) rfl fun p hp hlt => hnone p (by omega) (by omega)
    rwa [show b + 1 + (n - 1) = b + n by omega] at this
  · rintro ⟨-, -, q, hq, hm⟩
    rw [hnone q (by omega) (by omega)] at hm
    cases hm

lemma guardBits_scanned {a : Nat} (hbits : ∀ i < n, e.getLsbD i = m.marked (p + i))
    (hword : ∀ i < n, ∃ q, q / 64 = (p + i) / 64 ∧ m.marked q = true)
    (hend : p + n ≤ 2^52) (ha : a = p * 0x1000 % 2^64) (h : Scanned m p x) :
    Scanned m (p + n) (guardBits n e a x) := by
  induction n generalizing e p a x with
  | zero => exact h
  | succ n ih =>
    have ha' : a = p * 0x1000 := ha.trans (mod_eq_of_lt (by omega))
    have hp : e.getLsbD 0 = m.marked p := hbits 0 (succ_pos n)
    have hone := h.page (x.atPage (m.marked p) a).calls fun c => by
      rw [mem_atPage, h.1, ha']
      exact or_congr_right ⟨fun hc => ⟨hc.1, hc.2, hword 0 (succ_pos n)⟩, fun hc => ⟨hc.1, hc.2.1⟩⟩
    rw [guardBits, hp, show p + (n + 1) = p + 1 + n by omega]
    by_cases he : e = 0#64
    · rw [if_pos he]
      have hzero : ∀ i < n + 1, m.marked (p + i) = false := fun i hi => by
        rw [← hbits i hi, he, BitVec.getLsbD_zero]
      refine hone.quiet (hzero 0 (succ_pos n)) fun q hq hlt => ?_
      rw [show q = p + (q - p) by omega]
      exact hzero _ (by omega)
    · rw [if_neg he]
      refine ih (fun i hi => ?_) (fun i hi => ?_) (by omega) (by omega) hone
      · rw [BitVec.getLsbD_ushiftRight, hbits _ (by omega), add_assoc]
      · rw [add_assoc]
        exact hword _ (by omega)

lemma Holds.bits {levels : List Level} {w : Nat} (h : Holds m levels e b w) (hp : b ≤ p)
    (hlt : p < b + 2^w) :
    m.marked p = ((findGuardedMemoryMap m.tables (p * 0x1000) levels e).getD 0#64).getLsbD (p % 64) := by
  obtain ⟨hwidth, hword⟩ := h p hp hlt
  unfold GuardMap.marked
  rw [decide_eq_true hwidth, Bool.true_and, hword]

lemma Holds.empty {levels : List Level} {w : Nat} (h : Holds m levels 0#64 b w) (hp : b ≤ p)
    (hlt : p < b + 2^w) : m.marked p = false := by
  rw [h.bits hp hlt]
  cases levels <;> simp [findGuardedMemoryMap]

lemma Holds.word {i : Nat} (h : Holds m [] e b 6) (hb : 2^6 ∣ b) (hi : i < 64) :
    e.getLsbD i = m.marked (b + i) := by
  rw [h.bits (by omega) (by omega), show (b + i) % 64 = i by omega]
  rfl

lemma exists_bit (he : e ≠ 0#64) : ∃ k < 64, e.getLsbD k = true := by
  by_contra hnone
  push Not at hnone
  refine he (BitVec.eq_of_getLsbD_eq fun i hi => ?_)
  rw [BitVec.getLsbD_zero]
  exact eq_false_iff.mpr (hnone i hi)

lemma Scanned.word (h : Scanned m b x) (he : e ≠ 0#64) (hholds : Holds m [] e b 6) (hb : 2^6 ∣ b)
    (hend : b + 2^6 ≤ 2^52) : Scanned m (b + 2^6) (guardBits 64 e (b * 0x1000) x) := by
  obtain ⟨k, hk, hset⟩ := exists_bit he
  refine guardBits_scanned (fun i hi => hholds.word hb hi) (fun i hi => ⟨b + k, by omega, ?_⟩) hend
    (mod_eq_of_lt (by omega)).symm h
  rw [← hholds.word hb hk]
  exact hset

lemma guardWalker_scans : guardWalker.Scans m (Scanned m) := by
  intro levels e b w x hl hholds hlast hb hend h
  have h64 : 64 ∣ 2^w := pow_dvd_pow 2 hl.six_le
  by_cases he : e = 0#64
  · subst he
    exact h.skip (h64.trans hb) (le_of_dvd (by positivity) h64) fun p => hholds.empty
  · obtain rfl : levels = [] := hlast.resolve_right fun h0 => he h0.1
    cases hl
    show Scanned m _ (if e = 0#64 then _ else _)
    rw [if_neg he]
    exact h.word he hholds hb hend

lemma marked_lt (h : m.marked p = true) : p < 2^m.width := by
  unfold GuardMap.marked at h
  exact of_decide_eq_true (and_eq_true_iff.mp h).1

lemma marked_root (hroot : m.mGuardedMemoryMap = 0#64) (p : Nat) : m.marked p = false := by
  by_contra hp
  have hlt := marked_lt (eq_true_of_not_eq_false hp)
  have hholds : Holds m m.levels 0#64 0 m.width := fun p _ hp => ⟨by omega, by rw [← hroot]; rfl⟩
  exact hp (hholds.empty (zero_le p) (by omega))

lemma setAllGuardPages_sets (m : GuardMap) : ∃ turns calls, (∀ k ≥ turns, setAllGuardPages m k = some calls) ∧
    ∀ c, c ∈ calls ↔ ∃ p < 2^m.width, m.Sets p c := by
  by_cases hroot : m.mGuardedMemoryMap = 0#64
  · refine ⟨0, [], fun k _ => if_pos hroot, fun c => ⟨nofun, ?_⟩⟩
    rintro ⟨p, -, -, -, q, -, hq⟩
    rw [marked_root hroot] at hq
    cases hq
  have hstart : Scanned m 0 ⟨false, []⟩ := ⟨rfl, fun c => ⟨nofun, nofun⟩⟩
  obtain ⟨turns, _, hrun, ⟨x, rfl, hx⟩ | ⟨-, hnulls, -⟩⟩ := walk_scans guardWalker_scans hroot hstart
  · refine ⟨turns, x.calls, fun k hk => ?_, hx.2⟩
    unfold setAllGuardPages
    rw [if_neg hroot, hrun k hk]
    rfl
  · cases hnulls

lemma sub64_page_zero : sub64 (0 * 0x1000) 0x1000 = (2^52 - 1) * 0x1000 := by
  unfold sub64
  decide

lemma sub64_page (hp : p < 2^52) : sub64 ((p + 1) * 0x1000) 0x1000 = p * 0x1000 := by
  unfold sub64
  omega

/-- the pages that are set: before page 0 the address wraps, and page 0 itself is never set -/
lemma sets_iff {c : Nat} : (∃ p < 2^m.width, m.Sets p c) ↔ (m.marked 0 = true ∧ c = (2^52 - 1) * 0x1000) ∨
    ∃ g, g ≠ 0 ∧ g < 2^52 ∧ c = g * 0x1000 ∧ m.marked g = false ∧
      (m.marked (g + 1) = true ∨ m.before g = true ∧ ∃ q, q / 64 = g / 64 ∧ m.marked q = true) := by
  have hwidth := m.width_le
  constructor
  · rintro ⟨p, hp, hc, hne, hword⟩
    rcases p with _ | p
    · rcases hm : m.marked 0 with _ | _ <;> rw [hm, show m.before 0 = false from rfl, guardPage] at hc
      · exact absurd hc hne
      · exact .inl ⟨rfl, hc.trans sub64_page_zero⟩
    rw [before_succ] at hc
    rcases hm : m.marked (p + 1) with _ | _ <;> rcases hm' : m.marked p with _ | _ <;>
      rw [hm, hm', guardPage] at hc
    · exact absurd hc hne
    · exact .inr ⟨p + 1, succ_ne_zero p, by omega, hc, hm, .inr ⟨(before_succ p).trans hm', hword⟩⟩
    · rw [sub64_page (by omega)] at hc
      exact .inr ⟨p, fun h0 => hne (by rw [hc, h0, zero_mul]), by omega, hc, hm', .inl hm⟩
    · exact absurd hc hne
  · rintro (⟨h0, rfl⟩ | ⟨g, hg, -, rfl, hm, hafter | ⟨hbefore, q, hq, hmq⟩⟩)
    · refine ⟨0, marked_lt h0, ?_, by decide, 0, rfl, h0⟩
      rw [h0, show m.before 0 = false from rfl, guardPage, sub64_page_zero]
    · refine ⟨g + 1, marked_lt hafter, ?_, by omega, g + 1, rfl, hafter⟩
      have := marked_lt hafter
      rw [hafter, before_succ, hm, guardPage, sub64_page (by omega)]
    · have hlt := marked_lt hmq
      have h64 : 2^6 ∣ 2^m.width := pow_dvd_pow 2 m.levels_width.1.six_le
      refine ⟨g, by omega, ?_, by omega, q, hq, hmq⟩
      rw [hm, hbefore, guardPage]

end

/-- a page that is not marked beside one that is -/
def GuardMap.NeedsGuard (m : GuardMap) (g : Nat) : Prop :=
  g < 2^52 ∧ m.marked g = false ∧ (m.before g = true ∨ m.marked (g + 1) = true)

/-- **the guard pages that are set are those beside the marked runs**, if page 0 is no guard page, the page that
is set for a run from page 0 on is one, and no run ends before a word without a marked page -/
theorem setAllGuardPages_iff (m : GuardMap) : ∃ turns calls, (∀ k ≥ turns, setAllGuardPages m k = some calls) ∧
    ((∀ c, c ∈ calls ↔ ∃ g, m.NeedsGuard g ∧ c = g * 0x1000) ↔
      (m.marked 1 = true → m.marked 0 = true) ∧ (m.marked 0 = true → m.NeedsGuard (2^52 - 1)) ∧
      ∀ q, m.marked (64 * q + 63) = true → 64 * q + 64 < 2^52 → ∃ r, r / 64 = q + 1 ∧ m.marked r = true) := by
  obtain ⟨turns, calls, hrun, hcalls⟩ := setAllGuardPages_sets m
  refine ⟨turns, calls, hrun, ?_⟩
  simp only [hcalls, sets_iff]
  constructor
  · intro h
    refine ⟨fun h1 => ?_, fun h0 => ?_, fun q hq hlt => ?_⟩
    · by_contra h0
      obtain ⟨-, hc⟩ | ⟨g, hg, -, hc, -⟩ := (h 0).mpr ⟨0, ⟨by decide, eq_false_iff.mpr h0, .inr h1⟩, rfl⟩
      all_goals omega
    · obtain ⟨g, hg, hc⟩ := (h _).mp (.inl ⟨h0, rfl⟩)
      rwa [show 2^52 - 1 = g by omega]
    · rcases hm : m.marked (64 * q + 64) with _ | _
      · have hneeds : m.NeedsGuard (64 * q + 64) := ⟨hlt, hm, .inl (by rw [← hq]; exact before_succ _)⟩
        obtain ⟨-, hc⟩ | ⟨g, -, -, hc, -, hafter | ⟨-, r, hr, hmr⟩⟩ := (h _).mpr ⟨_, hneeds, rfl⟩
        · omega
        · exact ⟨g + 1, by omega, hafter⟩
        · exact ⟨r, by omega, hmr⟩
      · exact ⟨_, by omega, hm⟩
  · rintro ⟨h1, h0, hword⟩ c
    constructor
    · rintro (⟨hm, rfl⟩ | ⟨g, -, hlt, rfl, hm, hbeside⟩)
      · exact ⟨_, h0 hm, rfl⟩
      · exact ⟨g, ⟨hlt, hm, hbeside.elim .inr fun hb => .inl hb.1⟩, rfl⟩
    · rintro ⟨g, ⟨hlt, hm, hbefore | hafter⟩, rfl⟩
      · rcases g with _ | g
        · cases hbefore
        refine .inr ⟨g + 1, succ_ne_zero g, hlt, rfl, hm, .inr ⟨(before_succ g).trans hbefore, ?_⟩⟩
        -- the word of `g + 1` has a marked page: `g`, or one behind it if `g` is the last page of its word
        by_cases hlast : g % 64 = 63
        · obtain ⟨r, hr, hmr⟩ := hword (g / 64) (by rwa [show 64 * (g / 64) + 63 = g by omega]) (by omega)
          exact ⟨r, by omega, hmr⟩
        · exact ⟨g, by omega, hbefore⟩
      · rcases g with _ | g
        · rw [h1 hafter] at hm
          cases hm
        · exact .inr ⟨g + 1, succ_ne_zero g, hlt, rfl, hm, .inl hafter⟩

/-- page 63 is the only one that is marked -/
def lastOfWord : GuardMap :=
  ⟨fun _ i => if i = 0 then 0x8000000000000000#64 else 0#64, 0x1000#64, 1, by decide, by decide⟩

/-- page 64 is no guard page, since the next word is empty -/
theorem lastOfWord_noTail : lastOfWord.marked 63 = true ∧ lastOfWord.marked 64 = false ∧
    setAllGuardPages lastOfWord 1025 = some [62 * 0x1000] := by
  decide +kernel

end Audk.Mem.HeapGuard
