import Audk.Mem.HeapGuard

/-!
# The freed pages that are guarded

`GuardAllFreedPages` walks over the bitmap as `SetAllGuardPages` does, but it descends into `NULL` entries too.

* `getLast_cases`: the address that `GetLastGuardedFreePageAddress` finds;
* `guardAllFreedPages_iff`: when the runs, and the last page, are reported right.
-/

namespace Audk.Mem.HeapGuard

open List Nat Bool

/-- `GuardPage`, `GuardPageNumber` and the calls of `GuardFreedPages` -/
structure Freeing where
  guardPage : Nat
  guardPageNumber : Nat
  calls : List (Nat × Nat)

def Freeing.atPage (x : Freeing) : (marked : Bool) → (address : Nat) → Freeing
  | true, address =>
    { x with
      guardPage := if x.guardPage = 2^64 - 1 then address else x.guardPage
      guardPageNumber := x.guardPageNumber + 1 }
  | false, _ =>
    if 0 < x.guardPageNumber then ⟨2^64 - 1, 0, x.calls ++ [(x.guardPage, x.guardPageNumber)]⟩ else x

def freedBits (tableEntry : BitVec 64) : Nat → Nat → Nat → Freeing → Freeing
  | 0, _, _, x => x
  | n + 1, i, address, x =>
    let x := x.atPage (tableEntry.getLsbD i) address
    if tableEntry = 0#64 then x else freedBits tableEntry n (i + 1) ((address + 0x1000) % 2^64) x

def freedWalker : Walker Freeing where
  nulls := true
  visit := fun tableEntry => freedBits tableEntry 64 0

/-- the entry below index `n` that is not `NULL`, at the largest index -/
def lastEntry (tables : BitVec 64 → Nat → BitVec 64) (map : BitVec 64) : Nat → Option Nat
  | 0 => none
  | n + 1 => if tables map n ≠ 0#64 then some n else lastEntry tables map n

/-- `BaseAddress` and `Map` behind the levels; where all the entries are `NULL`, `Map` is still the table -/
def lastWord (tables : BitVec 64 → Nat → BitVec 64) : List Level → Nat → BitVec 64 → Nat × BitVec 64
  | [], baseAddress, map => (baseAddress, map)
  | (shift, mask) :: levels, baseAddress, map =>
    match lastEntry tables map (mask + 1) with
    | some i => lastWord tables levels ((baseAddress + (1 <<< shift) * i) % 2^64) (tables map i)
    | none => lastWord tables levels baseAddress map

/-- the page behind the most significant bit of `Map`, which has at most `n` bits -/
def lastBit : Nat → BitVec 64 → Nat → Nat
  | 0, _, baseAddress => baseAddress
  | n + 1, map, baseAddress =>
    if map = 0#64 then baseAddress else lastBit n (map >>> 1) ((baseAddress + 0x1000) % 2^64)

def getLastGuardedFreePageAddress (m : GuardMap) : Nat :=
  let last := lastWord m.tables m.levels 0 m.mGuardedMemoryMap
  lastBit 64 last.2 last.1

/-- the calls of `GuardFreedPages` and the new `mLastPromotedPage`, if the loop ends in so many turns; nothing if a
table at `NULL` is read -/
def guardAllFreedPages (m : GuardMap) (mLastPromotedPage turns : Nat) : Option (Option (List (Nat × Nat) × Nat)) :=
  if m.mGuardedMemoryMap = 0#64 then some (some ([], mLastPromotedPage))
  else
    let address := getLastGuardedFreePageAddress m
    (walk m freedWalker ⟨2^64 - 1, 0, []⟩ turns).map (Option.map fun x =>
      (x.calls, if address ≠ 0 then address else mLastPromotedPage))

/-! ## the runs -/

structure GuardMap.MaximalRun (m : GuardMap) (p n : Nat) : Prop where
  nonempty : 0 < n
  marked : ∀ q, p ≤ q → q < p + n → m.marked q = true
  before : m.before p = false
  after : m.marked (p + n) = false

/-- the pages below `b` have been looked at; those from `s` on are the open run -/
structure Freed (m : GuardMap) (b s : Nat) (x : Freeing) : Prop where
  le : s ≤ b
  number : x.guardPageNumber = b - s
  page : x.guardPage = if s = b then 2^64 - 1 else s * 0x1000
  marked : ∀ q, s ≤ q → q < b → m.marked q = true
  before : m.before s = false
  nodup : x.calls.Nodup
  calls : ∀ c, c ∈ x.calls ↔ ∃ p n, m.MaximalRun p n ∧ p + n < b ∧ c = (p * 0x1000, n)

section
variable {m : GuardMap} {x : Freeing} {b p s n : Nat} {e t : BitVec 64}

lemma before_eq_true (hp : p ≠ 0) (h : m.marked (p - 1) = true) : m.before p = true := by
  obtain ⟨q, rfl⟩ := exists_eq_succ_of_ne_zero hp
  exact (before_succ q).trans h

lemma Freed.run_eq (h : Freed m b s x) (hrun : m.MaximalRun p n) (hend : p + n = b) : p = s := by
  rcases lt_trichotomy p s with hlt | heq | hlt
  · have hs := h.le
    have := before_eq_true (by omega) (hrun.marked (s - 1) (by omega) (by omega))
    rw [h.before] at this
    cases this
  · exact heq
  · have := before_eq_true (by omega) (h.marked (p - 1) (by omega) (by omega))
    rw [hrun.before] at this
    cases this

lemma Freed.calls_succ (h : Freed m b s x) {calls : List (Nat × Nat)}
    (hcalls : ∀ c, c ∈ calls ↔ c ∈ x.calls ∨ m.MaximalRun s (b - s) ∧ c = (s * 0x1000, b - s)) (c : Nat × Nat) :
    c ∈ calls ↔ ∃ p n, m.MaximalRun p n ∧ p + n < b + 1 ∧ c = (p * 0x1000, n) := by
  rw [hcalls, h.calls]
  constructor
  · rintro (⟨p, n, hrun, hlt, hc⟩ | ⟨hrun, hc⟩)
    · exact ⟨p, n, hrun, by omega, hc⟩
    · have := h.le
      exact ⟨s, b - s, hrun, by omega, hc⟩
  · rintro ⟨p, n, hrun, hlt, hc⟩
    rcases Nat.lt_succ_iff_lt_or_eq.mp hlt with hlt | hend
    · exact .inl ⟨p, n, hrun, hlt, hc⟩
    · obtain rfl := h.run_eq hrun hend
      rw [show n = b - p by omega] at hrun hc
      exact .inr ⟨hrun, hc⟩

lemma Freed.idle (h : Freed m b b x) (hb : m.marked b = false) : Freed m (b + 1) (b + 1) x where
  le := le_rfl
  number := by rw [h.number, Nat.sub_self, Nat.sub_self]
  page := by rw [h.page, if_pos rfl, if_pos rfl]
  marked := fun q h1 h2 => absurd h1 (by omega)
  before := (before_succ b).trans hb
  nodup := h.nodup
  calls := h.calls_succ fun c => (or_iff_left fun hrun => absurd hrun.1.nonempty (by omega)).symm

/-- **one page** -/
theorem Freed.atPage (h : Freed m b s x) : ∃ s', Freed m (b + 1) s' (x.atPage (m.marked b) (b * 0x1000)) ∧
    (m.marked b = false → s' = b + 1) := by
  have hle := h.le
  rcases hb : m.marked b with _ | _
  · refine ⟨b + 1, ?_, fun _ => rfl⟩
    by_cases hs : s = b
    · subst hs
      have hnumber := h.number
      have hx : x.atPage false (s * 0x1000) = x := if_neg (by omega)
      rw [hx]
      exact h.idle hb
    · have hnumber := h.number
      have hpage := h.page
      rw [if_neg hs] at hpage
      have hx : x.atPage false (b * 0x1000) = ⟨2^64 - 1, 0, x.calls ++ [(s * 0x1000, b - s)]⟩ := by
        rw [← hnumber, ← hpage]
        exact if_pos (by omega)
      have hrun : m.MaximalRun s (b - s) :=
        ⟨by omega, fun q h1 h2 => h.marked q h1 (by omega), h.before, by rwa [Nat.add_sub_cancel' hle]⟩
      rw [hx]
      refine ⟨le_rfl, by rw [Nat.sub_self], by rw [if_pos rfl], fun q h1 h2 => absurd h1 (by omega),
        (before_succ b).trans hb, ?_, h.calls_succ fun c => ?_⟩
      · refine nodup_append.mpr ⟨h.nodup, nodup_singleton _, fun c hc d hd heq => ?_⟩
        obtain ⟨p, n, -, hlt, hc⟩ := (h.calls c).mp hc
        rw [mem_singleton.mp hd, hc, Prod.mk.injEq] at heq
        omega
      · rw [mem_append, mem_singleton]
        exact or_congr_right (and_iff_right hrun).symm
  · refine ⟨s, ⟨by omega, ?_, ?_, fun q h1 h2 => ?_, h.before, h.nodup, h.calls_succ fun c => ?_⟩, nofun⟩
    · show x.guardPageNumber + 1 = b + 1 - s
      rw [h.number]
      omega
    · show (if x.guardPage = 2^64 - 1 then b * 0x1000 else x.guardPage) = _
      rw [h.page, if_neg (show s ≠ b + 1 by omega)]
      by_cases hs : s = b
      · rw [if_pos hs, if_pos rfl, hs]
      · rw [if_neg hs, if_neg (by omega)]
    · rcases Nat.lt_succ_iff_lt_or_eq.mp h2 with h2 | rfl
      · exact h.marked q h1 h2
      · exact hb
    · refine (or_iff_left fun hrun => ?_).symm
      have := hrun.1.after
      rw [Nat.add_sub_cancel' hle, hb] at this
      cases this

lemma freedBits_freed {i a : Nat} (he : e ≠ 0#64) (hbits : ∀ j < n, e.getLsbD (i + j) = m.marked (p + j))
    (hend : p + n ≤ 2^52) (ha : a = p * 0x1000 % 2^64) (h : Freed m p s x) :
    ∃ s', Freed m (p + n) s' (freedBits e n i a x) := by
  induction n generalizing i p a s x with
  | zero => exact ⟨s, h⟩
  | succ n ih =>
    obtain ⟨s', h', -⟩ := h.atPage
    have hp : e.getLsbD i = m.marked p := hbits 0 (succ_pos n)
    have ha' : a = p * 0x1000 := ha.trans (mod_eq_of_lt (by omega))
    rw [freedBits, hp, if_neg he, ha', show p + (n + 1) = p + 1 + n by omega]
    refine ih (fun j hj => ?_) (by omega) (by omega) h'
    rw [add_assoc, hbits _ (by omega), add_assoc]

def FreedTo (m : GuardMap) (b : Nat) (x : Freeing) : Prop := (∀ q < b, m.word q ≠ none) ∧ ∃ s, Freed m b s x

lemma freedWalker_scans : freedWalker.Scans m (FreedTo m) := by
  intro levels e b w x hl hholds hlast hb hend ⟨hword, s, h⟩
  obtain rfl : levels = [] := hlast.resolve_right fun h0 => nomatch h0.2
  cases hl
  refine ⟨fun q hq => ?_, ?_⟩
  · by_cases hqb : q < b
    · exact hword q hqb
    · rw [(hholds q (by omega) hq).2]
      exact Option.some_ne_none e
  · by_cases he : e = 0#64
    · subst he
      have hnone : ∀ j < 64, m.marked (b + j) = false := fun j hj => hholds.empty (by omega) (by omega)
      have hidle : ∀ n < 64, Freed m (b + 1 + n) (b + 1 + n) (x.atPage false (b * 0x1000)) := by
        intro n
        induction n with
        | zero =>
          obtain ⟨s', h', hs'⟩ := h.atPage
          rw [hs' (hnone 0 (by decide)), show m.marked b = false from hnone 0 (by decide)] at h'
          exact fun _ => h'
        | succ n ih =>
          intro hn
          refine (ih (by omega)).idle ?_
          rw [add_assoc]
          exact hnone _ (by omega)
      exact ⟨_, hidle 63 (by decide)⟩
    · exact freedBits_freed he (fun j hj => by rw [zero_add, hholds.word hb hj]) hend
        (mod_eq_of_lt (by omega)).symm h

/-! ## the last page -/

lemma lastEntry_cases (tables : BitVec 64 → Nat → BitVec 64) (t : BitVec 64) (n : Nat) :
    (∃ i < n, lastEntry tables t n = some i ∧ tables t i ≠ 0#64 ∧ ∀ j, i < j → j < n → tables t j = 0#64) ∨
      lastEntry tables t n = none ∧ ∀ j < n, tables t j = 0#64 := by
  induction n with
  | zero => exact .inr ⟨rfl, nofun⟩
  | succ n ih =>
    by_cases hn : tables t n = 0#64
    · have heq : lastEntry tables t (n + 1) = lastEntry tables t n := if_neg (not_not.mpr hn)
      have hlast : ∀ j < n + 1, j < n ∨ tables t j = 0#64 := fun j hj =>
        (Nat.lt_succ_iff_lt_or_eq.mp hj).imp_right fun (hj : j = n) => hj ▸ hn
      rw [heq]
      rcases ih with ⟨i, hi, hsome, hne, hrest⟩ | ⟨hnone, hrest⟩
      · exact .inl ⟨i, by omega, hsome, hne, fun j hij hj => (hlast j hj).elim (hrest j hij) id⟩
      · exact .inr ⟨hnone, fun j hj => (hlast j hj).elim (hrest j) id⟩
    · exact .inl ⟨n, lt_succ_self n, if_pos hn, hn, fun j h1 h2 => absurd h1 (by omega)⟩

lemma lastBit_zero (n a : Nat) : lastBit n 0#64 a = a := by
  cases n with
  | zero => rfl
  | succ n => exact if_pos rfl

lemma lastBit_spec {a : Nat} (he : e ≠ 0#64) (hbits : ∀ j, n ≤ j → e.getLsbD j = false) :
    ∃ k < n, lastBit n e a = (a + (k + 1) * 0x1000) % 2^64 ∧ e.getLsbD k = true ∧
      ∀ j, k < j → e.getLsbD j = false := by
  obtain ⟨i, -, hi⟩ := exists_bit he
  induction n generalizing e a i with
  | zero =>
    rw [hbits i (Nat.zero_le i)] at hi
    cases hi
  | succ n ih =>
    have hshift (j : Nat) : (e >>> 1).getLsbD j = e.getLsbD (1 + j) := BitVec.getLsbD_ushiftRight e 1 j
    rw [lastBit, if_neg he]
    by_cases hs : e >>> 1 = 0#64
    · have hrest : ∀ j, 0 < j → e.getLsbD j = false := fun j hj => by
        rw [← Nat.add_sub_cancel' hj, ← hshift, hs, BitVec.getLsbD_zero]
      refine ⟨0, Nat.succ_pos n, by rw [hs, lastBit_zero, Nat.zero_add, Nat.one_mul], ?_, hrest⟩
      rcases Nat.eq_zero_or_pos i with rfl | hpos
      · exact hi
      · rw [hrest i hpos] at hi
        cases hi
    · obtain ⟨j, -, hj⟩ := exists_bit hs
      obtain ⟨k, hk, hlast, hset, hrest⟩ := ih (a := (a + 0x1000) % 2^64) hs
        (fun j hj => by rw [hshift]; exact hbits _ (by omega)) j hj
      refine ⟨k + 1, by omega, by rw [hlast]; omega, ?_, fun j hj => ?_⟩
      · rwa [hshift, Nat.add_comm] at hset
      · rw [← hrest (j - 1) (by omega), hshift, Nat.add_sub_cancel' (by omega)]

lemma levels_cons {k : Nat} (hk : k ≤ 4) : ∃ l levels, mLevels.drop (4 - k) = l :: levels := by
  interval_cases k <;> exact ⟨_, _, rfl⟩

lemma levels_succ {k : Nat} (hk : k < 4) :
    mLevels.drop (4 - (k + 1)) = (12 + (9 * k + 16), 2^9 - 1) :: mLevels.drop (4 - k) := by
  interval_cases k <;> rfl

lemma baseAddress_eq {w i : Nat} (h : b + i * 2^w < 2^52) :
    (b * 0x1000 + (1 <<< (12 + w)) * i) % 2^64 = (b + i * 2^w) * 0x1000 := by
  have hshift : (1 <<< (12 + w)) * i = i * 2^w * 0x1000 := by
    rw [shiftLeft_eq, pow_add]
    ring
  rw [hshift, ← add_mul, mod_eq_of_lt (by omega)]

/-- where no table is missing, the last table of the last level is found -/
lemma lastWord_top (hall : ¬ m.Missing) {k : Nat} (hk : k ≤ 4)
    (hholds : Holds m (mLevels.drop (4 - k)) t b (9 * k + 16)) (ht : t ≠ 0#64) (hb : 2^(9 * k + 16) ∣ b)
    (hend : b + 2^(9 * k + 16) ≤ 2^52) :
    ∃ t' b', t' ≠ 0#64 ∧ b' + 2^16 = b + 2^(9 * k + 16) ∧ 2^16 ∣ b' ∧ Holds m [(18, 0x3FF)] t' b' 16 ∧
      lastWord m.tables (mLevels.drop (4 - k)) (b * 0x1000) t = lastWord m.tables [(18, 0x3FF)] (b' * 0x1000) t' := by
  induction k generalizing b t with
  | zero => exact ⟨t, b, ht, rfl, hb, hholds, rfl⟩
  | succ k ih =>
    have hw : 9 * (k + 1) + 16 = 9 + (9 * k + 16) := by omega
    rw [hw] at hholds hb hend ⊢
    rw [levels_succ hk] at hholds ⊢
    have hsub := hholds.entry ht hb (i := 2^9 - 1) (by decide)
    have hle := entry_le (w := 9 * k + 16) (n := 9) (i := 2^9 - 1) (by decide)
    have hne : m.tables t (2^9 - 1) ≠ 0#64 := by
      intro h0
      obtain ⟨l, levels, hl⟩ := levels_cons (k := k) (by omega)
      rw [h0, hl] at hsub
      exact hall hsub.missing
    have hdvd : 2^(9 * k + 16) ∣ b + (2^9 - 1) * 2^(9 * k + 16) :=
      dvd_add ((pow_dvd_pow 2 (le_add_left _ 9)).trans hb) (dvd_mul_left _ _)
    obtain ⟨t', b', ht', hb', hdvd', hholds', hlast⟩ := ih (by omega) hsub hne hdvd (by omega)
    refine ⟨t', b', ht', ?_, hdvd', hholds', ?_⟩
    · rw [hb', pow_add 2 9]
      omega
    · have hentry : lastEntry m.tables t (2^9 - 1 + 1) = some (2^9 - 1) := if_pos hne
      rw [lastWord, hentry]
      dsimp only
      rw [baseAddress_eq (by omega), hlast]

/-- the address found is the one behind the last marked page, if that is in the last table -/
lemma getLast_cases (hroot : m.mGuardedMemoryMap ≠ 0#64) (hall : ¬ m.Missing) :
    (∃ p, 2^m.width ≤ p + 2^16 ∧ m.marked p = true ∧ (∀ q, p < q → m.marked q = false) ∧
      getLastGuardedFreePageAddress m = (p + 1) * 0x1000 % 2^64) ∨
    (∀ q, 2^m.width ≤ q + 2^16 → m.marked q = false) ∧
      2^m.width * 0x1000 < getLastGuardedFreePageAddress m + 2^16 * 0x1000 := by
  obtain ⟨k, hk⟩ := exists_eq_succ_of_ne_zero m.level_pos.ne'
  have hle := m.level_le
  have hwidth : m.width = 9 * k + 16 := by
    rw [GuardMap.width, hk]
    rfl
  have hlevels : m.levels = mLevels.drop (4 - k) := by
    rw [GuardMap.levels, hk, succ_sub_succ]
  have hmax := m.width_le
  have hholds : Holds m m.levels m.mGuardedMemoryMap 0 m.width := fun p _ hp => ⟨by omega, rfl⟩
  rw [hlevels, hwidth] at hholds
  obtain ⟨t, b, ht, hb, hdvd, hlast, heq⟩ := lastWord_top hall (by omega) hholds hroot (dvd_zero _)
    (by rw [← hwidth]; omega)
  rw [zero_add, ← hwidth] at hb
  rw [zero_mul, ← hlevels] at heq
  unfold getLastGuardedFreePageAddress
  rw [heq]
  have hentry (j : Nat) (hj : j < 2^10) : Holds m [] (m.tables t j) (b + j * 2^6) 6 := hlast.entry (n := 10) ht hdvd hj
  -- the words that are `NULL`
  have hempty (j : Nat) (hj : j < 2^10) (h0 : m.tables t j = 0#64) (q : Nat) (hq : q / 2^6 = b / 2^6 + j) :
      m.marked q = false := by
    have := hentry j hj
    rw [h0] at this
    exact this.empty (by omega) (by omega)
  rcases lastEntry_cases m.tables t (0x3FF + 1) with ⟨i, hi, hsome, hne, hrest⟩ | ⟨hnone, hrest⟩
  · have hword : lastWord m.tables [(18, 0x3FF)] (b * 0x1000) t = ((b + i * 2^6) * 0x1000, m.tables t i) := by
      rw [lastWord, hsome]
      exact congrArg (·, m.tables t i) (baseAddress_eq (w := 6) (by omega))
    obtain ⟨k, hk64, hbit, hset, hzero⟩ := lastBit_spec (n := 64) (a := (b + i * 2^6) * 0x1000) hne
      (fun j hj => BitVec.getLsbD_of_ge _ _ hj)
    have hbits (j : Nat) (hj : j < 64) := (hentry i hi).word (by omega) hj
    refine .inl ⟨b + i * 2^6 + k, by omega, (hbits k hk64).symm.trans hset, fun q hq => ?_, ?_⟩
    · by_contra hmarked
      have hlt := marked_lt (eq_true_of_not_eq_false hmarked)
      rcases lt_or_ge i (q / 2^6 - b / 2^6) with hij | hij
      · exact hmarked (hempty _ (by omega) (hrest _ hij (by omega)) q (by omega))
      · rw [show q = b + i * 2^6 + (q - (b + i * 2^6)) by omega, ← hbits _ (by omega)] at hmarked
        exact hmarked (hzero _ (by omega))
    · rw [hword, hbit, ← add_mul, ← add_assoc]
  · have hword : lastWord m.tables [(18, 0x3FF)] (b * 0x1000) t = (b * 0x1000, t) := by
      rw [lastWord, hnone]
      rfl
    obtain ⟨k, hk64, hbit, -⟩ := lastBit_spec (n := 64) (a := b * 0x1000) ht (fun j hj => BitVec.getLsbD_of_ge _ _ hj)
    refine .inr ⟨fun q hq => ?_, ?_⟩
    · by_contra hmarked
      have hlt := marked_lt (eq_true_of_not_eq_false hmarked)
      exact hmarked (hempty (q / 2^6 - b / 2^6) (by omega) (hrest _ (by omega)) q (by omega))
    · rw [hword, hbit, mod_eq_of_lt (by omega)]
      omega

lemma GuardMap.MaximalRun.le (h : m.MaximalRun p n) : p + n ≤ 2^m.width := by
  have hpos := h.nonempty
  have := marked_lt (h.marked (p + n - 1) (by omega) (by omega))
  omega

/-- behind the last page, the open run has not been reported -/
lemma Freed.calls_iff (h : Freed m (2^m.width) s x) :
    (∀ c, c ∈ x.calls ↔ ∃ p n, m.MaximalRun p n ∧ c = (p * 0x1000, n)) ↔ m.marked (2^m.width - 1) = false := by
  have hpos := Nat.two_pow_pos m.width
  have hle := h.le
  simp only [h.calls]
  constructor
  · intro hcalls
    by_contra hlast
    have hs : s < 2^m.width := by
      by_contra hge
      have := before_eq_true hpos.ne' (Bool.eq_true_of_not_eq_false hlast)
      rw [show 2^m.width = s by omega, h.before] at this
      cases this
    have hafter : m.marked (s + (2^m.width - s)) = false := by
      by_contra hm
      have := marked_lt (eq_true_of_not_eq_false hm)
      omega
    have hrun : m.MaximalRun s (2^m.width - s) := ⟨by omega, fun q h1 h2 => h.marked q h1 (by omega), h.before, hafter⟩
    obtain ⟨p, n, -, hlt, hc⟩ := (hcalls _).mpr ⟨s, _, hrun, rfl⟩
    rw [Prod.mk.injEq] at hc
    omega
  · intro hlast c
    constructor
    · rintro ⟨p, n, hrun, -, hc⟩
      exact ⟨p, n, hrun, hc⟩
    · rintro ⟨p, n, hrun, hc⟩
      refine ⟨p, n, hrun, lt_of_le_of_ne hrun.le fun heq => ?_, hc⟩
      have := hrun.nonempty
      rw [← heq, hrun.marked _ (by omega) (by omega)] at hlast
      cases hlast

lemma exists_last (h : m.marked p = true) : ∃ p, m.marked p = true ∧ ∀ q, p < q → m.marked q = false := by
  have hbdd : BddAbove {p | m.marked p = true} := ⟨2^m.width, fun q hq => (marked_lt hq).le⟩
  refine ⟨sSup {p | m.marked p = true}, sSup_mem ⟨p, h⟩ hbdd, fun q hq => ?_⟩
  by_contra hm
  exact hq.not_ge (le_csSup hbdd (eq_true_of_not_eq_false hm))

lemma getLast_iff (hroot : m.mGuardedMemoryMap ≠ 0#64) (hall : ¬ m.Missing)
    (hlast : m.marked (2^m.width - 1) = false) : (∀ p, m.marked p = true → (∀ q, p < q → m.marked q = false) →
      getLastGuardedFreePageAddress m = (p + 1) * 0x1000) ↔
    (∀ p, m.marked p = false) ∨ ∃ p, 2^m.width ≤ p + 2^16 ∧ m.marked p = true := by
  have hmax := m.width_le
  rcases getLast_cases hroot hall with ⟨p, htop, hp, hrest, heq⟩ | ⟨hnone, hlt⟩
  · refine iff_of_true (fun q hq hq' => ?_) (.inr ⟨p, htop, hp⟩)
    obtain rfl : p = q := by
      rcases lt_trichotomy p q with h | h | h
      · rw [hrest q h] at hq
        cases hq
      · exact h
      · rw [hq' p h] at hp
        cases hp
    have hlt := marked_lt hp
    have hne : p ≠ 2^m.width - 1 := by
      intro h
      rw [h, hlast] at hp
      cases hp
    rw [heq, mod_eq_of_lt (by omega)]
  · constructor
    · intro h
      refine .inl fun p => ?_
      by_contra hp
      obtain ⟨q, hq, hq'⟩ := exists_last (eq_true_of_not_eq_false hp)
      have := h q hq hq'
      by_cases htop : 2^m.width ≤ q + 2^16
      · rw [hnone q htop] at hq
        cases hq
      · omega
    · rintro (h | ⟨p, htop, hp⟩) q hq
      · rw [h q] at hq
        cases hq
      · rw [hnone p htop] at hp
        cases hp

end

/-- **every run is reported once, and the last page is found, without reading a missing table**: this is so if there
is no map, or no table is missing, the last page is not marked, and the last table has a marked page if any has one -/
theorem guardAllFreedPages_iff (m : GuardMap) (mLastPromotedPage : Nat) :
    ∃ turns r, (∀ k ≥ turns, guardAllFreedPages m mLastPromotedPage k = some r) ∧
      ((∃ calls last, r = some (calls, last) ∧ calls.Nodup ∧
          ∀ c, c ∈ calls ↔ ∃ p n, m.MaximalRun p n ∧ c = (p * 0x1000, n)) ∧
        (∀ p, m.marked p = true → (∀ q, p < q → m.marked q = false) →
          getLastGuardedFreePageAddress m = (p + 1) * 0x1000) ↔
      m.mGuardedMemoryMap = 0#64 ∨ ¬ m.Missing ∧ m.marked (2^m.width - 1) = false ∧
        ((∀ p, m.marked p = false) ∨ ∃ p, 2^m.width ≤ p + 2^16 ∧ m.marked p = true)) := by
  by_cases hroot : m.mGuardedMemoryMap = 0#64
  · refine ⟨0, _, fun k _ => if_pos hroot, iff_of_true ⟨⟨[], _, rfl, nodup_nil, fun c => ⟨nofun, ?_⟩⟩, ?_⟩
      (.inl hroot)⟩
    · rintro ⟨p, n, hrun, -⟩
      have := hrun.marked p le_rfl (Nat.lt_add_of_pos_right hrun.nonempty)
      rw [marked_root hroot] at this
      cases this
    · intro p hp
      rw [marked_root hroot] at hp
      cases hp
  · have hstart : FreedTo m 0 ⟨2^64 - 1, 0, []⟩ := ⟨nofun, 0, le_rfl, rfl, rfl, nofun, rfl, nodup_nil,
      fun c => ⟨nofun, nofun⟩⟩
    obtain ⟨turns, x, hrun, hx⟩ := walk_scans freedWalker_scans hroot hstart
    refine ⟨turns, _, fun k hk => (if_neg hroot).trans (congrArg (Option.map _) (hrun k hk)), ?_⟩
    rw [or_iff_right hroot]
    rcases hx with ⟨x, rfl, hword, s, hfreed⟩ | ⟨rfl, -, hmissing⟩
    · have hall : ¬ m.Missing := fun ⟨p, hp, hnone⟩ => hword p hp hnone
      rw [and_iff_right hall, ← hfreed.calls_iff]
      constructor
      · rintro ⟨⟨calls, last, hr, -, hcalls⟩, hlast⟩
        cases hr
        exact ⟨hcalls, (getLast_iff hroot hall (hfreed.calls_iff.mp hcalls)).mp hlast⟩
      · rintro ⟨hcalls, hlast⟩
        exact ⟨⟨_, _, rfl, hfreed.nodup, hcalls⟩, (getLast_iff hroot hall (hfreed.calls_iff.mp hcalls)).mpr hlast⟩
    · refine iff_of_false ?_ fun h => h.1 hmissing
      rintro ⟨⟨calls, last, hr, -⟩, -⟩
      cases hr

/-- two levels, and the table of the first pages is not there; page `0x10000` is the only one that is marked -/
def secondTable : GuardMap where
  tables := fun t i => if t = 0x1000#64 ∧ i = 1 then 0x2000#64 else if t = 0x2000#64 ∧ i = 0 then 1#64 else 0#64
  mGuardedMemoryMap := 0x1000#64
  mMapLevel := 2
  level_pos := by decide
  level_le := by decide

/-- the second turn reads a table at `NULL` -/
theorem secondTable_null : secondTable.marked 0x10000 = true ∧ guardAllFreedPages secondTable 0 2 = some none := by
  decide +kernel

end Audk.Mem.HeapGuard
