import Audk.Base.Firmware
import Audk.Lib.Coalesce

/-!
# `PageTableParse` of `CpuPageTableLib`

A page table is a memory of 64-bit entries.  An entry is read by its bits; `MapAttribute` has the bit fields of
`IA32_MAP_ATTRIBUTE` without the reserved ones.  All sums stay below `2^58`, so they are those of natural numbers.

* `pages`: the pages of a table in the order of the loop, `parsePnle_eq`: the loop collects them;
* `walk_iff`: the pages are those of the page walk.
-/

namespace Audk.PageTable

open List Function Option Nat

/-- `PAGING_MODE`; `PagingPae` is `PagingPae2MB`, and so are `Paging4Level` and `Paging5Level` -/
inductive PagingMode where
  | paging32bit | pagingPae4KB | pagingPae | paging4Level4KB | paging4Level | paging4Level1GB
  | paging5Level4KB | paging5Level | paging5Level1GB
deriving DecidableEq

/-- the high byte: the levels of the page table -/
def PagingMode.maxLevel : PagingMode → Nat
  | .paging32bit => 0
  | .pagingPae4KB | .pagingPae => 3
  | .paging4Level4KB | .paging4Level | .paging4Level1GB => 4
  | .paging5Level4KB | .paging5Level | .paging5Level1GB => 5

structure MapAttribute where
  present : Bool
  readWrite : Bool
  userSupervisor : Bool
  writeThrough : Bool
  cacheDisabled : Bool
  accessed : Bool
  dirty : Bool
  pat : Bool
  global : Bool
  protectionKey : Nat
  nx : Bool
  pageTableBaseAddress : Nat
deriving DecidableEq

def MapAttribute.attributes (a : MapAttribute) : MapAttribute := { a with pageTableBaseAddress := 0 }

def baseAddressMask40 : Nat := 0xFFFFFFFFFF000
def baseAddressMask39 : Nat := 0xFFFFFFFFFE000
def protectionKeyMask : Nat := 0x7800000000000000

/-- what the two kinds of leaf entries have in common -/
def leafAttribute (base : Nat) (pat : Bool) (e : Nat) (parent : MapAttribute) : MapAttribute where
  present := parent.present && e.testBit 0
  readWrite := parent.readWrite && e.testBit 1
  userSupervisor := parent.userSupervisor && e.testBit 2
  nx := parent.nx || e.testBit 63
  writeThrough := e.testBit 3
  cacheDisabled := e.testBit 4
  accessed := e.testBit 5
  pat := pat
  dirty := e.testBit 6
  global := e.testBit 8
  protectionKey := (e &&& protectionKeyMask) >>> 59
  pageTableBaseAddress := base

def pageTableLibGetPleBMapAttribute (e : Nat) (parent : MapAttribute) : MapAttribute :=
  leafAttribute (e &&& baseAddressMask39) (e.testBit 12) e parent

def pageTableLibGetPte4KMapAttribute (e : Nat) (parent : MapAttribute) : MapAttribute :=
  leafAttribute (e &&& baseAddressMask40) (e.testBit 7) e parent

/-- `PageTableLibGetPnleMapAttribute`; the fields from `dirty` on are those of the entry -/
def pageTableLibGetPnleMapAttribute (e : Nat) (parent : MapAttribute) : MapAttribute :=
  leafAttribute (e &&& baseAddressMask40) (e.testBit 7) e parent

def isPle (e level : Nat) : Bool := level = 1 || ((level = 3 || level = 2) && e.testBit 7)

def regionLength (level : Nat) : Nat := 2^(level * 9 + 3)

def pagingEntryNumber (maxLevel level : Nat) : Nat := if maxLevel = 3 ∧ level = 3 then 4 else 512

def subTable (mem : Nat → Nat) (e : Nat) : Nat → Nat := fun i => mem ((e &&& baseAddressMask40) + 8 * i)

structure MapEntry where
  linearAddress : Nat
  length : Nat
  attribute_ : MapAttribute

/-- where `LastEntry` points to -/
inductive LastEntry where
  | null
  | map (i : Nat)
  | oneEntry

structure ParseState where
  map : Nat → MapEntry
  mapCount : Nat
  lastEntry : LastEntry
  oneEntry : MapEntry

def ParseState.last (s : ParseState) : Option MapEntry :=
  match s.lastEntry with
  | .null => none
  | .map i => some (s.map i)
  | .oneEntry => some s.oneEntry

def ParseState.setLast (s : ParseState) (e : MapEntry) : ParseState :=
  match s.lastEntry with
  | .null => s
  | .map i => { s with map := Function.update s.map i e }
  | .oneEntry => { s with oneEntry := e }

/-- the page is behind the entry in linear and physical addresses, with the same attributes -/
def Extends (last page : MapEntry) : Prop :=
  last.linearAddress + last.length = page.linearAddress ∧
    last.attribute_.pageTableBaseAddress + last.length = page.attribute_.pageTableBaseAddress ∧
    last.attribute_.attributes = page.attribute_.attributes

instance : DecidableRel Extends := fun _ _ => inferInstanceAs (Decidable (_ ∧ _ ∧ _))

def extend (last page : MapEntry) : MapEntry := { last with length := last.length + page.length }

def ParseState.newEntry (capacity : Nat) (s : ParseState) (page : MapEntry) : ParseState :=
  { ({ s with lastEntry := if s.mapCount < capacity then .map s.mapCount else .oneEntry }).setLast page with
    mapCount := s.mapCount + 1 }

def ParseState.addPage (capacity : Nat) (s : ParseState) (page : MapEntry) : ParseState :=
  match s.last with
  | none => s.newEntry capacity page
  | some last => if Extends last page then s.setLast (extend last page) else s.newEntry capacity page

def leafEntry (level e start : Nat) (parent : MapAttribute) : MapEntry where
  linearAddress := start
  length := regionLength level
  attribute_ :=
    if level = 1 then pageTableLibGetPte4KMapAttribute e parent else pageTableLibGetPleBMapAttribute e parent

def pageTableLibParsePnle (mem : Nat → Nat) (maxLevel capacity : Nat) :
    Nat → (Nat → Nat) → Nat → MapAttribute → ParseState → ParseState
  | 0, _, _, _, s => s
  | level+1, table, regionStart, parent, s =>
    (List.range (pagingEntryNumber maxLevel (level+1))).foldl (fun s i =>
      let e := table i
      let start := regionStart + i * regionLength (level+1)
      if e.testBit 0 = false then s
      else if isPle e (level+1) = true then s.addPage capacity (leafEntry (level+1) e start parent)
      else pageTableLibParsePnle mem maxLevel capacity level (subTable mem e) start
        (pageTableLibGetPnleMapAttribute e parent) s) s

def nopAttribute : MapAttribute := ⟨true, true, true, false, false, false, false, false, false, 0, false, 0⟩

/-- the copy of a page-directory-pointer entry: `ReadWrite` and `UserSupervisor` are set, `Nx` is cleared -/
def copiedPdpte (e : Nat) : Nat := (e ||| 6) % 2^63

structure Parsed where
  status : Option Status
  map : Nat → MapEntry
  mapCount : Nat

/-- `PageTableParse`; `map` and `mapCount` may be `NULL` -/
def pageTableParse (mem : Nat → Nat) (pageTable : Nat) (mode : PagingMode) (map : Option (Nat → MapEntry))
    (mapCount : Option Nat) : Parsed :=
  let buffer := map.getD fun _ => ⟨0, 0, nopAttribute⟩
  if mode = .paging32bit then ⟨some .unsupported, buffer, mapCount.getD 0⟩
  else
    match mapCount with
    | none => ⟨some .invalidParameter, buffer, 0⟩
    | some capacity =>
      if capacity ≠ 0 ∧ map = none then ⟨some .invalidParameter, buffer, capacity⟩
      else if pageTable = 0 then ⟨none, buffer, 0⟩
      else
        let table := fun i => mem (pageTable + 8 * i)
        let s := pageTableLibParsePnle mem mode.maxLevel capacity mode.maxLevel
          (if mode = .pagingPae then fun i => copiedPdpte (table i) else table) 0 nopAttribute
          ⟨buffer, 0, .null, ⟨0, 0, nopAttribute⟩⟩
        ⟨if capacity < s.mapCount then some .bufferTooSmall else none, s.map, s.mapCount⟩

/-! ## the page walk -/

structure Rights where
  readWrite : Bool
  userSupervisor : Bool
  nx : Bool

/-- the page-directory-pointer entries of PAE paging have no rights -/
def entryRights (maxLevel level e : Nat) : Rights :=
  if maxLevel = 3 ∧ level = 3 then ⟨true, true, false⟩ else ⟨e.testBit 1, e.testBit 2, e.testBit 63⟩

def Rights.and (r t : Rights) : Rights :=
  ⟨r.readWrite && t.readWrite, r.userSupervisor && t.userSupervisor, r.nx || t.nx⟩

/-- the attributes of the leaf entry `e` below entries with the rights `r` -/
def walkAttributes (level e : Nat) (r : Rights) : MapAttribute :=
  ⟨true, r.readWrite, r.userSupervisor, e.testBit 3, e.testBit 4, e.testBit 5, e.testBit 6,
    e.testBit (if level = 1 then 7 else 12), e.testBit 8, (e &&& protectionKeyMask) >>> 59, r.nx, 0⟩

/-- the physical address and the attributes of the offset in the region of a table -/
def walk (mem : Nat → Nat) (maxLevel : Nat) : Nat → (Nat → Nat) → Rights → Nat → Option (Nat × MapAttribute)
  | 0, _, _, _ => none
  | level+1, table, r, offset =>
    let e := table (offset / regionLength (level+1))
    let r := r.and (entryRights maxLevel (level+1) e)
    if e.testBit 0 = false then none
    else if isPle e (level+1) = true then
      some ((e &&& if level + 1 = 1 then baseAddressMask40 else baseAddressMask39) + offset % regionLength (level+1),
        walkAttributes (level+1) e r)
    else walk mem maxLevel level (subTable mem e) r (offset % regionLength (level+1))

/-- **the page walk** of a linear address -/
def translate (mode : PagingMode) (mem : Nat → Nat) (pageTable a : Nat) : Option (Nat × MapAttribute) :=
  if pageTable = 0 ∨ pagingEntryNumber mode.maxLevel mode.maxLevel * regionLength mode.maxLevel ≤ a then none
  else walk mem mode.maxLevel mode.maxLevel (fun i => mem (pageTable + 8 * i)) ⟨true, true, false⟩ a

/-! ## the contract -/

def MapEntry.Maps (e : MapEntry) (b : Nat × Nat × MapAttribute) : Prop :=
  e.linearAddress ≤ b.1 ∧ b.1 < e.linearAddress + e.length ∧
    b.2 = (e.attribute_.pageTableBaseAddress + (b.1 - e.linearAddress), e.attribute_.attributes)

/-- the list is ascending, disjoint, maps what the page walk maps and is merged -/
structure IsMapOf (mode : PagingMode) (mem : Nat → Nat) (pageTable : Nat) (l : List MapEntry) : Prop where
  ascending : l.Pairwise fun e f => e.linearAddress + e.length ≤ f.linearAddress
  nonempty : ∀ e ∈ l, 0 < e.length
  maps : ∀ a v, translate mode mem pageTable a = some v ↔ ∃ e ∈ l, e.Maps (a, v)
  merged : l.IsChain fun e f => ¬ Extends e f

/-- there is such a list, it is returned if it fits, and its length is returned in any case -/
def Parses (mode : PagingMode) (mem : Nat → Nat) (pageTable : Nat) : Prop :=
  ∃ l, IsMapOf mode mem pageTable l ∧ ∀ (capacity : Nat) (map : Nat → MapEntry),
    (pageTableParse mem pageTable mode (some map) (some capacity)).mapCount = l.length ∧
    (l.length ≤ capacity → (pageTableParse mem pageTable mode (some map) (some capacity)).status = none ∧
      ∀ i e, l[i]? = some e → (pageTableParse mem pageTable mode (some map) (some capacity)).map i = e) ∧
    (capacity < l.length →
      (pageTableParse mem pageTable mode (some map) (some capacity)).status = some .bufferTooSmall)

/-- the reserved bits of the page-directory-pointer entries of PAE paging are zero -/
def WellFormed (mode : PagingMode) (mem : Nat → Nat) (pageTable : Nat) : Prop :=
  mode.maxLevel = 3 → ∀ i, i < 4 → (mem (pageTable + 8 * i)).testBit 0 = true →
    mem (pageTable + 8 * i) &&& 0xFFF00000000001E6 = 0

/-! ## the pages in their order -/

/-- the pages of an entry; `below` are those of the next level -/
def entryPages (below : (Nat → Nat) → Nat → MapAttribute → List MapEntry) (mem : Nat → Nat) (level e start : Nat)
    (parent : MapAttribute) : List MapEntry :=
  if e.testBit 0 = false then []
  else if isPle e level = true then [leafEntry level e start parent]
  else below (subTable mem e) start (pageTableLibGetPnleMapAttribute e parent)

def pages (mem : Nat → Nat) (maxLevel : Nat) : Nat → (Nat → Nat) → Nat → MapAttribute → List MapEntry
  | 0, _, _, _ => []
  | level+1, table, regionStart, parent =>
    (List.range (pagingEntryNumber maxLevel (level+1))).flatMap fun i =>
      entryPages (pages mem maxLevel level) mem (level+1) (table i) (regionStart + i * regionLength (level+1)) parent

section
variable {mem : Nat → Nat} {maxLevel capacity level : Nat} {s : ParseState} {l : List MapEntry}

lemma parsePnle_eq (level : Nat) (table : Nat → Nat) (start : Nat) (parent : MapAttribute) (s : ParseState) :
    pageTableLibParsePnle mem maxLevel capacity level table start parent s =
      (pages mem maxLevel level table start parent).foldl (ParseState.addPage capacity) s := by
  induction level generalizing table start parent s with
  | zero => rfl
  | succ level ih =>
    rw [pageTableLibParsePnle, pages, foldl_flatMap]
    congr 1
    funext s i
    unfold entryPages
    dsimp only
    split_ifs
    · rfl
    · rfl
    · exact ih _ _ _ _

/-- the state describes the list `l` -/
structure Tracks (capacity : Nat) (l : List MapEntry) (s : ParseState) : Prop where
  count : s.mapCount = l.length
  last : s.last = l.getLast?
  pointer : s.lastEntry = if l = [] then .null else if l.length ≤ capacity then .map (l.length - 1) else .oneEntry
  entry : ∀ i e, i < capacity → l[i]? = some e → s.map i = e

lemma Tracks.newEntry (h : Tracks capacity l s) (page : MapEntry) :
    Tracks capacity (l ++ [page]) (s.newEntry capacity page) := by
  have hcount := h.count
  have hpointer : (if s.mapCount < capacity then LastEntry.map s.mapCount else .oneEntry) =
      if l ++ [page] = [] then .null
      else if (l ++ [page]).length ≤ capacity then .map ((l ++ [page]).length - 1) else .oneEntry := by
    rw [if_neg (append_ne_nil_of_right_ne_nil _ (cons_ne_nil _ _)), length_append, length_singleton,
      hcount, Nat.add_sub_cancel]
    rfl
  unfold ParseState.newEntry
  by_cases hlt : s.mapCount < capacity
  · rw [if_pos hlt] at hpointer ⊢
    refine ⟨by simp [hcount], by simp [ParseState.last, ParseState.setLast], hpointer, ?_⟩
    intro i e hi he
    show Function.update s.map s.mapCount page i = e
    rcases lt_trichotomy i l.length with hil | rfl | hil
    · rw [update_of_ne (by omega)]
      rw [List.getElem?_append_left hil] at he
      exact h.entry i e hi he
    · rw [← hcount, update_self]
      simpa using he
    · rw [List.getElem?_eq_none (by simp; omega)] at he
      cases he
  · rw [if_neg hlt] at hpointer ⊢
    refine ⟨by simp [hcount], by simp [ParseState.last, ParseState.setLast], hpointer, ?_⟩
    intro i e hi he
    rw [List.getElem?_append_left (by omega)] at he
    exact h.entry i e hi he

/-- **one page**: the array and the internal entry follow the list -/
theorem Tracks.addPage (h : Tracks capacity l s) (page : MapEntry) :
    Tracks capacity (Coalesce.add Extends extend l page) (s.addPage capacity page) := by
  have hlast := h.last
  unfold ParseState.addPage
  rcases eq_nil_or_concat' l with rfl | ⟨l, last, rfl⟩
  · rw [List.getLast?_nil] at hlast
    rw [hlast]
    exact h.newEntry page
  rw [List.getLast?_concat] at hlast
  rw [hlast, Coalesce.add_concat]
  dsimp only
  split_ifs with hext
  · have hpointer := h.pointer
    rw [if_neg (append_ne_nil_of_right_ne_nil _ (cons_ne_nil _ _)), length_append,
      List.length_singleton, Nat.add_sub_cancel] at hpointer
    have hcount : s.mapCount = (l ++ [extend last page]).length := by simpa using h.count
    unfold ParseState.setLast
    by_cases hle : l.length + 1 ≤ capacity
    · rw [if_pos hle] at hpointer
      rw [hpointer]
      refine ⟨hcount, by simp [ParseState.last], by simp [hle], fun i e hi he => ?_⟩
      show Function.update s.map l.length (extend last page) i = e
      rcases lt_trichotomy i l.length with hil | rfl | hil
      · rw [update_of_ne (by omega)]
        rw [List.getElem?_append_left hil] at he
        exact h.entry i e hi (by rw [List.getElem?_append_left hil]; exact he)
      · rw [update_self]
        simpa using he
      · rw [List.getElem?_eq_none (by simp; omega)] at he
        cases he
    · rw [if_neg hle] at hpointer
      rw [hpointer]
      refine ⟨hcount, by simp [ParseState.last], by simp [hle], fun i e hi he => ?_⟩
      rw [List.getElem?_append_left (by omega)] at he
      exact h.entry i e hi (by rw [List.getElem?_append_left (by omega)]; exact he)
  · exact h.newEntry page

lemma Tracks.foldl (ps : List MapEntry) (h : Tracks capacity l s) :
    Tracks capacity (Coalesce.collect Extends extend l ps) (ps.foldl (ParseState.addPage capacity) s) := by
  induction ps generalizing l s with
  | nil => exact h
  | cons page ps ih => exact ih (h.addPage page)

def Within (start length : Nat) (p : MapEntry) : Prop :=
  start ≤ p.linearAddress ∧ p.linearAddress + p.length ≤ start + length ∧ 0 < p.length

lemma regionLength_pos (level : Nat) : 0 < regionLength level := Nat.two_pow_pos _

lemma regionLength_succ (level : Nat) : regionLength (level+1) = 512 * regionLength level := by
  unfold regionLength
  rw [show 512 = 2^9 from rfl, ← pow_add]
  congr 1
  omega

lemma pagingEntryNumber_le (maxLevel level : Nat) : pagingEntryNumber maxLevel level ≤ 512 := by
  unfold pagingEntryNumber
  split_ifs <;> decide

lemma entryPages_within {e start : Nat} {parent : MapAttribute}
    (hbelow : ∀ table start parent, ∀ p ∈ pages mem maxLevel level table start parent,
      Within start (pagingEntryNumber maxLevel level * regionLength level) p) :
    ∀ p ∈ entryPages (pages mem maxLevel level) mem (level+1) e start parent,
      Within start (regionLength (level+1)) p := by
  intro p hp
  unfold entryPages at hp
  split_ifs at hp
  · cases hp
  · rw [mem_singleton.mp hp]
    exact ⟨le_rfl, le_rfl, regionLength_pos _⟩
  · obtain ⟨h1, h2, h3⟩ := hbelow _ _ _ p hp
    have hle := mul_le_mul_right (regionLength level) (pagingEntryNumber_le maxLevel level)
    rw [← regionLength_succ] at hle
    exact ⟨h1, by omega, h3⟩

lemma pages_within (level : Nat) (table : Nat → Nat) (start : Nat) (parent : MapAttribute) :
    ∀ p ∈ pages mem maxLevel level table start parent,
      Within start (pagingEntryNumber maxLevel level * regionLength level) p := by
  induction level generalizing table start parent with
  | zero => intro p hp; cases hp
  | succ level ih =>
    intro p hp
    obtain ⟨i, hi, hp⟩ := mem_flatMap.mp hp
    obtain ⟨h1, h2, h3⟩ := entryPages_within ih p hp
    have hle := mul_le_mul_right (regionLength (level+1)) (succ_le_of_lt (mem_range.mp hi))
    rw [succ_mul] at hle
    exact ⟨by omega, by omega, h3⟩

def Before (e f : MapEntry) : Prop := e.linearAddress + e.length ≤ f.linearAddress

lemma pages_ascending (level : Nat) (table : Nat → Nat) (start : Nat) (parent : MapAttribute) :
    (pages mem maxLevel level table start parent).Pairwise Before := by
  induction level generalizing table start parent with
  | zero => exact List.Pairwise.nil
  | succ level ih =>
    refine pairwise_flatMap.mpr ⟨fun i _ => ?_, pairwise_lt_range.imp fun {i j} hij p hp q hq => ?_⟩
    · unfold entryPages
      split_ifs
      · exact List.Pairwise.nil
      · exact pairwise_singleton _ _
      · exact ih _ _ _
    · obtain ⟨-, h2, -⟩ := entryPages_within (pages_within level) p hp
      obtain ⟨h1, -, -⟩ := entryPages_within (pages_within level) q hq
      have hle := mul_le_mul_right (regionLength (level+1)) (succ_le_of_lt hij)
      rw [succ_mul] at hle
      show _ ≤ _
      omega

/-! ## the pages are those of the page walk -/

/-- the entry `e'` that the parser reads stands for the entry `e` of the page walk -/
structure Like (maxLevel level e e' : Nat) : Prop where
  rights : entryRights maxLevel level e = ⟨e'.testBit 1, e'.testBit 2, e'.testBit 63⟩
  bit : ∀ i ∈ [0, 3, 4, 5, 6, 7, 8, 12], e'.testBit i = e.testBit i
  field : ∀ m ∈ [baseAddressMask40, baseAddressMask39, protectionKeyMask], e' &&& m = e &&& m

lemma Like.refl (h : ¬ (maxLevel = 3 ∧ level = 3)) (e : Nat) : Like maxLevel level e e :=
  ⟨if_neg h, fun _ _ => rfl, fun _ _ => rfl⟩

lemma testBit_copiedPdpte (e i : Nat) :
    (copiedPdpte e).testBit i = (decide (i < 63) && (e.testBit i || Nat.testBit 6 i)) := by
  unfold copiedPdpte
  rw [testBit_mod_two_pow, testBit_or]

lemma like_copiedPdpte (e : Nat) : Like 3 3 e (copiedPdpte e) where
  rights := by
    rw [testBit_copiedPdpte, testBit_copiedPdpte, testBit_copiedPdpte, show Nat.testBit 6 1 = true by decide,
      show Nat.testBit 6 2 = true by decide, Bool.or_true, Bool.or_true]
    rfl
  bit := by
    intro i hi
    have hi63 : i < 63 ∧ Nat.testBit 6 i = false := by fin_cases hi <;> decide
    rw [testBit_copiedPdpte, hi63.2, Bool.or_false, decide_eq_true hi63.1, Bool.true_and]
  field := by
    intro m hm
    have h1 : (2^63 - 1) &&& m = m := by fin_cases hm <;> decide
    have h2 : 6 &&& m = 0 := by fin_cases hm <;> decide
    unfold copiedPdpte
    rw [← Nat.and_two_pow_sub_one_eq_mod, Nat.and_assoc, h1, Nat.and_or_distrib_right, h2, Nat.or_zero]

/-- the parent entries have these rights -/
structure Agrees (r : Rights) (parent : MapAttribute) : Prop where
  present : parent.present = true
  rights : r = ⟨parent.readWrite, parent.userSupervisor, parent.nx⟩

variable {e e' : Nat} {r : Rights} {parent : MapAttribute}

lemma leafEntry_attributes (start : Nat) (hlike : Like maxLevel level e e') (hr : Agrees r parent) (hpresent : e.testBit 0 = true) :
    (leafEntry level e' start parent).attribute_.pageTableBaseAddress =
        e &&& (if level = 1 then baseAddressMask40 else baseAddressMask39) ∧
      (leafEntry level e' start parent).attribute_.attributes =
        walkAttributes level e (r.and (entryRights maxLevel level e)) := by
  have hb := hlike.bit
  have hf := hlike.field
  simp only [List.mem_cons, List.not_mem_nil, or_false, forall_eq_or_imp, forall_eq] at hb hf
  obtain ⟨h0, h3, h4, h5, h6, h7, h8, h12⟩ := hb
  obtain ⟨f40, f39, fkey⟩ := hf
  rw [hlike.rights, hr.rights]
  unfold leafEntry walkAttributes pageTableLibGetPte4KMapAttribute pageTableLibGetPleBMapAttribute leafAttribute
    MapAttribute.attributes Rights.and
  split_ifs
  · exact ⟨f40, by simp only [hr.present, h0, hpresent, h3, h4, h5, h6, h7, h8, fkey, Bool.and_self]⟩
  · exact ⟨f39, by simp only [hr.present, h0, hpresent, h3, h4, h5, h6, h8, h12, fkey, Bool.and_self]⟩

lemma agrees_below (hlike : Like maxLevel level e e') (hr : Agrees r parent) (hpresent : e.testBit 0 = true) :
    Agrees (r.and (entryRights maxLevel level e)) (pageTableLibGetPnleMapAttribute e' parent) := by
  have h0 := hlike.bit 0 List.mem_cons_self
  rw [hlike.rights, hr.rights]
  refine ⟨?_, rfl⟩
  show (parent.present && e'.testBit 0) = true
  rw [hr.present, h0, hpresent, Bool.and_self]

/-- **the pages of a table map what the page walk finds in its region** -/
theorem walk_iff (level : Nat) {ts tc : Nat → Nat} (hlevel : level ≤ maxLevel)
    (hlike : ∀ i, Like maxLevel level (ts i) (tc i)) (hr : Agrees r parent) (start offset : Nat)
    (v : Nat × MapAttribute) (ho : offset < pagingEntryNumber maxLevel level * regionLength level) :
    walk mem maxLevel level ts r offset = some v ↔
      ∃ p ∈ pages mem maxLevel level tc start parent, p.Maps (start + offset, v) := by
  induction level generalizing ts tc r parent start offset with
  | zero => exact ⟨nofun, fun ⟨p, hp, _⟩ => absurd hp not_mem_nil⟩
  | succ level ih =>
    have hpos := regionLength_pos (level+1)
    have hoffset := div_add_mod' offset (regionLength (level+1))
    have hmod := mod_lt offset hpos
    have hindex : offset / regionLength (level+1) < pagingEntryNumber maxLevel (level+1) :=
      Nat.div_lt_of_lt_mul (by rwa [Nat.mul_comm] at ho)
    -- only the entry of the address can have a page with it
    have honly : (∃ p ∈ pages mem maxLevel (level+1) tc start parent, p.Maps (start + offset, v)) ↔
        ∃ p ∈ entryPages (pages mem maxLevel level) mem (level+1) (tc (offset / regionLength (level+1)))
          (start + offset / regionLength (level+1) * regionLength (level+1)) parent, p.Maps (start + offset, v) := by
      constructor
      · rintro ⟨p, hp, hmaps⟩
        obtain ⟨i, -, hp⟩ := mem_flatMap.mp hp
        obtain ⟨h1, h2, -⟩ := entryPages_within (pages_within level) p hp
        have h3 : p.linearAddress ≤ start + offset := hmaps.1
        have h4 : start + offset < p.linearAddress + p.length := hmaps.2.1
        have hi : offset / regionLength (level+1) = i := Nat.div_eq_of_lt_le (by omega) (by rw [Nat.succ_mul]; omega)
        rw [hi]
        exact ⟨p, hp, hmaps⟩
      · rintro ⟨p, hp, hmaps⟩
        exact ⟨p, mem_flatMap.mpr ⟨_, mem_range.mpr hindex, hp⟩, hmaps⟩
    rw [honly, walk]
    have hentry := hlike (offset / regionLength (level+1))
    generalize ts (offset / regionLength (level+1)) = e at hentry ⊢
    generalize tc (offset / regionLength (level+1)) = e' at hentry ⊢
    have h0 := hentry.bit 0 mem_cons_self
    have hple : isPle e' (level+1) = isPle e (level+1) := by
      unfold isPle
      rw [hentry.bit 7 (by decide)]
    unfold entryPages
    rw [h0, hple]
    by_cases hpresent : e.testBit 0 = false
    · rw [if_pos hpresent, if_pos hpresent]
      exact ⟨nofun, fun ⟨p, hp, _⟩ => absurd hp not_mem_nil⟩
    rw [if_neg hpresent, if_neg hpresent]
    have hpresent' := eq_true_of_ne_false hpresent
    by_cases hleaf : isPle e (level+1) = true
    · rw [if_pos hleaf, if_pos hleaf]
      obtain ⟨hbase, hattr⟩ := leafEntry_attributes
        (start + offset / regionLength (level+1) * regionLength (level+1)) hentry hr hpresent'
      simp only [mem_singleton, exists_eq_left]
      unfold MapEntry.Maps
      rw [hbase, hattr]
      have hrel : start + offset - (start + offset / regionLength (level+1) * regionLength (level+1)) =
          offset % regionLength (level+1) := by omega
      show some _ = some v ↔ start + _ ≤ start + offset ∧ start + offset < start + _ + regionLength (level+1) ∧
        v = (_ + (start + offset - (start + _)), _)
      rw [hrel, Option.some.injEq]
      exact ⟨fun h => ⟨by omega, by omega, h.symm⟩, fun h => h.2.2.symm⟩
    · rw [if_neg hleaf, if_neg hleaf]
      have hsub : subTable mem e' = subTable mem e := by
        unfold subTable
        rw [hentry.field baseAddressMask40 mem_cons_self]
      have hlower : ¬ (maxLevel = 3 ∧ level = 3) := by omega
      have hregion : offset % regionLength (level+1) < pagingEntryNumber maxLevel level * regionLength level := by
        unfold pagingEntryNumber
        rw [if_neg hlower, ← regionLength_succ]
        exact hmod
      rw [hsub, ih (by omega) (fun i => Like.refl hlower _) (agrees_below hentry hr hpresent')
        (start + offset / regionLength (level+1) * regionLength (level+1)) _ hregion, add_assoc, hoffset]

/-! ## the whole function -/

lemma maps_extend {x y : MapEntry} (b : Nat × Nat × MapAttribute) (h : Extends x y) :
    (extend x y).Maps b ↔ x.Maps b ∨ y.Maps b := by
  obtain ⟨hlinear, hbase, hattr⟩ := h
  obtain ⟨a, phys, attr⟩ := b
  unfold MapEntry.Maps extend
  dsimp only
  rw [← hlinear, ← hbase, ← hattr]
  have hphys (h : x.linearAddress + x.length ≤ a) : x.attribute_.pageTableBaseAddress + (a - x.linearAddress) =
      x.attribute_.pageTableBaseAddress + x.length + (a - (x.linearAddress + x.length)) := by omega
  constructor
  · rintro ⟨h1, h2, h3⟩
    by_cases hlt : a < x.linearAddress + x.length
    · exact .inl ⟨h1, hlt, h3⟩
    · exact .inr ⟨by omega, by omega, hphys (by omega) ▸ h3⟩
  · rintro (⟨h1, h2, h3⟩ | ⟨h1, h2, h3⟩)
    · exact ⟨h1, by omega, h3⟩
    · exact ⟨by omega, by omega, (hphys h1).symm ▸ h3⟩

/-- the table that is parsed, and the list that it gives -/
def parsedTable (mode : PagingMode) (mem : Nat → Nat) (pageTable : Nat) : Nat → Nat :=
  if mode = .pagingPae then fun i => copiedPdpte (mem (pageTable + 8 * i)) else fun i => mem (pageTable + 8 * i)

def parsedMap (mode : PagingMode) (mem : Nat → Nat) (pageTable : Nat) : List MapEntry :=
  Coalesce.collect Extends extend []
    (pages mem mode.maxLevel mode.maxLevel (parsedTable mode mem pageTable) 0 nopAttribute)

variable {mode : PagingMode} {pageTable : Nat}

lemma parsedTable_like (hmode : mode ≠ .pagingPae4KB) (mem : Nat → Nat) (pageTable i : Nat) :
    Like mode.maxLevel mode.maxLevel (mem (pageTable + 8 * i)) (parsedTable mode mem pageTable i) := by
  unfold parsedTable
  by_cases hpae : mode = .pagingPae
  · subst hpae
    exact like_copiedPdpte _
  · rw [if_neg hpae]
    refine Like.refl ?_ _
    cases mode <;> first | exact absurd rfl hmode | exact absurd rfl hpae | decide

lemma isMapOf_parsedMap (hmode : mode ≠ .pagingPae4KB) (mem : Nat → Nat)
    (hne : pageTable ≠ 0) : IsMapOf mode mem pageTable (parsedMap mode mem pageTable) where
  ascending := by
    refine Coalesce.pairwise_collect Extends extend (R := Before) (fun x y z _ hzx => hzx)
      (fun x y z hxy hyz => ?_) [] _ (pages_ascending _ _ _ _)
    have h1 := hxy.1
    have h2 : y.linearAddress + y.length ≤ z.linearAddress := hyz
    show x.linearAddress + (x.length + y.length) ≤ z.linearAddress
    omega
  nonempty := by
    refine Coalesce.forall_collect Extends extend (P := fun e => 0 < e.length)
      (fun x y _ hx => Nat.add_pos_left hx y.length) [] _ fun p hp => ?_
    exact (pages_within _ _ _ _ p hp).2.2
  maps := by
    intro a v
    refine Iff.trans ?_ (Coalesce.mem_collect Extends extend (fun x y b hxy => maps_extend b hxy) [] _ (a, v)).symm
    rw [nil_append]
    unfold translate
    by_cases hlimit : pagingEntryNumber mode.maxLevel mode.maxLevel * regionLength mode.maxLevel ≤ a
    · rw [if_pos (.inr hlimit)]
      refine ⟨nofun, fun ⟨p, hp, hmaps⟩ => ?_⟩
      have h1 := (pages_within _ _ _ _ p hp).2.1
      have h2 : a < p.linearAddress + p.length := hmaps.2.1
      omega
    · rw [if_neg (by rintro (h | h); exacts [hne h, hlimit h])]
      have hagrees : Agrees ⟨true, true, false⟩ nopAttribute := ⟨rfl, rfl⟩
      rw [walk_iff mode.maxLevel le_rfl (parsedTable_like hmode mem pageTable) hagrees 0 a v (not_le.mp hlimit),
        zero_add]
  merged := Coalesce.isChain_collect Extends extend (fun x y z _ hz => hz) [] _ isChain_nil

lemma pageTableParse_eq (mem : Nat → Nat) (hmode : mode ≠ .paging32bit) (hne : pageTable ≠ 0)
    (map : Nat → MapEntry) (capacity : Nat) : ∃ s, Tracks capacity (parsedMap mode mem pageTable) s ∧
      pageTableParse mem pageTable mode (some map) (some capacity) =
        ⟨if capacity < s.mapCount then some .bufferTooSmall else none, s.map, s.mapCount⟩ := by
  have hinit : Tracks capacity [] ⟨map, 0, .null, ⟨0, 0, nopAttribute⟩⟩ := ⟨rfl, rfl, rfl, fun i e _ he => nomatch he⟩
  refine ⟨_, hinit.foldl (pages mem mode.maxLevel mode.maxLevel (parsedTable mode mem pageTable) 0 nopAttribute), ?_⟩
  rw [← parsePnle_eq]
  unfold pageTableParse
  dsimp only
  rw [if_neg hmode, if_neg (fun h => absurd h.2 (some_ne_none _)), if_neg hne]
  rfl

lemma parses_of_mode (hmode : mode ≠ .paging32bit) (hpae : mode ≠ .pagingPae4KB)
    (mem : Nat → Nat) (pageTable : Nat) : Parses mode mem pageTable := by
  by_cases hne : pageTable = 0
  · subst hne
    refine ⟨[], ⟨List.Pairwise.nil, nofun, fun a v => ⟨nofun, nofun⟩, isChain_nil⟩, fun capacity map => ?_⟩
    have hparse : pageTableParse mem 0 mode (some map) (some capacity) = ⟨none, map, 0⟩ := by
      unfold pageTableParse
      dsimp only
      rw [if_neg hmode, if_neg (fun h => absurd h.2 (some_ne_none _)), if_pos rfl]
      rfl
    rw [hparse]
    exact ⟨rfl, fun _ => ⟨rfl, nofun⟩, fun h => absurd h (not_lt_zero _)⟩
  · refine ⟨parsedMap mode mem pageTable, isMapOf_parsedMap hpae mem hne, fun capacity map => ?_⟩
    obtain ⟨s, htracks, hparse⟩ := pageTableParse_eq mem hmode hne map capacity
    rw [hparse, htracks.count]
    refine ⟨rfl, fun hle => ⟨if_neg (not_lt.mpr hle), fun i e he => ?_⟩, fun hlt => if_pos hlt⟩
    have hi := (List.getElem?_eq_some_iff.mp he).1
    exact htracks.entry i e (by omega) he

end

/-- one page at `0x5000` that may be written, below a page-directory-pointer entry with zero reserved bits -/
def paeMemory (a : Nat) : Nat :=
  if a = 0x1000 then 0x2001 else if a = 0x2000 then 0x3003 else if a = 0x3000 then 0x5003 else 0

lemma paeMemory_not_parses : ¬ Parses .pagingPae4KB paeMemory 0x1000 := by
  rintro ⟨l, hmap, hparse⟩
  obtain ⟨hcount, hfits, -⟩ := hparse 1 fun _ => ⟨0, 0, nopAttribute⟩
  have hone : (pageTableParse paeMemory 0x1000 .pagingPae4KB (some fun _ => ⟨0, 0, nopAttribute⟩) (some 1)).mapCount = 1 ∧
      ((pageTableParse paeMemory 0x1000 .pagingPae4KB (some fun _ => ⟨0, 0, nopAttribute⟩)
        (some 1)).map 0).attribute_.readWrite = false ∧
      ((translate .pagingPae4KB paeMemory 0x1000 0).map fun v => v.2.readWrite) = some true := by decide +kernel
  obtain ⟨hlength, hmapped, hwalk⟩ := hone
  obtain ⟨v, hv, hwrite⟩ := map_eq_some_iff.mp hwalk
  obtain ⟨e, he, -, -, hattr⟩ := (hmap.maps 0 v).mp hv
  obtain ⟨f, rfl⟩ := length_eq_one_iff.mp (hcount.symm.trans hlength)
  rw [mem_singleton.mp he] at hattr
  rw [(hfits le_rfl).2 0 f rfl] at hmapped
  have heq : v.2.readWrite = f.attribute_.readWrite := congrArg (fun w => w.2.readWrite) hattr
  rw [hwrite, hmapped] at heq
  cases heq

lemma paeMemory_wellFormed : WellFormed .pagingPae4KB paeMemory 0x1000 := by
  intro _ i hi
  interval_cases i <;> decide

/-- **`PageTableParse`.**  For all page tables the list is ascending, disjoint and merged, it maps exactly the present
pages to what the page walk finds, and its length is returned for every capacity, in all supported paging modes but
`PagingPae4KB`. -/
theorem pageTableParse_iff (mode : PagingMode) :
    (∀ mem pageTable, WellFormed mode mem pageTable → Parses mode mem pageTable) ↔
      mode ≠ .paging32bit ∧ mode ≠ .pagingPae4KB := by
  constructor
  · intro h
    constructor
    · rintro rfl
      obtain ⟨l, -, hparse⟩ := h (fun _ => 0) 0 nofun
      have hstatus := ((hparse l.length fun _ => ⟨0, 0, nopAttribute⟩).2.1 le_rfl).1
      exact absurd hstatus (some_ne_none _)
    · rintro rfl
      exact paeMemory_not_parses (h paeMemory 0x1000 paeMemory_wellFormed)
  · rintro ⟨hmode, hpae⟩ mem pageTable -
    exact parses_of_mode hmode hpae mem pageTable

/-- the page below a page-directory-pointer entry of PAE paging is reported as read-only -/
theorem paeMemory_readOnly : WellFormed .pagingPae4KB paeMemory 0x1000 ∧ ¬ Parses .pagingPae4KB paeMemory 0x1000 ∧
    Parses .pagingPae paeMemory 0x1000 :=
  ⟨paeMemory_wellFormed, paeMemory_not_parses, parses_of_mode (by decide) (by decide) _ _⟩

end Audk.PageTable
