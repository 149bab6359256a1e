import Audk.Net.Ip6Input
import Audk.Lib.Segments

/-!
# The reassembly of IPv6 packets is right if fragments do not overlap in part

The fragments of a packet that were received since there is an assemble entry for it are `pending`.

* `Overlaps`: the fragment goes beyond the end of one that starts before it, or ends in the middle of one that
  starts after it;
* `reassembly_history`: the calls are `Sound` exactly if there is no such fragment.
-/

namespace Audk.Net.Ip6

open Segments List Function Option

variable {p this g : Packet} {a a' : AssembleEntry} {P q before after removed rest : List Packet} {m : Int}

abbrev Ordered (a : Int) (q : List Packet) (b : Int) : Prop := Segments.Ordered Packet.start Packet.stop a q b

def total (q : List Packet) : Int := (q.map fun f => f.stop - f.start).sum

lemma total_append (q q' : List Packet) : total (q ++ q') = total q + total q' := by
  unfold total
  rw [List.map_append, List.sum_append]

lemma total_cons (p : Packet) (q : List Packet) : total (p :: q) = p.stop - p.start + total q := by
  unfold total
  rw [map_cons, sum_cons]

/-! ## what is promised, and when -/

/-- a fragment that is not empty, with its headers in front -/
structure Stored (p : Packet) : Prop where
  start : 0 ≤ p.start ∧ p.start < 2^16
  lt : p.start < p.stop
  short : p.stop - p.start < 2^16
  length : p.length = p.stop - p.start
  headLen : 40 ≤ p.headLen ∧ p.headLen < 2^16
  next : p.headLen = 40 ∨ p.formerNextHeader + 40 < p.headLen
  size : (p.bytes.length : Int) = p.headLen + 8 + (p.stop - p.start)

def Packet.data (p : Packet) : List UInt8 := p.bytes.drop (p.headLen + 8)

def EndsAt (P : List Packet) (n : Int) : Prop := (∃ f ∈ P, f.lastFrag = true ∧ f.stop = n) ∧ ∀ f ∈ P, f.stop ≤ n

structure Sound (table : Table) (P : List Packet) (p : Packet) : Prop where
  curLen : (enqueue (entryOf table p) p).2.curLen = total (enqueue (entryOf table p) p).2.fragments
  payload : ∀ r, (ip6Reassemble table p).1 = some r → EndsAt (p :: P) r.fragmentable.length ∧
    ∀ i : Nat, i < r.fragmentable.length → ∃ f ∈ p :: P, f.key = p.key ∧ f.start ≤ i ∧ i < f.stop ∧
      r.fragmentable[i]? = f.data[(i - f.start).toNat]?

/-- `p` goes beyond the end of a fragment that does not start after it -/
def OverlapsPrev (q : List Packet) (p : Packet) : Prop :=
  ∃ n ∈ q, n.start ≤ p.start ∧ p.start < n.stop ∧ n.stop < p.stop

/-- `p` ends in the middle of a fragment that starts after it -/
def OverlapsNext (q : List Packet) (p : Packet) : Prop :=
  ∃ n ∈ q, p.start < n.start ∧ n.start < p.stop ∧ p.stop < n.stop

def Overlaps (q : List Packet) (p : Packet) : Prop := OverlapsPrev q p ∨ OverlapsNext q p

/-! ## arithmetic -/

lemma toUInt32_of_lt {n : Int} (h : 0 ≤ n) (h' : n < 2^32) : toUInt32 n = n := Int.emod_eq_of_lt h h'

lemma toInt32_of_lt {n : Int} (h : 0 ≤ n) (h' : n < 2^31) : toInt32 n = n := by
  unfold toInt32
  omega

variable {pending : Key → List Packet} {table : Table} {q' : List Packet} {heads : Key → Nat} {r : Assembled}
  {stop : Int}

/-- `Len` is negative here, so that the length grows -/
lemma trimTail_of_lt (h : stop < p.stop) (h0 : 0 ≤ stop) (hstop : p.stop < 2^17) (hlen : 0 ≤ p.length)
    (hlen' : p.length < 2^17) : (trimTail p stop).start = p.start ∧ (trimTail p stop).stop = stop ∧
      (trimTail p stop).length = p.length + (p.stop - stop) := by
  unfold trimTail
  rw [if_pos h]
  refine ⟨rfl, ?_, ?_⟩
  · show toInt32 stop = stop
    exact toInt32_of_lt h0 (by omega)
  · show toInt32 (p.length - toUInt32 (stop - p.stop)) = _
    unfold toInt32 toUInt32
    omega

lemma ip6TrimPacket_tail (h : stop < p.stop) (h0 : 0 ≤ stop) (hstop : p.stop < 2^17)
    (hlen : 0 ≤ p.length) (hlen' : p.length < 2^17) :
    (ip6TrimPacket p p.start stop).start = p.start ∧ (ip6TrimPacket p p.start stop).stop = stop ∧
      (ip6TrimPacket p p.start stop).length = p.length + (p.stop - stop) := by
  have hhead : trimHead p p.start = p := by
    unfold trimHead
    rw [if_neg (by omega)]
  unfold ip6TrimPacket
  rw [hhead]
  exact trimTail_of_lt h h0 hstop hlen hlen'

/-! ## the next header -/

/-- `g` has the data of `f`, and maybe another next header -/
structure SameData (g f : Packet) : Prop where
  key : g.key = f.key
  start : g.start = f.start
  stop : g.stop = f.stop
  length : g.length = f.length
  headLen : g.headLen = f.headLen
  lastFrag : g.lastFrag = f.lastFrag
  size : g.bytes.length = f.bytes.length
  data : g.data = f.data

lemma SameData.refl (p : Packet) : SameData p p := ⟨rfl, rfl, rfl, rfl, rfl, rfl, rfl, rfl⟩

lemma setByte_spec (value : UInt8) {offset : Nat} {bs : Blocks} (h : offset < bs.flatten.length) :
    ∃ bs', setByte value offset bs = some bs' ∧ bs'.flatten = bs.flatten.set offset value := by
  induction bs generalizing offset with
  | nil => exact absurd h (Nat.not_lt_zero _)
  | cons b bs ih =>
    unfold setByte
    rw [flatten_cons, length_append] at h
    by_cases hlt : offset < b.length
    · exact ⟨_, if_pos hlt, by rw [flatten_cons, flatten_cons, set_append_left _ _ hlt]⟩
    · obtain ⟨bs', hbs, hflat⟩ := ih (show offset - b.length < bs.flatten.length by omega)
      refine ⟨b :: bs', by rw [if_neg hlt, hbs]; rfl, ?_⟩
      rw [flatten_cons, flatten_cons, hflat, set_append_right _ _ (by omega)]

lemma setNextHeader_spec (hp : Stored p) : ∃ this, setNextHeader p = some this ∧ SameData this p := by
  have hsize := hp.size
  have hlt := hp.lt
  obtain ⟨h1, h2⟩ := hp.headLen
  have hoffset : (if (p.headLen - 40) % 2^16 = 0 then 6 else p.formerNextHeader + 40) < p.headLen := by
    split_ifs with hzero
    · omega
    · rcases hp.next with heq | hnext
      · omega
      · exact hnext
  unfold setNextHeader
  dsimp only
  generalize (if (p.headLen - 40) % 2^16 = 0 then 6 else p.formerNextHeader + 40) = offset at hoffset ⊢
  have hin : offset < p.blocks.flatten.length := by
    show offset < p.bytes.length
    omega
  obtain ⟨bs, hbs, hflat⟩ := setByte_spec p.nextHeader hin
  refine ⟨{ p with blocks := bs }, by rw [hbs]; rfl, rfl, rfl, rfl, rfl, rfl, rfl, ?_, ?_⟩
  · show bs.flatten.length = p.blocks.flatten.length
    rw [hflat, length_set]
  · show bs.flatten.drop (p.headLen + 8) = p.blocks.flatten.drop (p.headLen + 8)
    rw [hflat, drop_set_of_lt (by omega)]

/-! ## the queue -/

/-- what the records of the fragments in a queue say -/
structure Recorded (q : List Packet) : Prop where
  lt : ∀ f ∈ q, 0 ≤ f.start ∧ f.start < f.stop ∧ f.stop < 2^17
  length : ∀ f ∈ q, f.length = f.stop - f.start

lemma Recorded.sublist (h : Recorded q) (hsub : ∀ f ∈ q', f ∈ q) : Recorded q' :=
  ⟨fun f hf => h.lt f (hsub f hf), fun f hf => h.length f (hsub f hf)⟩

lemma Recorded.total_nonneg (h : Recorded q) : 0 ≤ total q := by
  induction q with
  | nil => exact le_rfl
  | cons f q ih =>
    have h1 := h.lt f mem_cons_self
    have h2 := ih (h.sublist fun f hf => mem_cons_of_mem _ hf)
    rw [total_cons]
    omega

/-- all of `p` is in the previous fragment; or that one is trimmed, which makes the sum of the lengths smaller by `d` -/
lemma trimPrev_cases (hq : Ordered 0 before m) (hr : Recorded before) (hbefore : ∀ f ∈ before, f.start ≤ p.start)
    (h0 : 0 ≤ p.start) : (trimPrev before p = none ∧ ∃ n ∈ before, n.start ≤ p.start ∧ p.stop ≤ n.stop) ∨
      ∃ before' d, trimPrev before p = some before' ∧ 0 ≤ d ∧ total before' = total before - d ∧
        ((d = 0 ∧ before' = before ∧ ∀ f ∈ before, f.stop ≤ p.start) ∨ (0 < d ∧ OverlapsPrev before p)) := by
  unfold trimPrev
  rcases eq_nil_or_concat before with rfl | ⟨q, n, rfl⟩
  · exact .inr ⟨[], 0, rfl, le_rfl, rfl, .inl ⟨rfl, rfl, nofun⟩⟩
  rw [concat_eq_append] at *
  have hmem : n ∈ q ++ [n] := mem_append_right _ mem_cons_self
  have hlast := hq.le_last List.getLast?_concat
  obtain ⟨hn0, hlt, hbound⟩ := hr.lt n hmem
  have hlen := hr.length n hmem
  rw [List.getLast?_concat, dropLast_concat]
  simp only
  by_cases hover : p.start < n.stop
  · rw [if_pos hover]
    by_cases hle : p.stop ≤ n.stop
    · exact .inl ⟨if_pos hle, n, hmem, hbefore n hmem, hle⟩
    · rw [if_neg hle]
      obtain ⟨h1, h2, -⟩ := ip6TrimPacket_tail hover h0 hbound (by omega) (by omega)
      refine .inr ⟨_, n.stop - p.start, rfl, by omega, ?_, .inr ⟨by omega, n, hmem, hbefore n hmem, hover, by omega⟩⟩
      rw [total_append, total_append, total_cons, total_cons, h1, h2]
      omega
  · rw [if_neg hover]
    refine .inr ⟨_, 0, rfl, le_rfl, by omega, .inl ⟨rfl, rfl, fun f hf => ?_⟩⟩
    have := hlast f hf
    omega

lemma removeCovered_spec (this : Packet) {after : List Packet} (curLen : Int) (hr : Recorded after)
    (hcur : total after ≤ curLen) (hcur' : curLen < 2^32) :
    ∃ removed, after = removed ++ (removeCovered this after curLen).1 ∧ (∀ f ∈ removed, f.stop ≤ this.stop) ∧
      (∀ n ∈ (removeCovered this after curLen).1.head?, this.stop < n.stop) ∧
      (removeCovered this after curLen).2 = curLen - total removed := by
  induction after generalizing curLen with
  | nil => exact ⟨[], rfl, nofun, nofun, by rw [removeCovered]; simp [total]⟩
  | cons n after ih =>
    have hrest : Recorded after := hr.sublist fun f hf => mem_cons_of_mem _ hf
    have hnonneg := hrest.total_nonneg
    have hlen := hr.length n mem_cons_self
    have hlt := hr.lt n mem_cons_self
    rw [total_cons] at hcur
    unfold removeCovered
    by_cases hle : n.stop ≤ this.stop
    · rw [if_pos hle, toUInt32_of_lt (by omega) (by omega)]
      obtain ⟨removed, h1, h2, h3, h4⟩ := ih (curLen - n.length) hrest (by omega) (by omega)
      refine ⟨n :: removed, by rw [cons_append, ← h1], ?_, h3, ?_⟩
      · intro f hf
        rcases mem_cons.mp hf with rfl | hf
        · exact hle
        · exact h2 f hf
      · rw [h4, total_cons]
        omega
    · rw [if_neg hle]
      refine ⟨[], rfl, nofun, ?_, by simp [total]⟩
      intro n' hn'
      rw [List.head?_cons, mem_some_iff] at hn'
      rw [← hn']
      omega

/-- `p` is trimmed against the next fragment, which makes its record too long by `d` -/
lemma trimAgainstNext_cases (hp : Stored p) (hrest : Ordered p.start rest m) (hafter : ∀ f ∈ rest, p.start < f.start)
    (hnext : ∀ n ∈ rest.head?, p.stop < n.stop) :
    ∃ this d, trimAgainstNext p rest = some this ∧ 0 ≤ d ∧ 0 ≤ this.stop - this.start ∧ this.length < 2^18 ∧
      this.length = this.stop - this.start + d ∧
      ((d = 0 ∧ this = p ∧ ∀ f ∈ rest, p.stop ≤ f.start) ∨ (0 < d ∧ OverlapsNext rest p)) := by
  have h1 := hp.start
  have h2 := hp.short
  have h3 := hp.length
  have h4 := hp.lt
  unfold trimAgainstNext
  cases rest with
  | nil => exact ⟨p, 0, rfl, le_rfl, by omega, by omega, by omega, .inl ⟨rfl, rfl, nofun⟩⟩
  | cons n rest =>
    obtain ⟨hs, hse, hrest⟩ := hrest
    have hn := hnext n rfl
    have hlt := hafter n mem_cons_self
    simp only
    by_cases hover : n.start < p.stop
    · rw [if_pos hover, if_neg (by omega)]
      obtain ⟨h5, h6, h7⟩ := ip6TrimPacket_tail hover (by omega) (by omega) (by omega) (by omega)
      exact ⟨_, 2 * (p.stop - n.start), rfl, by omega, by omega, by omega, by omega,
        .inr ⟨by omega, n, mem_cons_self, hlt, hover, hn⟩⟩
    rw [if_neg hover]
    refine ⟨p, 0, rfl, le_rfl, by omega, by omega, by omega, .inl ⟨rfl, rfl, fun f hf => ?_⟩⟩
    rcases mem_cons.mp hf with rfl | hf
    · omega
    · have := (hrest.bounds hf).1
      omega

lemma OverlapsPrev.mono (h : OverlapsPrev q p) (hsub : ∀ f ∈ q, f ∈ q') : OverlapsPrev q' p := by
  obtain ⟨n, hn, hrest⟩ := h
  exact ⟨n, hsub n hn, hrest⟩

lemma OverlapsNext.mono (h : OverlapsNext q p) (hsub : ∀ f ∈ q, f ∈ q') : OverlapsNext q' p := by
  obtain ⟨n, hn, hrest⟩ := h
  exact ⟨n, hsub n hn, hrest⟩

lemma recordFirst_cases (this : Packet) (a : AssembleEntry)
    (hstart : this.start = 0 → Stored this ∧ a.info.isSome = false ∧ a.packet = false) :
    ∃ g, recordFirst this a = (some g, { a with
        info := if this.start = 0 then some this.headLen else a.info
        packet := if this.start = 0 then true else a.packet }) ∧ SameData g this := by
  unfold recordFirst
  by_cases hzero : this.start = 0
  · obtain ⟨hstored, hinfo, hpacket⟩ := hstart hzero
    obtain ⟨g, hg, hsame⟩ := setNextHeader_spec hstored
    refine ⟨g, ?_, hsame⟩
    rw [if_pos hzero, if_neg (by simp [hinfo, hpacket]), hg, if_pos hzero, if_pos hzero]
    simp only [hsame.headLen]
  · exact ⟨this, by rw [if_neg hzero, if_neg hzero, if_neg hzero], .refl this⟩

lemma recordFirst_span (this : Packet) (a : AssembleEntry) {g : Packet} (h : (recordFirst this a).1 = some g) :
    g.stop - g.start = this.stop - this.start := by
  unfold recordFirst setNextHeader at h
  split at h
  · split at h
    · cases h
    · split at h
      · cases h
      next hg =>
        cases h
        obtain ⟨bs, -, rfl⟩ := map_eq_some_iff.mp hg
        rfl
  · cases h
    rfl

/-- what is true of an assemble entry as long as no fragments overlapped in part -/
structure Inv (P : List Packet) (a : AssembleEntry) : Prop where
  received : ∀ f ∈ P, Stored f
  ordered : ∃ m, Ordered 0 a.fragments m
  parts : ∀ g ∈ a.fragments, ∃ f ∈ P, SameData g f
  stops : ∀ f ∈ P, ∃ g ∈ a.fragments, f.stop ≤ g.stop
  curLen : a.curLen = total a.fragments
  totalLen : a.totalLen = 0 ∨ ∃ f ∈ P, f.lastFrag = true ∧ f.stop = a.totalLen
  first : a.info.isSome = true ∨ a.packet = true → ∃ g ∈ a.fragments, g.start = 0
  info : ∀ g ∈ a.fragments, g.start = 0 → a.info = some g.headLen

lemma inv_create : Inv [] ip6CreateAssembleEntry where
  received := nofun
  ordered := ⟨0, le_rfl⟩
  parts := nofun
  stops := nofun
  curLen := rfl
  totalLen := .inl rfl
  first := fun h => absurd h (by decide)
  info := nofun

lemma Inv.recorded (h : Inv P a) : Recorded a.fragments where
  lt := fun g hg => by
    obtain ⟨f, hf, hsame⟩ := h.parts g hg
    have hstored := h.received f hf
    have h1 := hstored.start
    have h2 := hstored.lt
    have h3 := hstored.short
    rw [hsame.start, hsame.stop]
    omega
  length := fun g hg => by
    obtain ⟨f, hf, hsame⟩ := h.parts g hg
    rw [hsame.length, hsame.start, hsame.stop]
    exact (h.received f hf).length

lemma Inv.total_lt (h : Inv P a) : 0 ≤ total a.fragments ∧ total a.fragments < 2^17 := by
  obtain ⟨m, hm⟩ := h.ordered
  have hord := hm.upTo (c := 2^17 - 1) (by decide) fun f hf => by
    have := (h.recorded.lt f hf).2.2
    omega
  have hsum := hord.sum_le
  refine ⟨h.recorded.total_nonneg, ?_⟩
  unfold total
  omega

/-- the fragment is in the queue, in place of those that it covers -/
structure Queued (a : AssembleEntry) (p this : Packet) (a' : AssembleEntry) : Prop where
  same : SameData this p
  parts : ∃ before removed rest, a.fragments = before ++ (removed ++ rest) ∧ (∀ f ∈ before, f.stop ≤ p.start) ∧
    (∀ f ∈ removed, p.start < f.start ∧ f.stop ≤ p.stop) ∧ (∀ f ∈ rest, p.stop ≤ f.start) ∧
    a'.fragments = before ++ this :: rest
  curLen : a'.curLen = total a'.fragments
  totalLen : a'.totalLen = a.totalLen
  info : a'.info = if p.start = 0 then some p.headLen else a.info
  packet : a'.packet = if p.start = 0 then true else a.packet

lemma not_overlaps_of_parts (hbefore : ∀ f ∈ before, f.stop ≤ p.start)
    (hremoved : ∀ f ∈ removed, p.start < f.start ∧ f.stop ≤ p.stop) (hrest : ∀ f ∈ rest, p.stop ≤ f.start)
    (hlt : p.start < p.stop) (hr : Recorded (before ++ (removed ++ rest))) :
    ¬ Overlaps (before ++ (removed ++ rest)) p := by
  have hcases {n : Packet} (hn : n ∈ before ++ (removed ++ rest)) :
      n.stop ≤ p.start ∨ (p.start < n.start ∧ n.stop ≤ p.stop) ∨ p.stop ≤ n.start := by
    simp only [mem_append] at hn
    exact hn.imp (hbefore n) fun hn => hn.imp (hremoved n) (hrest n)
  intro hor
  rcases hor with ⟨n, hn, h1, h2, h3⟩ | ⟨n, hn, h1, h2, h3⟩
  · have h4 := hcases hn
    omega
  · have h4 := hcases hn
    omega

lemma Inv.noFirst (h : Inv P a) (heq : a.fragments = before ++ after) (hbefore : ∀ f ∈ before, f.stop ≤ p.start)
    (hafter : ∀ f ∈ after, p.start < f.start) (hzero : p.start = 0) : a.info.isSome = false ∧ a.packet = false := by
  have hnot : ¬ (a.info.isSome = true ∨ a.packet = true) := by
    intro hfirst
    obtain ⟨g, hg, hgzero⟩ := h.first hfirst
    have hlt := h.recorded.lt g hg
    rw [heq] at hg
    rcases List.mem_append.mp hg with hg | hg
    · have := hbefore g hg
      omega
    · have := hafter g hg
      omega
  rwa [not_or, Bool.not_eq_true, Bool.not_eq_true] at hnot

/-- **what `enqueue` does**: all of the fragment is in the queue already; or it overlaps another one in part, and
`CurLen` is wrong afterwards; or it is queued -/
theorem enqueue_cases (h : Inv P a) (hp : Stored p) :
    (enqueue a p = (none, a) ∧ ∃ n ∈ a.fragments, n.start ≤ p.start ∧ p.stop ≤ n.stop) ∨
      (Overlaps a.fragments p ∧ (enqueue a p).2.curLen ≠ total (enqueue a p).2.fragments) ∨
      (¬ Overlaps a.fragments p ∧ ∃ this a', enqueue a p = (some this, a') ∧ Queued a p this a') := by
  obtain ⟨m, hm⟩ := h.ordered
  have hrec := h.recorded
  obtain ⟨hnonneg, hsmall⟩ := h.total_lt
  have hcur := h.curLen
  unfold enqueue
  have hsplit := takeWhile_append_dropWhile (p := fun f : Packet => !decide (p.start < f.start)) (l := a.fragments)
  obtain ⟨hbefore, hafter⟩ := hm.split p.start
  generalize (a.fragments.takeWhile fun f => !decide (p.start < f.start)) = before at *
  generalize (a.fragments.dropWhile fun f => !decide (p.start < f.start)) = after at *
  simp only
  have hsubb : ∀ f ∈ before, f ∈ a.fragments := fun f hf => hsplit ▸ mem_append_left _ hf
  have hsuba : ∀ f ∈ after, f ∈ a.fragments := fun f hf => hsplit ▸ mem_append_right _ hf
  obtain ⟨b, hb, ha⟩ := ordered_append.mp ((hsplit ▸ hm).mono le_rfl (le_max_left m p.start))
  have hrb := hrec.sublist hsubb
  have hra := hrec.sublist hsuba
  have hsum : total a.fragments = total before + total after := by rw [← hsplit, total_append]
  have hnb := hrb.total_nonneg
  rcases trimPrev_cases hb hrb hbefore hp.start.1 with
    ⟨hnone, n, hn, h1, h2⟩ | ⟨before', d, hsome, hd, htotal, hclean⟩
  · rw [hnone]
    exact .inl ⟨rfl, n, hsubb n hn, h1, h2⟩
  rw [hsome]
  obtain ⟨removed, hrem, hstop, hnext, hcur'⟩ := removeCovered_spec p a.curLen hra (by omega) (by omega)
  generalize removeCovered p after a.curLen = loop at *
  obtain ⟨rest, curLen⟩ := loop
  have hord : Ordered p.start after (max m p.start) := ha.downTo (le_max_right _ _) fun f hf => (hafter f hf).le
  rw [hrem] at hord
  obtain ⟨c, hremoved, hrest⟩ := ordered_append.mp hord
  have hsubr : ∀ f ∈ rest, f ∈ after := fun f hf => hrem ▸ mem_append_right _ hf
  have hsubr' : ∀ f ∈ removed, f ∈ after := fun f hf => hrem ▸ mem_append_left _ hf
  have hsum' : total after = total removed + total rest := by rw [hrem, total_append]
  have hnr := (hra.sublist hsubr).total_nonneg
  have hnr' := (hra.sublist hsubr').total_nonneg
  obtain ⟨this, d', hthis, hd', hspan, hlen, hlen', hclean'⟩ :=
    trimAgainstNext_cases hp (hrest.mono hremoved.le le_rfl) (fun f hf => hafter f (hsubr f hf)) hnext
  rw [hthis]
  simp only
  -- the sum of the lengths and `CurLen` differ by `d + d'`
  have hcurLen : toUInt32 (curLen + this.length) = total before' + (this.stop - this.start) + total rest + d + d' := by
    rw [toUInt32_of_lt (by omega) (by omega)]
    omega
  by_cases hover : 0 < d + d'
  · refine .inr (.inl ⟨?_, ?_⟩)
    · rcases hclean with ⟨hzero, -⟩ | ⟨-, hover⟩
      · exact .inr ((hclean'.resolve_left fun hz => by omega).2.mono fun f hf => hsuba f (hsubr f hf))
      · exact .inl (hover.mono hsubb)
    · cases hrecord : recordFirst this a with
      | mk o a'' =>
        cases o with
        | none =>
          simp only
          rw [hcurLen, total_append, total_cons]
          omega
        | some g =>
          have hspan := recordFirst_span this a (by rw [hrecord])
          simp only
          rw [hcurLen, total_append, total_cons]
          omega
  · obtain ⟨-, rfl, hstopb⟩ := hclean.resolve_right fun hz => by omega
    obtain ⟨-, rfl, hapart⟩ := hclean'.resolve_right fun hz => by omega
    have hin : ∀ f ∈ removed, this.start < f.start ∧ f.stop ≤ this.stop :=
      fun f hf => ⟨hafter f (hsubr' f hf), hstop f hf⟩
    have heq : a.fragments = before' ++ (removed ++ rest) := by rw [← hsplit, hrem]
    refine .inr (.inr ⟨?_, ?_⟩)
    · rw [heq] at hrec ⊢
      exact not_overlaps_of_parts hstopb hin hapart hp.lt hrec
    · obtain ⟨g, hrecord, hsame⟩ := recordFirst_cases this a fun hzero =>
        ⟨hp, h.noFirst hsplit.symm hstopb hafter hzero⟩
      rw [hrecord]
      refine ⟨g, _, rfl, hsame, ⟨before', removed, rest, heq, hstopb, hin, hapart, rfl⟩, ?_, rfl, rfl, rfl⟩
      show toUInt32 _ = total (before' ++ g :: rest)
      rw [hcurLen, total_append, total_cons, hsame.start, hsame.stop]
      omega

lemma not_overlaps_of_covered (h : Inv P a) (hn : ∃ n ∈ a.fragments, n.start ≤ p.start ∧ p.stop ≤ n.stop) :
    ¬ Overlaps a.fragments p := by
  obtain ⟨n, hn, h1, h2⟩ := hn
  obtain ⟨m, hm⟩ := h.ordered
  intro hor
  rcases hor with ⟨k, hk, h3, h4, h5⟩ | ⟨k, hk, h3, h4, h5⟩
  · rcases hm.trichotomy hn hk with rfl | hle | hle <;> omega
  · rcases hm.trichotomy hn hk with rfl | hle | hle <;> omega

lemma Inv.covered (h : Inv P a) (hp : Stored p) (hn : ∃ n ∈ a.fragments, n.start ≤ p.start ∧ p.stop ≤ n.stop) :
    Inv (p :: P) a where
  received := forall_mem_cons.mpr ⟨hp, h.received⟩
  ordered := h.ordered
  parts := fun g hg => by
    obtain ⟨f, hf, hsame⟩ := h.parts g hg
    exact ⟨f, mem_cons_of_mem _ hf, hsame⟩
  stops := by
    obtain ⟨n, hn, -, hle⟩ := hn
    exact forall_mem_cons.mpr ⟨⟨n, hn, hle⟩, h.stops⟩
  curLen := h.curLen
  totalLen := h.totalLen.imp id fun ⟨f, hf, hrest⟩ => ⟨f, mem_cons_of_mem _ hf, hrest⟩
  first := h.first
  info := h.info

lemma Inv.queued (h : Inv P a) (hp : Stored p) (hq : Queued a p this a') : Inv (p :: P) (account this a') := by
  obtain ⟨before, removed, rest, heq, hbefore, hremoved, hrest, heq'⟩ := hq.parts
  have hsame := hq.same
  have h0 := hp.start
  have hlt := hp.lt
  have hshort := hp.short
  have hcases {g : Packet} (hg : g ∈ a'.fragments) : g ∈ a.fragments ∨ g = this := by
    rw [heq'] at hg
    rw [heq]
    simp only [mem_append, mem_cons] at hg ⊢
    tauto
  have hthis : this ∈ a'.fragments := by
    rw [heq']
    exact mem_append_right _ mem_cons_self
  have hkeep {g : Packet} (hg : g ∈ a.fragments) : g ∈ a'.fragments ∨ (p.start < g.start ∧ g.stop ≤ p.stop) := by
    rw [heq] at hg
    rw [heq']
    simp only [mem_append, mem_cons] at hg ⊢
    rcases hg with hg | hg | hg
    · exact .inl (.inl hg)
    · exact .inr (hremoved g hg)
    · exact .inl (.inr (.inr hg))
  refine ⟨?_, ?_, ?_, ?_, ?_, ?_, ?_, ?_⟩
  · exact forall_mem_cons.mpr ⟨hp, h.received⟩
  · obtain ⟨m, hm⟩ := h.ordered
    rw [heq] at hm
    obtain ⟨b, hb, ha⟩ := ordered_append.mp (hm.mono le_rfl (le_max_left m p.stop))
    have hr := ha.sublist (sublist_append_right removed rest)
    refine ⟨max m p.stop, ?_⟩
    show Ordered 0 a'.fragments _
    rw [heq']
    refine ordered_append.mpr ⟨p.start, hb.upTo h0.1 hbefore, ?_, ?_, ?_⟩
    · exact hsame.start.ge
    · rw [hsame.start, hsame.stop]
      exact hlt.le
    · rw [hsame.stop]
      exact hr.downTo (le_max_right _ _) hrest
  · intro g hg
    rcases hcases hg with hg | rfl
    · obtain ⟨f, hf, hsame⟩ := h.parts g hg
      exact ⟨f, mem_cons_of_mem _ hf, hsame⟩
    · exact ⟨p, mem_cons_self, hsame⟩
  · refine forall_mem_cons.mpr ⟨⟨this, hthis, hsame.stop.ge⟩, fun f hf => ?_⟩
    obtain ⟨g, hg, hle⟩ := h.stops f hf
    rcases hkeep hg with hg | hg
    · exact ⟨g, hg, hle⟩
    · exact ⟨this, hthis, by rw [hsame.stop]; omega⟩
  · exact hq.curLen
  · unfold account
    by_cases hset : this.lastFrag = true ∧ a'.totalLen = 0
    · rw [if_pos hset, hsame.stop, toUInt32_of_lt (by omega) (by omega)]
      exact .inr ⟨p, mem_cons_self, hsame.lastFrag ▸ hset.1, rfl⟩
    · rw [if_neg hset, hq.totalLen]
      exact h.totalLen.imp id fun ⟨f, hf, hrest⟩ => ⟨f, mem_cons_of_mem _ hf, hrest⟩
  · -- a first fragment is not removed
    intro hfirst
    by_cases hzero : p.start = 0
    · exact ⟨this, hthis, hsame.start.trans hzero⟩
    change a'.info.isSome = true ∨ a'.packet = true at hfirst
    rw [hq.info, hq.packet, if_neg hzero, if_neg hzero] at hfirst
    obtain ⟨g, hg, hgzero⟩ := h.first hfirst
    rcases hkeep hg with hg' | hg'
    · exact ⟨g, hg', hgzero⟩
    · omega
  · intro g hg hgzero
    change a'.info = _
    rw [hq.info]
    by_cases hzero : p.start = 0
    · rw [if_pos hzero]
      rcases hcases hg with hgold | rfl
      · -- two first fragments do not fit into the queue
        change g ∈ a'.fragments at hg
        rw [heq'] at hg
        rcases mem_append.mp hg with hg | hg
        · have h1 := hbefore g hg
          have h2 := (h.recorded.lt g hgold).2.1
          omega
        · rcases mem_cons.mp hg with rfl | hg
          · rw [hsame.headLen]
          · have := hrest g hg
            omega
      · rw [hsame.headLen]
    · rw [if_neg hzero]
      rcases hcases hg with hg | rfl
      · exact h.info g hg hgzero
      · exact absurd (hsame.start.symm.trans hgzero) hzero

/-! ## delivery -/

lemma flatten_flatMap_trim (len : Nat) (q : List Packet) :
    (q.flatMap fun f => netbufTrim f.blocks len true).flatten = q.flatMap fun f => f.bytes.drop len := by
  induction q with
  | nil => rfl
  | cons f q ih =>
    rw [flatMap_cons, flatten_append, netbufTrim_head, flatMap_cons, ih]
    rfl

/-- the fragmentable part of what is wrapped, if all fragments have headers of the same length -/
lemma wrap_fragmentable {n : Nat} (hr : wrap a = some r) (hinfo : a.info = some n)
    (hheads : ∀ g ∈ a.fragments, g.headLen = n) : r.fragmentable = a.fragments.flatMap Packet.data := by
  unfold wrap at hr
  rw [hinfo] at hr
  cases hq : a.fragments with
  | nil =>
    rw [hq] at hr
    cases hr
  | cons f q =>
    rw [hq] at hr
    simp only at hr
    split at hr
    · cases hr
    next hsize =>
      cases hr
      have hdata : ((f :: q).flatMap fun f => f.bytes.drop (n + 8)) = (f :: q).flatMap Packet.data := by
        rw [← hq]
        unfold Packet.data
        refine flatMap_congr fun g hg => ?_
        rw [hheads g hg]
      unfold Assembled.fragmentable
      rw [flatten_filter, flatten_cons, flatten_flatMap_trim, hdata, drop_append,
        drop_eq_nil_of_le (length_take_le _ _), nil_append, length_take,
        Nat.min_eq_left (by omega), Nat.sub_self, List.drop_zero]

lemma Inv.payload (h : Inv P a) {l : Packet} (hl : a.fragments.getLast? = some l)
    (htotal : l.stop = a.totalLen) (hcur : a.totalLen ≤ a.curLen) (hne : a.totalLen ≠ 0)
    (hheads : ∀ f ∈ P, ∀ f' ∈ P, f.headLen = f'.headLen) (hr : wrap a = some r) :
    EndsAt P r.fragmentable.length ∧ ∀ i : Nat, i < r.fragmentable.length →
      ∃ f ∈ P, f.start ≤ i ∧ i < f.stop ∧ r.fragmentable[i]? = f.data[(i - f.start).toNat]? := by
  have hmem : l ∈ a.fragments := mem_of_getLast? hl
  obtain ⟨m, hm⟩ := h.ordered
  have hbound := hm.le_last hl
  have hlrec := h.recorded.lt l hmem
  have hord := hm.upTo (by omega) hbound
  have htiles := hord.tiles_of_sum (by
    have := h.curLen
    unfold total at this
    omega)
  -- the first fragment starts at 0
  obtain ⟨f0, hf0, hzero⟩ : ∃ f ∈ a.fragments, f.start = 0 := by
    cases hfs : a.fragments with
    | nil =>
      rw [hfs] at hmem
      exact absurd hmem not_mem_nil
    | cons f fs =>
      rw [hfs] at htiles
      exact ⟨f, mem_cons_self, htiles.1⟩
  have hsame : ∀ g ∈ a.fragments, g.headLen = f0.headLen := by
    intro g hg
    obtain ⟨f, hf, hsf⟩ := h.parts g hg
    obtain ⟨f', hf', hsf'⟩ := h.parts f0 hf0
    rw [hsf.headLen, hsf'.headLen]
    exact hheads f hf f' hf'
  have hdata := wrap_fragmentable hr (h.info f0 hf0 hzero) hsame
  obtain ⟨hlen, hbyte⟩ := htiles.flatMap (g := Packet.data) fun g hg => by
    obtain ⟨f, hf, hsf⟩ := h.parts g hg
    have hsize := (h.received f hf).size
    unfold Packet.data
    rw [length_drop, hsf.size, hsf.headLen, hsf.start, hsf.stop]
    have := (h.received f hf).lt
    omega
  rw [← hdata, Int.sub_zero] at hlen
  refine ⟨?_, fun i hi => ?_⟩
  · rw [hlen]
    obtain ⟨f, hf, hlast, hstop⟩ := h.totalLen.resolve_left hne
    refine ⟨⟨f, hf, hlast, hstop.trans htotal.symm⟩, fun f hf => ?_⟩
    obtain ⟨g, hg, hle⟩ := h.stops f hf
    exact hle.trans (hbound g hg)
  · obtain ⟨g, hg, h1, h2, h3⟩ := hbyte i (by omega) (by omega)
    obtain ⟨f, hf, hsf⟩ := h.parts g hg
    refine ⟨f, hf, hsf.start ▸ h1, hsf.stop ▸ h2, ?_⟩
    rw [Int.sub_zero, Int.toNat_natCast] at h3
    rw [hdata, h3, hsf.data, hsf.start]

/-! ## one call -/

def TableInv (table : Table) (pending : Key → List Packet) : Prop :=
  ∀ key, (∀ f ∈ pending key, f.key = key) ∧
    match table key with
    | none => pending key = []
    | some a => Inv (pending key) a

def pendingAfter (table : Table) (pending : Key → List Packet) (p : Packet) : Key → List Packet :=
  Function.update pending p.key (if ((ip6Reassemble table p).2 p.key).isNone then [] else p :: pending p.key)

lemma TableInv.entry (h : TableInv table pending) (p : Packet) : Inv (pending p.key) (entryOf table p) := by
  have hkey := (h p.key).2
  unfold entryOf
  cases htable : table p.key with
  | none =>
    rw [htable] at hkey
    rw [show pending p.key = [] from hkey]
    exact inv_create
  | some a =>
    rw [htable] at hkey
    exact hkey

lemma TableInv.update (h : TableInv table pending) {key : Key}
    {entry : Option AssembleEntry} {P : List Packet} (hP : ∀ f ∈ P, f.key = key)
    (hentry : match entry with
      | none => P = []
      | some a => Inv P a) :
    TableInv (Function.update table key entry) (Function.update pending key P) := by
  intro key'
  by_cases heq : key' = key
  · subst heq
    rw [update_self, update_self]
    exact ⟨hP, hentry⟩
  · rw [update_of_ne heq, update_of_ne heq]
    exact h key'

lemma deliver_cases (a : AssembleEntry) :
    deliver a = (none, some a) ∨ deliver a = (none, none) ∨
      ∃ l r, deliver a = (some r, none) ∧ wrap a = some r ∧ a.fragments.getLast? = some l ∧ l.stop = a.totalLen ∧
        a.totalLen ≠ 0 ∧ a.totalLen ≤ a.curLen := by
  unfold deliver
  by_cases hfull : a.totalLen ≠ 0 ∧ a.totalLen ≤ a.curLen
  · rw [if_pos hfull]
    cases hl : a.fragments.getLast? with
    | none => exact .inr (.inl rfl)
    | some l =>
      by_cases hstop : l.stop = a.totalLen
      · simp only [hstop, ne_eq, not_true_eq_false, if_false]
        cases hw : wrap a with
        | none => exact .inr (.inl rfl)
        | some r => exact .inr (.inr ⟨l, r, rfl, rfl, rfl, hstop, hfull⟩)
      · exact .inr (.inl (if_pos hstop))
  · exact .inl (if_neg hfull)

/-- what a call does as long as fragments do not overlap in part -/
lemma ip6Reassemble_cases (hp : Stored p) (h : Inv P (entryOf table p))
    (hno : ¬ Overlaps (entryOf table p).fragments p) :
    (enqueue (entryOf table p) p).2.curLen = total (enqueue (entryOf table p) p).2.fragments ∧
      ((∃ a, ip6Reassemble table p = (none, Function.update table p.key (some a)) ∧ Inv (p :: P) a) ∨
        ip6Reassemble table p = (none, Function.update table p.key none) ∨
        ∃ a l r, ip6Reassemble table p = (some r, Function.update table p.key none) ∧ Inv (p :: P) a ∧
          wrap a = some r ∧ a.fragments.getLast? = some l ∧ l.stop = a.totalLen ∧ a.totalLen ≠ 0 ∧
          a.totalLen ≤ a.curLen) := by
  unfold ip6Reassemble
  rcases enqueue_cases h hp with ⟨heq, hn⟩ | ⟨hover, -⟩ | ⟨-, this, a', heq, hq⟩
  · simp only [heq]
    exact ⟨h.curLen, .inl ⟨_, rfl, h.covered hp hn⟩⟩
  · exact absurd hover hno
  simp only [heq]
  have hinv := h.queued hp hq
  refine ⟨hq.curLen, ?_⟩
  rcases deliver_cases (account this a') with hd | hd | ⟨l, r, hd, hrest⟩
  · exact .inl ⟨_, by rw [hd], hinv⟩
  · exact .inr (.inl (by rw [hd]))
  · exact .inr (.inr ⟨_, l, r, by rw [hd], hinv, hrest⟩)

/-- **one call**: it is sound exactly if the fragment does not overlap another one in part, and then the table
stays right -/
theorem ip6Reassemble_sound (htable : TableInv table pending)
    (hp : Stored p) (hheads : ∀ f ∈ p :: pending p.key, ∀ f' ∈ p :: pending p.key, f.headLen = f'.headLen) :
    (Sound table (pending p.key) p ↔ ¬ Overlaps (entryOf table p).fragments p) ∧
      (¬ Overlaps (entryOf table p).fragments p →
        TableInv (ip6Reassemble table p).2 (pendingAfter table pending p)) := by
  have hinv := htable.entry p
  have hkeys : ∀ f ∈ p :: pending p.key, f.key = p.key := forall_mem_cons.mpr ⟨rfl, (htable p.key).1⟩
  refine ⟨⟨fun hsound => ?_, fun hno => ?_⟩, fun hno => ?_⟩
  · rcases enqueue_cases hinv hp with ⟨-, hn⟩ | ⟨-, hne⟩ | ⟨hno, -⟩
    · exact not_overlaps_of_covered hinv hn
    · exact absurd hsound.curLen hne
    · exact hno
  · obtain ⟨hcur, hcases⟩ := ip6Reassemble_cases hp hinv hno
    refine ⟨hcur, fun r hr => ?_⟩
    rcases hcases with ⟨a, heq, -⟩ | heq | ⟨a, l, r', heq, ha, hw, hl, hstop, hne, hle⟩
    · rw [heq] at hr
      cases hr
    · rw [heq] at hr
      cases hr
    rw [heq] at hr
    cases hr
    obtain ⟨hend, hbyte⟩ := ha.payload hl hstop hle hne hheads hw
    refine ⟨hend, fun i hi => ?_⟩
    obtain ⟨f, hf, hrest⟩ := hbyte i hi
    exact ⟨f, hf, hkeys f hf, hrest⟩
  · obtain ⟨-, hcases⟩ := ip6Reassemble_cases hp hinv hno
    unfold pendingAfter
    rcases hcases with ⟨a, heq, ha⟩ | heq | ⟨a, l, r', heq, -⟩
    · simp only [heq, update_self, isNone_some, Bool.false_eq_true, if_false]
      exact htable.update hkeys ha
    · simp only [heq, update_self, isNone_none, if_true]
      exact htable.update nofun rfl
    · simp only [heq, update_self, isNone_none, if_true]
      exact htable.update nofun rfl

/-! ## histories -/

def AllSound : List Packet → Table → (Key → List Packet) → Prop
  | [], _, _ => True
  | p :: ps, table, pending =>
    Sound table (pending p.key) p ∧ AllSound ps (ip6Reassemble table p).2 (pendingAfter table pending p)

/-- no fragment overlaps another one in part -/
def AllFine : List Packet → Table → Prop
  | [], _ => True
  | p :: ps, table => ¬ Overlaps (entryOf table p).fragments p ∧ AllFine ps (ip6Reassemble table p).2

lemma headLen_pendingAfter (h : ∀ key, ∀ f ∈ pending key, f.headLen = heads key) (hp : p.headLen = heads p.key) :
    ∀ key, ∀ f ∈ pendingAfter table pending p key, f.headLen = heads key := by
  intro key f hf
  unfold pendingAfter at hf
  by_cases heq : key = p.key
  · subst heq
    rw [update_self] at hf
    split at hf
    · exact absurd hf not_mem_nil
    · rcases mem_cons.mp hf with rfl | hf
      · exact hp
      · exact h _ f hf
  · rw [update_of_ne heq] at hf
    exact h key f hf

lemma allSound_iff {ps : List Packet}
    (h : TableInv table pending) (hps : ∀ p ∈ ps, Stored p) (hheads : ∀ p ∈ ps, p.headLen = heads p.key)
    (hpending : ∀ key, ∀ f ∈ pending key, f.headLen = heads key) :
    AllSound ps table pending ↔ AllFine ps table := by
  induction ps generalizing table pending with
  | nil => exact Iff.rfl
  | cons p ps ih =>
    have hp := hheads p mem_cons_self
    have hall : ∀ f ∈ p :: pending p.key, f.headLen = heads p.key := forall_mem_cons.mpr ⟨hp, hpending p.key⟩
    obtain ⟨hiff, hnext⟩ := ip6Reassemble_sound h (hps p mem_cons_self) fun f hf f' hf' =>
      (hall f hf).trans (hall f' hf').symm
    have hrest (hno : ¬ Overlaps (entryOf table p).fragments p) :=
      ih (hnext hno) (fun p hp => hps p (mem_cons_of_mem _ hp))
        (fun p hp => hheads p (mem_cons_of_mem _ hp)) (headLen_pendingAfter hpending hp)
    constructor
    · intro ⟨hsound, hall⟩
      have hno := hiff.mp hsound
      exact ⟨hno, (hrest hno).mp hall⟩
    · intro ⟨hno, hall⟩
      exact ⟨hiff.mpr hno, (hrest hno).mpr hall⟩

/-- **the reassembly over a history**: for every sequence of fragments that are not empty, where the fragments of
one packet have headers of one length in front, `CurLen` is always the sum of the lengths of the fragments in the
queue, and the fragmentable part of whatever is delivered ends where the last fragment ends and has the bytes of
the fragments, if and only if no fragment overlaps one of the queue in part -/
theorem reassembly6_history (ps : List Packet) (hps : ∀ p ∈ ps, Stored p) (heads : Key → Nat)
    (hheads : ∀ p ∈ ps, p.headLen = heads p.key) :
    AllSound ps (fun _ => none) (fun _ => []) ↔ AllFine ps fun _ => none :=
  allSound_iff (fun _ => ⟨nofun, rfl⟩) hps hheads nofun

def datagram : List UInt8 := (List.range 32).map UInt8.ofNat

/-- a piece of `datagram` behind headers of `headLen` bytes and a fragment header -/
def pieceOf (offset len headLen : Nat) (last : Bool) : Packet where
  key := ⟨1, 2, 3⟩
  start := offset
  stop := offset + len
  length := len
  headLen := headLen
  nextHeader := 17
  lastFrag := last
  formerNextHeader := 0
  blocks := [List.replicate (headLen + 8) 0xff, (datagram.drop offset).take len]

def lastOfThree (p q r : Packet) : Option (List UInt8) :=
  (ip6Reassemble (ip6Reassemble (ip6Reassemble (fun _ => none) p).2 q).2 r).1.map Assembled.fragmentable

/-- bytes 0 to 8, 8 to 24 and 16 to 32: bytes 0 to 8 and 16 to 32 are delivered.  Bytes 0 to 8 and 8 to 16, with
other headers in front: a part of the headers is delivered. -/
theorem overlap6_loses :
    lastOfThree (pieceOf 0 8 40 false) (pieceOf 8 16 40 false) (pieceOf 16 16 40 true) =
        some (datagram.take 8 ++ datagram.drop 16) ∧
      (ip6Reassemble (ip6Reassemble (fun _ => none) (pieceOf 0 8 40 false)).2 (pieceOf 8 8 48 true)).1.map
        Assembled.fragmentable = some (datagram.take 8 ++ List.replicate 8 0xff ++ (datagram.drop 8).take 8) := by
  decide +kernel

lemma stored_pieceOf {offset len headLen : Nat} {last : Bool} (h : offset + len ≤ 32) (hlen : 0 < len)
    (hhead : 40 ≤ headLen) (hhead' : headLen < 2^16) : Stored (pieceOf offset len headLen last) := by
  refine ⟨⟨?_, ?_⟩, ?_, ?_, ?_, ⟨hhead, hhead'⟩, ?_, ?_⟩
  · exact Int.natCast_nonneg _
  · show (offset : Int) < _
    omega
  · show (offset : Int) < offset + len
    omega
  · show (offset : Int) + len - offset < _
    omega
  · show (len : Int) = offset + len - offset
    omega
  · show headLen = 40 ∨ 0 + 40 < headLen
    omega
  · show (([List.replicate (headLen + 8) (0xff : UInt8), (datagram.drop offset).take len].flatten.length : Nat) : Int) =
      headLen + 8 + (offset + len - offset)
    have hsize : datagram.length = 32 := rfl
    simp only [flatten_cons, flatten_nil, append_nil, length_append, length_replicate,
      length_take, length_drop, hsize]
    omega

theorem apart6_history :
    (ip6Reassemble (ip6Reassemble (fun _ => none) (pieceOf 8 24 40 true)).2 (pieceOf 0 8 40 false)).1.map
        Assembled.fragmentable = some datagram ∧
      AllSound [pieceOf 8 24 40 true, pieceOf 0 8 40 false] (fun _ => none) fun _ => [] := by
  refine ⟨by decide +kernel, (reassembly6_history _ ?_ (fun _ => 40) ?_).mpr ⟨?_, ?_, trivial⟩⟩
  · refine forall_mem_cons.mpr ⟨?_, forall_mem_singleton.mpr ?_⟩
    · exact stored_pieceOf (by decide) (by decide) (by decide) (by decide)
    · exact stored_pieceOf (by decide) (by decide) (by decide) (by decide)
  · exact forall_mem_cons.mpr ⟨rfl, forall_mem_singleton.mpr rfl⟩
  · intro hor
    rcases hor with ⟨n, hn, -⟩ | ⟨n, hn, -⟩
    · exact absurd hn not_mem_nil
    · exact absurd hn not_mem_nil
  · have hqueue : (entryOf (ip6Reassemble (fun _ => none) (pieceOf 8 24 40 true)).2 (pieceOf 0 8 40 false)).fragments =
        [pieceOf 8 24 40 true] := by decide +kernel
    intro hor
    rcases hor with ⟨n, hn, hlt, -⟩ | ⟨n, hn, -, hlt, -⟩
    · rw [mem_singleton.mp hn] at hlt
      exact absurd hlt (by decide)
    · rw [mem_singleton.mp hn] at hlt
      exact absurd hlt (by decide)

end Audk.Net.Ip6
