import Audk.Net.Ip4Input
import Audk.Lib.Segments

/-!
# The queue of the IPv4 fragments

What `enqueue` does to a queue of ordered fragments.

* `Dropped`: the queue has all of the fragment already;
* `enqueue_cases`: one of the two holds.
-/

namespace Audk.Net.Ip4

open Segments List Option

abbrev Ordered (a : Int) (q : List Packet) (b : Int) : Prop := Segments.Ordered Packet.start Packet.stop a q b

abbrev Covers (q : List Packet) (x : Int) : Prop := Segments.Covers Packet.start Packet.stop q x

variable {start : Int} {stop : Int} {x : Int} {n : Int}

lemma covers_append {q q' : List Packet} : Covers (q ++ q') x ↔ Covers q x ∨ Covers q' x :=
  Segments.covers_append

lemma covers_cons {p : Packet} {q : List Packet} :
    Covers (p :: q) x ↔ (p.start ≤ x ∧ x < p.stop) ∨ Covers q x :=
  Segments.covers_cons

structure Fragment (p : Packet) : Prop where
  start : 0 ≤ p.start
  le : p.start ≤ p.stop
  bound : p.stop ≤ 65535
  length : p.length = p.stop - p.start
  size : (p.bytes.length : Int) = p.stop - p.start
  last : p.isLast = true → 0 < p.stop

variable {p this : Packet} {a a' : AssembleEntry} {q before after removed rest : List Packet} {m : Int}

lemma fragment_of_preProcess {head : Head} {castType : Int} {packet : Blocks}
    (h : ip4PreProcessPacket head castType packet = some (p, true)) : Fragment p := by
  unfold ip4PreProcessPacket at h
  simp only at h
  generalize (if head.totalLen < packet.totalSize then netbufTrim packet (packet.totalSize - head.totalLen) false
    else packet) = packet' at h
  split at h
  · cases h
  next hform =>
    simp only [not_or, not_lt, ne_eq, not_not] at hform
    split at h
    · cases h
    split at h
    · cases h
    next hbound =>
      simp only [not_or, not_lt] at hbound
      split at h
      · cases h
      split at h
      next hfrag =>
        split at h
        · cases h
        split at h
        · cases h
        cases h
        have hsize : ((netbufTrim packet' (head.headLen * 4) true).flatten.length : Int) =
            (head.totalLen : Int) - (head.headLen * 4 : Nat) := by
          have hsize := hform.2.2.2
          rw [Blocks.totalSize_eq] at hsize
          rw [netbufTrim_head, length_drop]
          omega
        refine ⟨Int.natCast_nonneg _, ?_, hbound.2, ?_, ?_, ?_⟩
        · dsimp only
          omega
        · dsimp only
          omega
        · dsimp only [Packet.bytes]
          omega
        · intro hlast
          have hzero : head.fragment &&& 0x2000 = 0 := by
            simpa [Packet.isLast] using hlast
          dsimp only
          omega
      next => cases h

/-! ## trimming -/

lemma toUInt32_of_lt (h : 0 ≤ n) (h' : n < 2^32) : toUInt32 n = n.toNat := by
  unfold toUInt32
  rw [Int.emod_eq_of_lt h h']

lemma toUInt32_neg (h : n < 0) (h' : -65536 < n) : 65536 ≤ toUInt32 n := by
  unfold toUInt32
  omega

lemma trimHead_of_lt (h : p.start < start) (hlt : start - p.start < 2^32) :
    (trimHead p start).head = p.head ∧ (trimHead p start).start = start ∧ (trimHead p start).stop = p.stop ∧
      (trimHead p start).length = p.length - (start - p.start) ∧
      (trimHead p start).bytes = p.bytes.drop (start - p.start).toNat := by
  unfold trimHead
  rw [if_pos h]
  refine ⟨rfl, rfl, rfl, rfl, ?_⟩
  show (netbufTrim p.blocks _ true).flatten = _
  rw [netbufTrim_head, toUInt32_of_lt (by omega) hlt]
  rfl

lemma trimHead_of_le (h : start ≤ p.start) : trimHead p start = p := by
  unfold trimHead
  rw [if_neg (by omega)]

/-- `Len` is negative here, so that the whole buffer is cut off and the length grows -/
lemma trimTail_of_lt (h : stop < p.stop) (hlt : p.stop - stop < 65536) (hsize : p.bytes.length ≤ 65535) :
    (trimTail p stop).head = p.head ∧ (trimTail p stop).start = p.start ∧ (trimTail p stop).stop = stop ∧
      (trimTail p stop).length = p.length + (p.stop - stop) ∧ (trimTail p stop).bytes = [] := by
  unfold trimTail
  rw [if_pos h]
  refine ⟨rfl, rfl, rfl, ?_, ?_⟩
  · show p.length - (stop - p.stop) = _
    omega
  · show (netbufTrim p.blocks _ false).flatten = _
    have hlen := toUInt32_neg (n := stop - p.stop) (by omega) (by omega)
    have hzero : p.bytes.length - toUInt32 (stop - p.stop) = 0 := by omega
    rw [netbufTrim_tail]
    show p.bytes.take (p.bytes.length - _) = _
    rw [hzero, take_zero]

lemma trimTail_of_le (h : p.stop ≤ stop) : trimTail p stop = p := by
  unfold trimTail
  rw [if_neg (by omega)]

/-! ## the parts of the queue -/

/-- `this` is `p` without what the previous fragments have -/
structure Front (before : List Packet) (p this : Packet) : Prop where
  head : this.head = p.head
  start : p.start ≤ this.start
  prev : ∀ f ∈ before, f.stop ≤ this.start
  tight : this.start = p.start ∨ ∃ f ∈ before, f.stop = this.start
  le : this.start ≤ this.stop
  stop : this.stop = p.stop
  length : this.length = this.stop - this.start
  bytes : this.bytes = p.bytes.drop (this.start - p.start).toNat

lemma Front.of_apart (hp : Fragment p) (hprev : ∀ f ∈ before, f.stop ≤ p.start) : Front before p p :=
  ⟨rfl, le_rfl, hprev, .inl rfl, hp.le, rfl, hp.length, by rw [Int.sub_self]; rfl⟩

lemma trimAgainstPrev_cases (hp : Fragment p) (hq : Ordered 0 before m) (hbefore : ∀ f ∈ before, f.start ≤ p.start) :
    (trimAgainstPrev before p = none ∧ ∃ f ∈ before, f.start ≤ p.start ∧ p.start < f.stop ∧ p.stop ≤ f.stop) ∨
      ∃ this, trimAgainstPrev before p = some this ∧ Front before p this := by
  unfold trimAgainstPrev
  rcases eq_nil_or_concat before with rfl | ⟨q, n, rfl⟩
  · exact .inr ⟨p, rfl, .of_apart hp nofun⟩
  rw [concat_eq_append] at *
  have hmem : n ∈ q ++ [n] := mem_append_right _ mem_cons_self
  have hstop : ∀ f ∈ q ++ [n], f.stop ≤ n.stop := by
    intro f hf
    rcases mem_append.mp hf with hf | hf
    · have h1 := hq.apart.1 f hf
      have h2 := (hq.bounds hmem).2.1
      omega
    · rw [mem_singleton.mp hf]
  rw [List.getLast?_append, List.getLast?_singleton, some_or]
  simp only
  by_cases hlt : p.start < n.stop
  · rw [if_pos hlt]
    by_cases hle : p.stop ≤ n.stop
    · exact .inl ⟨if_pos hle, n, hmem, hbefore n hmem, hlt, hle⟩
    rw [if_neg hle]
    have hb := hp.bound
    have hs := hp.start
    obtain ⟨h1, h2, h3, h4, h5⟩ := trimHead_of_lt hlt (by omega)
    have heq : ip4TrimPacket p n.stop p.stop = trimHead p n.stop := by
      exact trimTail_of_le h3.le
    have hlen := hp.length
    refine .inr ⟨_, rfl, ?_⟩
    rw [heq]
    refine ⟨h1, by omega, ?_, .inr ⟨n, hmem, h2.symm⟩, by omega, h3, by omega, ?_⟩
    · intro f hf
      rw [h2]
      exact hstop f hf
    · rw [h5, h2]
  · rw [if_neg hlt]
    refine .inr ⟨p, rfl, .of_apart hp fun f hf => ?_⟩
    have := hstop f hf
    omega

lemma removeCovered_spec (this : Packet) (after : List Packet) (curLen : Int) :
    ∃ removed, after = removed ++ (removeCovered this after curLen).1 ∧ (∀ f ∈ removed, f.stop ≤ this.stop) ∧
      (∀ n ∈ (removeCovered this after curLen).1.head?, this.stop < n.stop) ∧
      (removeCovered this after curLen).2 = curLen - (removed.map (·.length)).sum := by
  induction after generalizing curLen with
  | nil => exact ⟨[], rfl, nofun, nofun, by rw [removeCovered]; simp⟩
  | cons n after ih =>
    unfold removeCovered
    by_cases hle : n.stop ≤ this.stop
    · rw [if_pos hle]
      obtain ⟨removed, h1, h2, h3, h4⟩ := ih (curLen - n.length)
      refine ⟨n :: removed, by rw [cons_append, ← h1], ?_, h3, ?_⟩
      · intro f hf
        rcases mem_cons.mp hf with rfl | hf
        · exact hle
        · exact h2 f hf
      · rw [h4, map_cons, sum_cons]
        omega
    · rw [if_neg hle]
      refine ⟨[], rfl, nofun, ?_, by simp⟩
      intro n' hn'
      rw [List.head?_cons, mem_some_iff] at hn'
      rw [← hn']
      omega

/-- `this` overlaps the next fragment and lost its data -/
structure Clipped (rest : List Packet) (front this : Packet) : Prop where
  head : this.head = front.head
  start : this.start = front.start
  next : ∃ n ∈ rest, this.stop = n.start ∧ n.start < front.stop ∧ front.stop < n.stop
  first : ∀ f ∈ rest, this.stop ≤ f.start
  lt : this.start < this.stop
  length : this.stop - this.start ≤ this.length
  bytes : this.bytes = []

lemma trimAgainstNext_cases {front : Packet} (hfront : Front before p front) (hp : Fragment p)
    (hrest : Ordered front.start rest m) (hlt : ∀ n ∈ rest.head?, front.stop < n.stop) :
    (trimAgainstNext front rest = none ∧ ∃ n ∈ rest, front.start = n.start ∧ front.stop < n.stop) ∨
      (trimAgainstNext front rest = some front ∧ ∀ n ∈ rest, front.stop ≤ n.start) ∨
      ∃ this, trimAgainstNext front rest = some this ∧ Clipped rest front this := by
  unfold trimAgainstNext
  cases rest with
  | nil => exact .inr (.inl ⟨rfl, nofun⟩)
  | cons n rest =>
    have hn : front.stop < n.stop := hlt n rfl
    obtain ⟨hs, hse, hrest⟩ := hrest
    simp only
    by_cases hover : n.start < front.stop
    · rw [if_pos hover]
      by_cases heq : front.start = n.start
      · exact .inl ⟨if_pos heq, n, mem_cons_self, heq, hn⟩
      rw [if_neg heq]
      have h0 := hp.start
      have hb := hp.bound
      have h1 := hfront.start
      have h2 := hfront.stop
      have h3 := hfront.length
      have hsize : front.bytes.length ≤ 65535 := by
        have := hp.size
        rw [hfront.bytes, length_drop]
        omega
      have htrim : ip4TrimPacket front front.start n.start = trimTail front n.start := by
        unfold ip4TrimPacket
        rw [trimHead_of_le le_rfl]
      obtain ⟨h4, h5, h6, h7, h8⟩ := trimTail_of_lt hover (by omega) hsize
      refine .inr (.inr ⟨_, rfl, ?_⟩)
      rw [htrim]
      refine ⟨h4, h5, ⟨n, mem_cons_self, h6, hover, hn⟩, fun f hf => ?_, ?_, ?_, h8⟩
      · rw [h6]
        rcases mem_cons.mp hf with rfl | hf
        · exact le_rfl
        · exact hse.trans (hrest.bounds hf).1
      · rw [h5, h6]
        exact lt_of_le_of_ne hs heq
      · rw [h5, h6, h7]
        omega
    · rw [if_neg hover]
      refine .inr (.inl ⟨rfl, fun f hf => ?_⟩)
      rcases mem_cons.mp hf with rfl | hf
      · omega
      · have := (hrest.bounds hf).1
        omega

/-! ## `enqueue` -/

/-- what `enqueue` finds: the fragments before `p`, those that it covers, and the rest -/
structure Parts (q before removed rest : List Packet) (p : Packet) : Prop where
  eq : q = before ++ (removed ++ rest)
  before : ∀ f ∈ before, f.start ≤ p.start
  removed : ∀ f ∈ removed, p.start < f.start ∧ f.stop ≤ p.stop
  rest : ∀ f ∈ rest, p.start < f.start ∧ p.stop < f.stop

/-- the fragment is dropped: all of it is in the queue already, and only empty fragments were removed -/
structure Dropped (q : List Packet) (p : Packet) (a a' : AssembleEntry) : Prop where
  parts : ∃ before removed rest, q = before ++ (removed ++ rest) ∧ (∀ f ∈ removed, f.start = f.stop) ∧
    a' = { a with fragments := before ++ rest, curLen := a.curLen - (removed.map (·.length)).sum }
  covered : ∀ x, p.start ≤ x → x < p.stop → Covers q x
  stop : ∃ f ∈ a'.fragments, p.stop ≤ f.stop
  stops : ∀ f ∈ q, ∃ g ∈ a'.fragments, f.stop ≤ g.stop

structure Queued (before removed rest : List Packet) (p this : Packet) (a a' : AssembleEntry) : Prop where
  eq : a' = { a with
    fragments := before ++ this :: rest
    curLen := a.curLen - (removed.map (·.length)).sum + this.length }
  this : (Front before p this ∧ ∀ n ∈ rest, this.stop ≤ n.start) ∨
    ∃ front, Front before p front ∧ Clipped rest front this

lemma enqueue_cases (hp : Fragment p) (hq : Ordered 0 a.fragments m) :
    (∃ a', enqueue a p = (none, a') ∧ Dropped a.fragments p a a') ∨
      ∃ before removed rest this a', enqueue a p = (some this, a') ∧ Parts a.fragments before removed rest p ∧
        Queued before removed rest p this a a' := by
  unfold enqueue
  have hsplit := takeWhile_append_dropWhile (p := fun f : Packet => !decide (p.start < f.start)) (l := a.fragments)
  obtain ⟨hbefore, hafter⟩ := hq.split p.start
  generalize (a.fragments.takeWhile fun f => !decide (p.start < f.start)) = before at *
  generalize (a.fragments.dropWhile fun f => !decide (p.start < f.start)) = after at *
  simp only
  have hq' : Ordered 0 (before ++ after) (max m p.stop) := by
    rw [hsplit]
    exact hq.mono le_rfl (le_max_left _ _)
  obtain ⟨b, hb, ha⟩ := ordered_append.mp hq'
  rcases trimAgainstPrev_cases hp hb hbefore with ⟨hnone, f, hf, h1, h2, h3⟩ | ⟨front, hsome, hfront⟩
  · rw [hnone]
    have hmem : f ∈ a.fragments := hsplit ▸ mem_append_left _ hf
    exact .inl ⟨a, rfl, ⟨a.fragments, [], [], by simp, nofun, by simp⟩,
      fun x hx hx' => ⟨f, hmem, by omega, by omega⟩, ⟨f, hmem, h3⟩, fun g hg => ⟨g, hg, le_rfl⟩⟩
  rw [hsome]
  simp only
  obtain ⟨removed, hrem, hstop, hnext, hcur⟩ := removeCovered_spec front after a.curLen
  generalize removeCovered front after a.curLen = loop at *
  obtain ⟨rest, curLen⟩ := loop
  have hfrom : ∀ f ∈ after, front.start ≤ f.start := by
    intro f hf
    have h1 := hafter f hf
    rcases hfront.tight with heq | ⟨g, hg, heq⟩
    · omega
    · have h2 := (hb.bounds hg).2.2
      have h3 := (ha.bounds hf).1
      omega
  have hle := hfront.le
  have hst := hfront.stop
  have hord : Ordered front.start after (max m p.stop) := ha.downTo (by omega) hfrom
  rw [hrem] at hord
  obtain ⟨c, hremoved, hrest⟩ := ordered_append.mp hord
  have hc := hremoved.le
  have hparts : Parts a.fragments before removed rest p := by
    refine ⟨by rw [← hsplit, hrem], hbefore, fun f hf => ?_, fun f hf => ?_⟩
    · refine ⟨hafter f (hrem ▸ mem_append_left _ hf), ?_⟩
      rw [← hst]
      exact hstop f hf
    · refine ⟨hafter f (hrem ▸ mem_append_right _ hf), ?_⟩
      rw [← hst]
      cases rest with
      | nil => exact absurd hf not_mem_nil
      | cons n rest =>
        have hn := hnext n rfl
        rcases mem_cons.mp hf with rfl | hf
        · exact hn
        · have h1 := (hrest.2.2.bounds hf).1
          have h2 := (hrest.2.2.bounds hf).2.1
          omega
  rcases trimAgainstNext_cases hfront hp (hrest.mono hc le_rfl) hnext with
    ⟨hnone, n, hn, hns, hnt⟩ | ⟨hkeep, hapart⟩ | ⟨this, hclip, hclipped⟩
  · rw [hnone]
    have hempty : ∀ f ∈ removed, f.start = f.stop ∧ f.stop ≤ n.start := by
      intro f hf
      have h1 := hremoved.bounds hf
      have h2 := (hrest.bounds hn).1
      omega
    refine .inl ⟨_, rfl, ⟨before, removed, rest, hparts.eq, fun f hf => (hempty f hf).1, by rw [hcur]⟩,
      fun x hx hx' => ?_, ⟨n, mem_append_right _ hn, by omega⟩, fun f hf => ?_⟩
    · rw [← hsplit, hrem]
      by_cases hfx : x < front.start
      · rcases hfront.tight with heq | ⟨f, hf, heq⟩
        · omega
        · have := hbefore f hf
          exact ⟨f, mem_append_left _ hf, by omega, by omega⟩
      · exact ⟨n, mem_append_right _ (mem_append_right _ hn), by omega, by omega⟩
    · rw [hparts.eq] at hf
      rcases mem_append.mp hf with hf | hf
      · exact ⟨f, mem_append_left _ hf, le_rfl⟩
      · rcases mem_append.mp hf with hf | hf
        · have h1 := (hempty f hf).2
          exact ⟨n, mem_append_right _ hn, by omega⟩
        · exact ⟨f, mem_append_right _ hf, le_rfl⟩
  · rw [hkeep]
    exact .inr ⟨before, removed, rest, front, _, rfl, hparts, by rw [hcur], .inl ⟨hfront, hapart⟩⟩
  · rw [hclip]
    exact .inr ⟨before, removed, rest, this, _, rfl, hparts, by rw [hcur], .inr ⟨front, hfront, hclipped⟩⟩

end Audk.Net.Ip4
