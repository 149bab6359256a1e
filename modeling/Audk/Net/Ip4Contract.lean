import Audk.Net.Ip4Queue

/-!
# The reassembly of IPv4 packets is right if no fragment in the queue is cut

The fragments of a packet that were received since there is an assemble entry for it are `pending`.

* `Inv`: what is true of every assemble entry, cut fragments or not;
* `reassembly_history`: the calls are `Sound` exactly if what they deliver is `Intact`.
-/

namespace Audk.Net.Ip4

open Segments List Function Option

variable {p this g : Packet} {a a' : AssembleEntry} {P q before after removed rest : List Packet} {m : Int}
  {D : List UInt8}

/-! ## what is promised -/

/-- the fragments end at `n`: a last fragment does, and none goes beyond it -/
def EndsAt (P : List Packet) (n : Int) : Prop := (∃ f ∈ P, f.isLast = true ∧ f.stop = n) ∧ ∀ f ∈ P, f.stop ≤ n

/-- a piece of the datagram `D` that is not empty -/
structure IsPiece (D : List UInt8) (p : Packet) : Prop where
  lt : p.start < p.stop
  le : p.stop ≤ D.length
  bytes : p.bytes = (D.drop p.start.toNat).take (p.stop - p.start).toNat
  last : p.isLast = true ↔ p.stop = D.length

/-- pieces of `D` with the last one cover it -/
structure Complete (P : List Packet) (D : List UInt8) : Prop where
  pieces : ∀ f ∈ P, IsPiece D f
  last : ∃ f ∈ P, f.isLast = true
  covers : ∀ x : Int, 0 ≤ x → x < D.length → Covers P x

/-- what a call with the fragment `p` promises, where `P` are the fragments of the packet before -/
structure Sound (table : Table) (P : List Packet) (p : Packet) : Prop where
  payload : ∀ r, (ip4Reassemble table p).1 = some r → EndsAt (p :: P) r.bytes.length ∧
    ∀ i : Nat, i < r.bytes.length → ∃ f ∈ p :: P, f.head.key = p.head.key ∧ f.start ≤ i ∧ i < f.stop ∧
      r.bytes[i]? = f.bytes[(i - f.start).toNat]?
  whole : ∀ D, Complete (p :: P) D → ∃ r, (ip4Reassemble table p).1 = some r ∧ r.bytes = D

/-! ## when it holds -/

/-- the buffer does not have what the record of the fragment says -/
def Packet.IsCut (f : Packet) : Prop := (f.bytes.length : Int) ≠ f.stop - f.start

/-- `p` ends in the middle of a fragment that starts after it, and has something to add in front of it -/
def Clips (q : List Packet) (p : Packet) : Prop :=
  ∃ n ∈ q, p.start < n.start ∧ n.start < p.stop ∧ p.stop < n.stop ∧ ∀ f ∈ q, f.start ≤ p.start → f.stop < n.start

/-- after `p` no fragment of the queue is cut -/
def Intact (q : List Packet) (p : Packet) : Prop :=
  (∀ f ∈ q, f.IsCut → p.start < f.start ∧ f.stop ≤ p.stop) ∧ ¬ Clips q p

def queue (table : Table) (key : Key) : List Packet := ((table key).getD ip4CreateAssembleEntry).fragments

/-- whenever a packet is delivered, its queue is intact -/
def Fine (table : Table) (p : Packet) : Prop :=
  (ip4Reassemble table p).1.isSome = true → Intact (queue table p.head.key) p

/-! ## the fragments of a queue -/

/-- the end of a fragment that was received -/
def Whole (P : List Packet) (g : Packet) : Prop :=
  g.length = g.stop - g.start ∧ ∃ f ∈ P, f.start ≤ g.start ∧ g.start ≤ g.stop ∧ g.stop = f.stop ∧
    g.bytes = f.bytes.drop (g.start - f.start).toNat

structure Cut (g : Packet) : Prop where
  lt : g.start < g.stop
  length : g.stop - g.start ≤ g.length
  bytes : g.bytes = []

lemma Whole.mono {P' : List Packet} (h : Whole P g) (hsub : ∀ f ∈ P, f ∈ P') : Whole P' g := by
  obtain ⟨hlen, f, hf, hrest⟩ := h
  exact ⟨hlen, f, hsub f hf, hrest⟩

lemma Whole.size (h : Whole P g) (hP : ∀ f ∈ P, Fragment f) : (g.bytes.length : Int) = g.stop - g.start := by
  obtain ⟨hlen, f, hf, h1, h2, h3, h4⟩ := h
  have hsize := (hP f hf).size
  rw [h4, length_drop]
  omega

lemma Cut.isCut (h : Cut g) : g.IsCut := by
  have hlt := h.lt
  unfold Packet.IsCut
  rw [h.bytes, length_nil]
  omega

/-- what is true of an assemble entry, apart from that it is not complete -/
structure Holds (P : List Packet) (a : AssembleEntry) : Prop where
  received : ∀ f ∈ P, Fragment f
  ordered : ∃ m, Ordered 0 a.fragments m
  covers : ∀ x, Covers a.fragments x ↔ Covers P x
  stops : ∀ f ∈ P, ∃ g ∈ a.fragments, f.stop ≤ g.stop
  within : ∀ g ∈ a.fragments, ∃ f ∈ P, g.stop ≤ f.stop
  parts : ∀ g ∈ a.fragments, Whole P g ∨ Cut g
  curLen : a.curLen = (a.fragments.map (·.length)).sum
  total : a.totalLen = 0 ∨ ∃ f ∈ P, f.isLast = true ∧ (f.stop = a.totalLen ∨ ∃ g ∈ a.fragments, a.totalLen < g.stop)
  known : ∀ D, (∀ f ∈ P, IsPiece D f) → (∃ f ∈ P, f.isLast = true) → a.totalLen = D.length

structure Inv (P : List Packet) (a : AssembleEntry) : Prop extends Holds P a where
  incomplete : ∀ D, ¬ Complete P D

lemma inv_create : Inv [] ip4CreateAssembleEntry where
  received := nofun
  ordered := ⟨0, le_rfl⟩
  covers := fun _ => Iff.rfl
  stops := nofun
  within := nofun
  parts := nofun
  curLen := rfl
  total := .inl rfl
  known := fun _ _ ⟨_, hf, _⟩ => absurd hf not_mem_nil
  incomplete := fun _ h => absurd h.last fun ⟨_, hf, _⟩ => absurd hf not_mem_nil

/-! ## a fragment that is dropped -/

/-- a last piece that is in the queue already was received before -/
lemma Holds.last_of_covered (h : Holds P a) (hstop : ∃ g ∈ a.fragments, p.stop ≤ g.stop)
    (hpieces : ∀ f ∈ p :: P, IsPiece D f) (hlast : ∃ f ∈ p :: P, f.isLast = true) : ∃ f ∈ P, f.isLast = true := by
  obtain ⟨l, hl, hlast⟩ := hlast
  rcases mem_cons.mp hl with rfl | hl
  · obtain ⟨g, hg, hle⟩ := hstop
    obtain ⟨f, hf, hle'⟩ := h.within g hg
    have h1 := (hpieces l mem_cons_self).last.mp hlast
    have hpiece := hpieces f (mem_cons_of_mem _ hf)
    have h2 := hpiece.le
    exact ⟨f, hf, hpiece.last.mpr (by omega)⟩
  · exact ⟨l, hl, hlast⟩

lemma Inv.dropped (h : Inv P a) (hp : Fragment p) (hd : Dropped a.fragments p a a') : Inv (p :: P) a' := by
  obtain ⟨before, removed, rest, hq, hempty, rfl⟩ := hd.parts
  have hsub : (before ++ rest).Sublist a.fragments := by
    rw [hq]
    exact (List.Sublist.refl before).append (sublist_append_right removed rest)
  have hcov : ∀ x, Covers (before ++ rest) x ↔ Covers a.fragments x := by
    intro x
    have hrem : ¬ Covers removed x := by
      intro ⟨f, hf, h1, h2⟩
      have := hempty f hf
      omega
    rw [hq, covers_append, covers_append, covers_append]
    simp only [hrem, false_or]
  have hstop : ∃ g ∈ a.fragments, p.stop ≤ g.stop := by
    obtain ⟨g, hg, hle⟩ := hd.stop
    exact ⟨g, hsub.subset hg, hle⟩
  have hholds : Holds (p :: P) { a with
      fragments := before ++ rest, curLen := a.curLen - (removed.map (·.length)).sum } := by
    refine ⟨?_, ?_, fun x => ?_, ?_, ?_, ?_, ?_, ?_, fun D hpieces hlast => ?_⟩
    · exact forall_mem_cons.mpr ⟨hp, h.received⟩
    · obtain ⟨m, hm⟩ := h.ordered
      exact ⟨m, hm.sublist hsub⟩
    · rw [hcov, covers_cons, h.covers]
      constructor
      · exact .inr
      · intro hor
        rcases hor with ⟨h1, h2⟩ | hP
        · exact (h.covers x).mp (hd.covered x h1 h2)
        · exact hP
    · refine forall_mem_cons.mpr ⟨hd.stop, fun f hf => ?_⟩
      obtain ⟨g, hg, hle⟩ := h.stops f hf
      obtain ⟨g', hg', hle'⟩ := hd.stops g hg
      exact ⟨g', hg', hle.trans hle'⟩
    · intro g hg
      obtain ⟨f, hf, hle⟩ := h.within g (hsub.subset hg)
      exact ⟨f, mem_cons_of_mem _ hf, hle⟩
    · intro g hg
      exact (h.parts g (hsub.subset hg)).imp (fun hw => hw.mono fun f hf => mem_cons_of_mem _ hf) id
    · show a.curLen - _ = _
      rw [h.curLen, hq]
      simp only [map_append, sum_append]
      omega
    · refine h.total.imp id fun ⟨f, hf, hlast, hor⟩ => ⟨f, mem_cons_of_mem _ hf, hlast, hor.imp id ?_⟩
      intro ⟨g, hg, hlt⟩
      obtain ⟨g', hg', hle⟩ := hd.stops g hg
      exact ⟨g', hg', lt_of_lt_of_le hlt hle⟩
    · exact h.known D (fun f hf => hpieces f (mem_cons_of_mem _ hf)) (h.last_of_covered hstop hpieces hlast)
  refine ⟨hholds, fun D hcomplete => h.incomplete D ?_⟩
  refine ⟨fun f hf => hcomplete.pieces f (mem_cons_of_mem _ hf),
    h.last_of_covered hstop hcomplete.pieces hcomplete.last, fun x hx hx' => ?_⟩
  rcases covers_cons.mp (hcomplete.covers x hx hx') with ⟨h1, h2⟩ | hP
  · exact (h.covers x).mp (hd.covered x h1 h2)
  · exact hP

/-! ## a fragment that is queued -/

section
variable (h : Queued before removed rest p this a a')
include h

lemma Queued.within :
    p.start ≤ this.start ∧ this.start ≤ this.stop ∧ this.stop ≤ p.stop := by
  rcases h.this with ⟨hfront, -⟩ | ⟨front, hfront, hclip⟩
  · exact ⟨hfront.start, hfront.le, hfront.stop.le⟩
  obtain ⟨n, hn, h1, h2, h3⟩ := hclip.next
  have h4 := hfront.start
  have h5 := hclip.start
  have h6 := hclip.lt
  have h7 := hfront.stop
  omega

lemma Queued.head : this.head = p.head := by
  rcases h.this with ⟨hfront, -⟩ | ⟨front, hfront, hclip⟩
  · exact hfront.head
  · exact hclip.head.trans hfront.head

lemma Queued.isLast : this.isLast = p.isLast := by
  unfold Packet.isLast
  rw [h.head]

lemma Queued.stop : ∃ g ∈ before ++ this :: rest, p.stop ≤ g.stop := by
  rcases h.this with ⟨hfront, -⟩ | ⟨front, hfront, hclip⟩
  · exact ⟨this, by simp, hfront.stop.ge⟩
  · obtain ⟨n, hn, h1, h2, h3⟩ := hclip.next
    have h4 := hfront.stop
    exact ⟨n, by simp [hn], by omega⟩

lemma Queued.ordered (hp : Fragment p) {m : Int}
    (hq : Ordered 0 (before ++ (removed ++ rest)) m) : ∃ m, Ordered 0 (before ++ this :: rest) m := by
  obtain ⟨b, hbefore, hafter⟩ := ordered_append.mp (hq.mono le_rfl (le_max_left m this.stop))
  have hrest := hafter.sublist (sublist_append_right removed rest)
  have hwithin := h.within
  have h0 := hp.start
  have hprev : ∀ f ∈ before, f.stop ≤ this.start := by
    rcases h.this with ⟨hfront, -⟩ | ⟨front, hfront, hclip⟩
    · exact hfront.prev
    · rw [hclip.start]
      exact hfront.prev
  have hnext : ∀ f ∈ rest, this.stop ≤ f.start := by
    rcases h.this with ⟨-, hapart⟩ | ⟨front, hfront, hclip⟩
    · exact hapart
    · exact hclip.first
  refine ⟨max m this.stop, ordered_append.mpr ⟨this.start, ?_, le_rfl, hwithin.2.1, ?_⟩⟩
  · exact hbefore.upTo (by omega) hprev
  · exact hrest.downTo (le_max_right _ _) hnext

lemma Queued.covers (hparts : Parts q before removed rest p) (x : Int) :
    Covers (before ++ this :: rest) x ↔ Covers q x ∨ (p.start ≤ x ∧ x < p.stop) := by
  have hwithin := h.within
  have hrem : Covers removed x → p.start ≤ x ∧ x < p.stop := by
    intro ⟨f, hf, h1, h2⟩
    have := hparts.removed f hf
    omega
  have hthis : p.start ≤ x → x < p.stop → Covers before x ∨ (this.start ≤ x ∧ x < this.stop) ∨ Covers rest x := by
    intro hx hx'
    -- what is cut off in front is in a previous fragment
    have hfront {front : Packet} (hfront : Front before p front) (hlt : x < front.start) : Covers before x := by
      rcases hfront.tight with heq | ⟨f, hf, heq⟩
      · omega
      · have := hparts.before f hf
        exact ⟨f, hf, by omega, by omega⟩
    rcases h.this with ⟨hf, -⟩ | ⟨front, hf, hclip⟩
    · by_cases hlt : x < this.start
      · exact .inl (hfront hf hlt)
      · have := hf.stop
        exact .inr (.inl ⟨by omega, by omega⟩)
    obtain ⟨n, hn, h1, h2, h3⟩ := hclip.next
    have h4 := hclip.start
    have h5 := hf.stop
    by_cases hlt : x < front.start
    · exact .inl (hfront hf hlt)
    · by_cases hlt' : x < this.stop
      · exact .inr (.inl ⟨by omega, hlt'⟩)
      · exact .inr (.inr ⟨n, hn, by omega, by omega⟩)
  rw [hparts.eq, covers_append, covers_cons, covers_append, covers_append]
  constructor
  · intro hor
    rcases hor with hb | ht | hr
    · exact .inl (.inl hb)
    · exact .inr ⟨by omega, by omega⟩
    · exact .inl (.inr (.inr hr))
  · intro hor
    rcases hor with (hb | hr | hr) | hp
    · exact .inl hb
    · obtain ⟨h1, h2⟩ := hrem hr
      exact hthis h1 h2
    · exact .inr (.inr hr)
    · exact hthis hp.1 hp.2

end

lemma Parts.cases (hparts : Parts q before removed rest p) {f : Packet} (hf : f ∈ q) :
    f ∈ before ∨ f ∈ removed ∨ f ∈ rest := by
  rw [hparts.eq] at hf
  simpa only [mem_append] using hf

/-- **the invariant with a fragment in the queue** -/
theorem Holds.queued (h : Holds P a) (hp : Fragment p) (hparts : Parts a.fragments before removed rest p)
    (hq : Queued before removed rest p this a a') : Holds (p :: P) (account this a') := by
  have hold {f : Packet} (hf : f ∈ before ∨ f ∈ rest) : f ∈ a.fragments := by
    rw [hparts.eq]
    rcases hf with hf | hf
    · exact mem_append_left _ hf
    · exact mem_append_right _ (mem_append_right _ hf)
  have hcases {g : Packet} (hg : g ∈ before ++ this :: rest) : g ∈ a.fragments ∨ g = this := by
    rcases mem_append.mp hg with hg | hg
    · exact .inl (hold (.inl hg))
    · rcases mem_cons.mp hg with rfl | hg
      · exact .inr rfl
      · exact .inl (hold (.inr hg))
  have hstops : ∀ f ∈ a.fragments, ∃ g ∈ before ++ this :: rest, f.stop ≤ g.stop := by
    intro f hf
    rcases hparts.cases hf with hb | hr | hr
    · exact ⟨f, mem_append_left _ hb, le_rfl⟩
    · obtain ⟨g, hg, hle⟩ := hq.stop
      exact ⟨g, hg, (hparts.removed f hr).2.trans hle⟩
    · exact ⟨f, mem_append_right _ (mem_cons_of_mem _ hr), le_rfl⟩
  have hcons {Q : Packet → Prop} (hQ : ∃ f ∈ P, Q f) : ∃ f ∈ p :: P, Q f := by
    obtain ⟨f, hf, hQf⟩ := hQ
    exact ⟨f, mem_cons_of_mem _ hf, hQf⟩
  have hnotclipped (D : List UInt8) (hpieces : ∀ f ∈ p :: P, IsPiece D f) (hlast : p.isLast = true) :
      this.stop = p.stop := by
    rcases hq.this with ⟨hfront, -⟩ | ⟨front, hfront, hclip⟩
    · exact hfront.stop
    obtain ⟨n, hn, h1, h2, h3⟩ := hclip.next
    obtain ⟨f, hf, hle⟩ := h.within n (hold (.inr hn))
    have h4 := (hpieces p mem_cons_self).last.mp hlast
    have h5 := (hpieces f (mem_cons_of_mem _ hf)).le
    have h6 := hfront.stop
    omega
  have heq := hq.eq
  have hlast := hq.isLast
  subst heq
  refine ⟨?_, ?_, fun x => ?_, ?_, ?_, ?_, ?_, ?_, fun D hpieces hl => ?_⟩
  · exact forall_mem_cons.mpr ⟨hp, h.received⟩
  · obtain ⟨m, hm⟩ := h.ordered
    rw [hparts.eq] at hm
    exact hq.ordered hp hm
  · rw [covers_cons, ← h.covers]
    exact (hq.covers hparts x).trans or_comm
  · refine forall_mem_cons.mpr ⟨hq.stop, fun f hf => ?_⟩
    obtain ⟨g, hg, hle⟩ := h.stops f hf
    obtain ⟨g', hg', hle'⟩ := hstops g hg
    exact ⟨g', hg', hle.trans hle'⟩
  · intro g hg
    rcases hcases hg with hg | rfl
    · exact hcons (h.within g hg)
    · exact ⟨p, mem_cons_self, hq.within.2.2⟩
  · intro g hg
    rcases hcases hg with hg | rfl
    · exact (h.parts g hg).imp (fun hw => hw.mono fun f hf => mem_cons_of_mem _ hf) id
    · rcases hq.this with ⟨hfront, -⟩ | ⟨front, hfront, hclip⟩
      · exact .inl ⟨hfront.length, p, mem_cons_self, hfront.start, hfront.le, hfront.stop, hfront.bytes⟩
      · exact .inr ⟨hclip.lt, hclip.length, hclip.bytes⟩
  · show a.curLen - _ + _ = _
    rw [h.curLen, hparts.eq]
    simp only [account, map_append, map_cons, sum_append, sum_cons]
    omega
  · unfold account
    dsimp only
    by_cases hset : this.isLast = true ∧ a.totalLen = 0
    · rw [if_pos hset]
      refine .inr ⟨p, mem_cons_self, hlast ▸ hset.1, ?_⟩
      rcases hq.this with ⟨hfront, -⟩ | ⟨front, hfront, hclip⟩
      · exact .inl hfront.stop.symm
      · obtain ⟨n, hn, h1, h2, h3⟩ := hclip.next
        exact .inr ⟨n, mem_append_right _ (mem_cons_of_mem _ hn), by omega⟩
    · rw [if_neg hset]
      refine h.total.imp id fun ⟨f, hf, hl, hor⟩ => ⟨f, mem_cons_of_mem _ hf, hl, hor.imp id ?_⟩
      intro ⟨g, hg, hlt⟩
      obtain ⟨g', hg', hle⟩ := hstops g hg
      exact ⟨g', hg', lt_of_lt_of_le hlt hle⟩
  · have hknown := h.known D fun f hf => hpieces f (mem_cons_of_mem _ hf)
    unfold account
    by_cases hset : this.isLast = true ∧ a.totalLen = 0
    · rw [if_pos hset, hnotclipped D hpieces (hlast ▸ hset.1)]
      exact (hpieces p mem_cons_self).last.mp (hlast ▸ hset.1)
    rw [if_neg hset]
    obtain ⟨f, hf, hfl⟩ := hl
    rcases mem_cons.mp hf with rfl | hf
    · -- the total length was known before
      have hne : a.totalLen ≠ 0 := fun hzero => hset ⟨hlast ▸ hfl, hzero⟩
      obtain ⟨f', hf', hl', -⟩ := h.total.resolve_left hne
      exact hknown ⟨f', hf', hl'⟩
    · exact hknown ⟨f, hf, hfl⟩

/-! ## delivery -/

variable {pending : Key → List Packet} {table : Table} {l : Packet}

lemma Holds.getLast (h : Holds P a) (hl : a.fragments.getLast? = some l) :
    l ∈ a.fragments ∧ Ordered 0 a.fragments l.stop ∧ ∀ f ∈ P, f.stop ≤ l.stop := by
  have hmem : l ∈ a.fragments := mem_of_getLast? hl
  obtain ⟨m, hm⟩ := h.ordered
  have hbound := hm.le_last hl
  refine ⟨hmem, hm.upTo ?_ hbound, fun f hf => ?_⟩
  · have := hm.bounds hmem
    omega
  · obtain ⟨g, hg, hle⟩ := h.stops f hf
    exact hle.trans (hbound g hg)

lemma Holds.complete (h : Holds P a) (hD : Complete P D) :
    a.totalLen = D.length ∧ 0 < (D.length : Int) ∧ a.totalLen ≤ a.curLen ∧
      ∃ l, a.fragments.getLast? = some l ∧ l.stop = D.length := by
  have htotal := h.known D hD.pieces hD.last
  obtain ⟨f, hf, hlast⟩ := hD.last
  have hpiece := hD.pieces f hf
  have hstop := hpiece.last.mp hlast
  have hlt := hpiece.lt
  have hstart := (h.received f hf).start
  have hpos : 0 < (D.length : Int) := by omega
  obtain ⟨m, hm⟩ := h.ordered
  have hle : ∀ g ∈ a.fragments, g.stop ≤ D.length := by
    intro g hg
    obtain ⟨f, hf, hle⟩ := h.within g hg
    exact hle.trans (hD.pieces f hf).le
  have htiles : Tiles Packet.start Packet.stop 0 a.fragments D.length :=
    (hm.upTo hpos.le hle).tiles_of_covers fun x hx hx' => (h.covers x).mpr (hD.covers x hx hx')
  have hsum := htiles.sum
  have hlen : (a.fragments.map fun g => g.stop - g.start).sum ≤ (a.fragments.map (·.length)).sum := by
    refine sum_le_sum fun g hg => ?_
    rcases h.parts g hg with hw | hc
    · exact hw.1.ge
    · exact hc.length
  refine ⟨htotal, hpos, by rw [h.curLen]; omega, ?_⟩
  obtain ⟨g, hg, hge⟩ := h.stops f hf
  have hl := List.getLast?_eq_some_getLast (ne_nil_of_mem hg)
  obtain ⟨hmem, -, hends⟩ := h.getLast hl
  refine ⟨_, hl, le_antisymm (hle _ hmem) ?_⟩
  rw [← hstop]
  exact hends f hf

def concat (q : List Packet) : List UInt8 := q.flatMap (·.bytes)

lemma bytes_deliver (head : Option Head) (q : List Packet) :
    (Assembled.bytes ⟨head, (q.flatMap (·.blocks)).filter fun b => !b.isEmpty⟩) = concat q := by
  unfold Assembled.bytes concat
  rw [flatten_filter]
  induction q with
  | nil => rfl
  | cons f q ih =>
    rw [flatMap_cons, flatten_append, flatMap_cons, ih]
    rfl

lemma Holds.concat_right (h : Holds P a) (hl : a.fragments.getLast? = some l)
    (htotal : l.stop = a.totalLen) (hcur : a.totalLen ≤ a.curLen) (hne : a.totalLen ≠ 0)
    (hwhole : ∀ g ∈ a.fragments, ¬ g.IsCut) :
    EndsAt P (concat a.fragments).length ∧ ∀ i : Nat, i < (concat a.fragments).length →
      ∃ f ∈ P, f.start ≤ i ∧ i < f.stop ∧ (concat a.fragments)[i]? = f.bytes[(i - f.start).toNat]? := by
  obtain ⟨hmem, hord, hends⟩ := h.getLast hl
  have hparts : ∀ g ∈ a.fragments, Whole P g := fun g hg => (h.parts g hg).resolve_right fun hc => hwhole g hg hc.isCut
  have hsum : (a.fragments.map fun g => g.stop - g.start).sum = a.curLen := by
    rw [h.curLen]
    congr 1
    exact map_congr_left fun g hg => (hparts g hg).1.symm
  have htiles := hord.tiles_of_sum (by omega)
  obtain ⟨hlen, hbyte⟩ := htiles.flatMap (g := Packet.bytes) fun g hg => (hparts g hg).size h.received
  have hlen' : ((concat a.fragments).length : Int) = l.stop := by
    rw [Int.sub_zero] at hlen
    exact hlen
  refine ⟨?_, fun i hi => ?_⟩
  · rw [hlen']
    refine ⟨?_, hends⟩
    obtain ⟨f, hf, hlast, hor⟩ := h.total.resolve_left hne
    refine ⟨f, hf, hlast, ?_⟩
    rcases hor with heq | ⟨g, hg, hlt⟩
    · rw [heq, htotal]
    · have := (hord.bounds hg).2.2
      omega
  · obtain ⟨g, hg, h1, h2, h3⟩ := hbyte i (by omega) (by omega)
    obtain ⟨-, f, hf, h4, h5, h6, h7⟩ := hparts g hg
    refine ⟨f, hf, by omega, by omega, ?_⟩
    rw [Int.sub_zero, Int.toNat_natCast] at h3
    unfold concat
    rw [h3, h7, List.getElem?_drop]
    congr 1
    omega

lemma Holds.concat_short (h : Holds P a) (hl : a.fragments.getLast? = some l)
    (hcut : ∃ g ∈ a.fragments, g.IsCut) : ((concat a.fragments).length : Int) < l.stop := by
  obtain ⟨hmem, hord, -⟩ := h.getLast hl
  obtain ⟨g, hg, hgcut⟩ := hcut
  have hsize : ∀ g ∈ a.fragments, (g.bytes.length : Int) ≤ g.stop - g.start := by
    intro g hg
    rcases h.parts g hg with hw | hc
    · exact (hw.size h.received).le
    · have := hc.lt
      rw [hc.bytes, length_nil]
      omega
  have hlt : (a.fragments.map fun g => (g.bytes.length : Int)).sum < (a.fragments.map fun g => g.stop - g.start).sum :=
    sum_lt_sum _ _ hsize ⟨g, hg, lt_of_le_of_ne (hsize g hg) hgcut⟩
  have hlen : ((concat a.fragments).length : Int) = (a.fragments.map fun g => (g.bytes.length : Int)).sum := by
    unfold concat
    rw [List.length_flatMap, Nat.cast_list_sum, List.map_map]
    rfl
  have hle := hord.sum_le
  omega

lemma Holds.endsAt (h : Holds P a) (hl : a.fragments.getLast? = some l) {n : Int} (hn : EndsAt P n) : n = l.stop := by
  obtain ⟨hmem, -, hends⟩ := h.getLast hl
  obtain ⟨⟨f, hf, -, rfl⟩, hle⟩ := hn
  obtain ⟨g, hg, hge⟩ := h.within l hmem
  exact le_antisymm (hends f hf) (hge.trans (hle g hg))

/-- **a delivery is right exactly if no fragment of the queue is cut** -/
theorem Holds.right_iff (h : Holds P a) (hl : a.fragments.getLast? = some l)
    (htotal : l.stop = a.totalLen) (hcur : a.totalLen ≤ a.curLen) (hne : a.totalLen ≠ 0) :
    (EndsAt P (concat a.fragments).length ∧ ∀ i : Nat, i < (concat a.fragments).length →
      ∃ f ∈ P, f.start ≤ i ∧ i < f.stop ∧ (concat a.fragments)[i]? = f.bytes[(i - f.start).toNat]?) ↔
      ∀ g ∈ a.fragments, ¬ g.IsCut := by
  constructor
  · intro hright
    by_contra hcut
    simp only [not_forall, not_not, exists_prop] at hcut
    have hshort := h.concat_short hl hcut
    have := h.endsAt hl hright.1
    omega
  · exact h.concat_right hl htotal hcur hne

/-! ## one call -/

lemma Queued.intact_iff (h : Queued before removed rest p this a a') (hparts : Parts a.fragments before removed rest p)
    (hp : Fragment p) : (∀ g ∈ before ++ this :: rest, ¬ g.IsCut) ↔ Intact a.fragments p := by
  constructor
  · intro hwhole
    have hbefore : ∀ f ∈ before, ¬ f.IsCut := fun f hf => hwhole f (mem_append_left _ hf)
    have hrest : ∀ f ∈ rest, ¬ f.IsCut := fun f hf => hwhole f (mem_append_right _ (mem_cons_of_mem _ hf))
    refine ⟨fun f hf hcut => ?_, fun ⟨n, hn, h1, h2, h3, h4⟩ => ?_⟩
    · rcases hparts.cases hf with hb | hr | hr
      · exact absurd hcut (hbefore f hb)
      · exact hparts.removed f hr
      · exact absurd hcut (hrest f hr)
    · rcases hparts.cases hn with hb | hr | hr
      · have := hparts.before n hb
        omega
      · have := (hparts.removed n hr).2
        omega
      · rcases h.this with ⟨hfront, hapart⟩ | ⟨front, hfront, hclip⟩
        · have h5 := hapart n hr
          have h6 := hfront.stop
          omega
        · exact hwhole this (mem_append_right _ mem_cons_self)
            (Cut.isCut ⟨hclip.lt, hclip.length, hclip.bytes⟩)
  · intro ⟨hcut, hclips⟩ g hg hgcut
    have hmem {f : Packet} (hf : f ∈ before ∨ f ∈ rest) : f ∈ a.fragments := by
      rw [hparts.eq]
      rcases hf with hf | hf
      · exact mem_append_left _ hf
      · exact mem_append_right _ (mem_append_right _ hf)
    rcases mem_append.mp hg with hg | hg
    · have h1 := hcut g (hmem (.inl hg)) hgcut
      have h2 := hparts.before g hg
      omega
    rcases mem_cons.mp hg with rfl | hg
    · rcases h.this with ⟨hfront, -⟩ | ⟨front, hfront, hclip⟩
      · -- `p` without its head
        have hsize := hp.size
        have h1 := hfront.start
        have h2 := hfront.stop
        have h3 := hfront.le
        refine hgcut ?_
        rw [hfront.bytes, length_drop]
        omega
      · obtain ⟨n, hn, h1, h2, h3⟩ := hclip.next
        have hst := hfront.stop
        refine hclips ⟨n, hmem (.inr hn), (hparts.rest n hn).1, by omega, by omega, fun f hf hle => ?_⟩
        rcases hparts.cases hf with hb | hr | hr
        · have h4 := hfront.prev f hb
          have h5 := hclip.start
          have h6 := hclip.lt
          omega
        · have := (hparts.removed f hr).1
          omega
        · have := (hparts.rest f hr).1
          omega
    · have h1 := hcut g (hmem (.inr hg)) hgcut
      have h2 := (hparts.rest g hg).2
      omega

lemma deliver_cases (a : AssembleEntry) :
    (deliver a = (none, some a) ∧ ¬ (a.totalLen ≠ 0 ∧ a.totalLen ≤ a.curLen)) ∨
      (deliver a = (none, none) ∧ ∀ l, a.fragments.getLast? = some l → l.stop ≠ a.totalLen) ∨
      ∃ l r, deliver a = (some r, none) ∧ a.fragments.getLast? = some l ∧ l.stop = a.totalLen ∧
        a.totalLen ≠ 0 ∧ a.totalLen ≤ a.curLen ∧ r.bytes = concat a.fragments := by
  unfold deliver
  by_cases hfull : a.totalLen ≠ 0 ∧ a.totalLen ≤ a.curLen
  · rw [if_pos hfull]
    cases hl : a.fragments.getLast? with
    | none => exact .inr (.inl ⟨rfl, nofun⟩)
    | some l =>
      by_cases hstop : l.stop = a.totalLen
      · refine .inr (.inr ⟨l, _, if_neg (not_not.mpr hstop), rfl, hstop, hfull.1, hfull.2, bytes_deliver _ _⟩)
      · refine .inr (.inl ⟨if_pos hstop, fun l' hl' => ?_⟩)
        cases hl'
        exact hstop
  · exact .inl ⟨if_neg hfull, hfull⟩

lemma Complete.bytes_eq (h : Complete P D) (hP : ∀ f ∈ P, Fragment f) {bs : List UInt8} (hlen : bs.length = D.length)
    (hbyte : ∀ i : Nat, i < bs.length → ∃ f ∈ P, f.start ≤ i ∧ i < f.stop ∧
      bs[i]? = f.bytes[(i - f.start).toNat]?) : bs = D := by
  refine ext_getElem? fun i => ?_
  by_cases hi : i < bs.length
  · obtain ⟨f, hf, h1, h2, h3⟩ := hbyte i hi
    have h0 := (hP f hf).start
    rw [h3, (h.pieces f hf).bytes, List.getElem?_take_of_lt (by omega), List.getElem?_drop]
    congr 1
    omega
  · rw [List.getElem?_eq_none (by omega), List.getElem?_eq_none (by omega)]

/-- what is true of the table, where `pending` are the fragments of each packet that is being received -/
def TableInv (table : Table) (pending : Key → List Packet) : Prop :=
  ∀ key, (∀ f ∈ pending key, f.head.key = key) ∧
    match table key with
    | none => pending key = []
    | some a => Inv (pending key) a

def pendingAfter (table : Table) (pending : Key → List Packet) (p : Packet) : Key → List Packet :=
  Function.update pending p.head.key
    (if ((ip4Reassemble table p).2 p.head.key).isNone then [] else p :: pending p.head.key)

lemma TableInv.entry (h : TableInv table pending) (key : Key) :
    Inv (pending key) ((table key).getD ip4CreateAssembleEntry) := by
  have hkey := (h key).2
  cases htable : table key with
  | none =>
    rw [htable] at hkey
    rw [show pending key = [] from hkey]
    exact inv_create
  | some a =>
    rw [htable] at hkey
    exact hkey

lemma TableInv.update (h : TableInv table pending) {key : Key}
    {entry : Option AssembleEntry} {P : List Packet} (hP : ∀ f ∈ P, f.head.key = key)
    (hentry : match entry with
      | none => P = []
      | some a => Inv P a) :
    TableInv (Function.update table key entry) (Function.update pending key P) := by
  intro key'
  by_cases heq : key' = key
  · subst heq
    rw [update_self, update_self]
    exact ⟨hP, hentry⟩
  · rw [update_of_ne heq, update_of_ne heq]
    exact h key'

lemma ip4Reassemble_cases (hp : Fragment p) (h : Inv P ((table p.head.key).getD ip4CreateAssembleEntry)) :
    (∃ a, ip4Reassemble table p = (none, Function.update table p.head.key (some a)) ∧ Inv (p :: P) a) ∨
      (ip4Reassemble table p = (none, Function.update table p.head.key none) ∧ ∀ D, ¬ Complete (p :: P) D) ∨
      ∃ r, ip4Reassemble table p = (some r, Function.update table p.head.key none) ∧
        ((EndsAt (p :: P) r.bytes.length ∧ ∀ i : Nat, i < r.bytes.length → ∃ f ∈ p :: P, f.start ≤ i ∧ i < f.stop ∧
          r.bytes[i]? = f.bytes[(i - f.start).toNat]?) ↔ Intact (queue table p.head.key) p) := by
  obtain ⟨m, hm⟩ := h.ordered
  unfold ip4Reassemble queue
  rcases enqueue_cases hp hm with ⟨a', heq, hd⟩ | ⟨before, removed, rest, this, a', heq, hparts, hq⟩
  · simp only [heq]
    exact .inl ⟨a', rfl, h.dropped hp hd⟩
  simp only [heq]
  have hholds := h.toHolds.queued hp hparts hq
  rcases deliver_cases (account this a') with
    ⟨hd, hnot⟩ | ⟨hd, hfake⟩ | ⟨l, r, hd, hl, hstop, hne, hcur, hbytes⟩
  · refine .inl ⟨account this a', by rw [hd], hholds, fun D hD => hnot ?_⟩
    obtain ⟨htotal, hpos, hcur, -⟩ := hholds.complete hD
    exact ⟨by omega, hcur⟩
  · refine .inr (.inl ⟨by rw [hd], fun D hD => ?_⟩)
    obtain ⟨htotal, -, -, l, hl, hstop⟩ := hholds.complete hD
    exact hfake l hl (hstop.trans htotal.symm)
  · refine .inr (.inr ⟨r, by rw [hd], ?_⟩)
    rw [hbytes, hholds.right_iff hl hstop hcur hne, ← hq.intact_iff hparts hp]
    rw [hq.eq]
    rfl

/-- **one call**: it is sound exactly if it is fine, and the table stays right -/
theorem ip4Reassemble_sound (htable : TableInv table pending) (hp : Fragment p) :
    (Sound table (pending p.head.key) p ↔ Fine table p) ∧
      TableInv (ip4Reassemble table p).2 (pendingAfter table pending p) := by
  have hkeys : ∀ f ∈ p :: pending p.head.key, f.head.key = p.head.key :=
    forall_mem_cons.mpr ⟨rfl, (htable p.head.key).1⟩
  unfold pendingAfter
  rcases ip4Reassemble_cases hp (htable.entry p.head.key) with ⟨a, heq, hinv⟩ | ⟨heq, hno⟩ | ⟨r, heq, hiff⟩
  · refine ⟨iff_of_true ⟨fun r hr => ?_, fun D hD => absurd hD (hinv.incomplete D)⟩ fun hsome => ?_, ?_⟩
    · rw [heq] at hr
      cases hr
    · rw [heq] at hsome
      cases hsome
    · simp only [heq, update_self, isNone_some, Bool.false_eq_true, if_false]
      exact htable.update hkeys hinv
  · refine ⟨iff_of_true ⟨fun r hr => ?_, fun D hD => absurd hD (hno D)⟩ fun hsome => ?_, ?_⟩
    · rw [heq] at hr
      cases hr
    · rw [heq] at hsome
      cases hsome
    · simp only [heq, update_self, isNone_none, if_true]
      exact htable.update nofun rfl
  · refine ⟨⟨fun hsound _ => ?_, fun hfine => ?_⟩, ?_⟩
    · obtain ⟨hend, hbyte⟩ := hsound.payload r (by rw [heq])
      refine hiff.mp ⟨hend, fun i hi => ?_⟩
      obtain ⟨f, hf, -, hrest⟩ := hbyte i hi
      exact ⟨f, hf, hrest⟩
    · have hright := hiff.mpr (hfine (by rw [heq]; rfl))
      refine ⟨fun r' hr' => ?_, fun D hD => ⟨r, by rw [heq], ?_⟩⟩
      · rw [heq] at hr'
        cases hr'
        refine ⟨hright.1, fun i hi => ?_⟩
        obtain ⟨f, hf, hrest⟩ := hright.2 i hi
        exact ⟨f, hf, hkeys f hf, hrest⟩
      · -- the end of the pieces is the end of the datagram
        obtain ⟨⟨⟨f, hf, hlast, hstop⟩, -⟩, hbyte⟩ := hright
        have hend := (hD.pieces f hf).last.mp hlast
        exact hD.bytes_eq (forall_mem_cons.mpr ⟨hp, (htable.entry p.head.key).received⟩) (by omega) hbyte
    · simp only [heq, update_self, isNone_none, if_true]
      exact htable.update nofun rfl

/-! ## histories -/

def AllSound : List Packet → Table → (Key → List Packet) → Prop
  | [], _, _ => True
  | p :: ps, table, pending =>
    Sound table (pending p.head.key) p ∧ AllSound ps (ip4Reassemble table p).2 (pendingAfter table pending p)

def AllFine : List Packet → Table → Prop
  | [], _ => True
  | p :: ps, table => Fine table p ∧ AllFine ps (ip4Reassemble table p).2

lemma allSound_iff {ps : List Packet} (h : TableInv table pending)
    (hps : ∀ p ∈ ps, Fragment p) : AllSound ps table pending ↔ AllFine ps table := by
  induction ps generalizing table pending with
  | nil => exact Iff.rfl
  | cons p ps ih =>
    obtain ⟨hiff, hnext⟩ := ip4Reassemble_sound h (hps p mem_cons_self)
    exact and_congr hiff (ih hnext fun p hp => hps p (mem_cons_of_mem _ hp))

/-- **the reassembly over a history**: for every sequence of fragments that pass the checks, whatever is delivered
ends where the last fragment ends and has the bytes of the fragments of the same packet, and a datagram is
delivered as soon as its pieces cover it, if and only if no packet is delivered with a fragment in its queue that
was cut because it ended in the middle of one that was there before -/
theorem reassembly_history (ps : List Packet)
    (hps : ∀ p ∈ ps, ∃ head castType packet, ip4PreProcessPacket head castType packet = some (p, true)) :
    AllSound ps (fun _ => none) (fun _ => []) ↔ AllFine ps fun _ => none := by
  refine allSound_iff (fun key => ⟨nofun, rfl⟩) fun p hp => ?_
  obtain ⟨head, castType, packet, h⟩ := hps p hp
  exact fragment_of_preProcess h

def datagram : List UInt8 := (List.range 24).map UInt8.ofNat

def headOf (offset len : Nat) (more : Bool) : Head :=
  ⟨4, 5, 20 + len, (if more then 0x2000 else 0) + offset / 8, ⟨1, 2, 3, 17⟩, true, true⟩

def frameOf (offset len : Nat) : Blocks := [List.replicate 20 0, (datagram.drop offset).take len]

def pieceOf (offset len : Nat) (more : Bool) : Packet :=
  ⟨headOf offset len more, offset, offset + len, len, [[], (datagram.drop offset).take len]⟩

/-- bytes 8 to 24, and then bytes 0 to 16: what is delivered are the bytes 8 to 24 -/
theorem overlap_loses :
    ip4PreProcessPacket (headOf 8 16 false) 1 (frameOf 8 16) = some (pieceOf 8 16 false, true) ∧
      ip4PreProcessPacket (headOf 0 16 true) 1 (frameOf 0 16) = some (pieceOf 0 16 true, true) ∧
      (ip4Reassemble (ip4Reassemble (fun _ => none) (pieceOf 8 16 false)).2 (pieceOf 0 16 true)).1.map
        Assembled.bytes = some (datagram.drop 8) := by
  decide +kernel

theorem inOrder_history :
    (ip4Reassemble (ip4Reassemble (fun _ => none) (pieceOf 0 16 true)).2 (pieceOf 8 16 false)).1.map
        Assembled.bytes = some datagram ∧
      AllSound [pieceOf 0 16 true, pieceOf 8 16 false] (fun _ => none) fun _ => [] := by
  refine ⟨by decide +kernel, (reassembly_history _ fun p hp => ?_).mpr ⟨nofun, fun _ => ?_, trivial⟩⟩
  · rcases mem_cons.mp hp with rfl | hp
    · exact ⟨headOf 0 16 true, 1, frameOf 0 16, by decide +kernel⟩
    · rw [mem_singleton.mp hp]
      exact ⟨headOf 8 16 false, 1, frameOf 8 16, by decide +kernel⟩
  · -- the queue has the first piece only
    have hqueue : queue (ip4Reassemble (fun _ => none) (pieceOf 0 16 true)).2 (pieceOf 8 16 false).head.key =
        [pieceOf 0 16 true] := by decide +kernel
    refine ⟨fun f hf hcut => ?_, fun ⟨n, hn, hlt, _⟩ => ?_⟩
    · rw [mem_singleton.mp hf] at hcut
      exact absurd (by decide +kernel) hcut
    · rw [mem_singleton.mp hn] at hlt
      exact absurd hlt (by decide +kernel)

end Audk.Net.Ip4
