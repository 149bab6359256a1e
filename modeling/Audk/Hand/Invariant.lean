import Audk.Hand.Model
import Audk.Lib.Index

/-!
# Consistency of the handle and protocol database

`Inv` is the consistency of the database: the two lists in which an interface stands, one interface of a
protocol on a handle, the number of open records and who may open an interface together.

* `Inv.setProt_iff`: other open records for an interface;
* `Inv.insert`, `Inv.insert_iff`, `Inv.remove`: an interface comes and goes.
-/

namespace Audk.Hand

open List Function Option

/-! ## openers -/

/-- at most one `BY_DRIVER` record, at most one `EXCLUSIVE` record, and no other `BY_DRIVER` record beside
an `EXCLUSIVE` one -/
structure Openers (l : List OpenData) : Prop where
  driver : (l.filter (·.has byDriver)).length ≤ 1
  excl : (l.filter (·.has exclusive)).length ≤ 1
  apart : l.Pairwise fun r s =>
    ¬ (r.has exclusive ∧ s.has byDriver) ∧ ¬ (r.has byDriver ∧ s.has exclusive)

def OpenData.Manages (r : OpenData) : Prop := r.has byDriver ∨ r.has exclusive

variable {l : List OpenData} {r : OpenData}

lemma OpenData.manages_iff :
    r.Manages ↔ r.attributes &&& byDriver ≠ 0 ∨ r.attributes &&& exclusive ≠ 0 :=
  or_congr decide_eq_true_iff decide_eq_true_iff

lemma length_filter_le_one_iff (f : OpenData → Bool) (l : List OpenData) :
    (l.filter f).length ≤ 1 ↔ l.Pairwise fun r s => ¬ (f r ∧ f s) := by
  induction l with
  | nil => exact ⟨fun _ => List.Pairwise.nil, fun _ => Nat.zero_le 1⟩
  | cons r l ih =>
    rw [pairwise_cons, ← ih, filter_cons]
    by_cases hr : f r
    · rw [if_pos hr, length_cons]
      constructor
      · intro h
        have h0 : l.filter f = [] := length_eq_zero_iff.mp (by omega)
        refine ⟨?_, by omega⟩
        rintro s hs ⟨-, hfs⟩
        exact filter_eq_nil_iff.mp h0 s hs hfs
      · rintro ⟨h, -⟩
        have h0 : l.filter f = [] := filter_eq_nil_iff.mpr fun s hs hfs => h s hs ⟨hr, hfs⟩
        rw [h0, length_nil]
    · rw [if_neg hr]
      exact ⟨fun h => ⟨fun s _ hs => hr hs.1, h⟩, fun h => h.2⟩

lemma openers_iff : Openers l ↔ l.Pairwise fun r s => ¬ (r.Manages ∧ s.Manages) := by
  have e : Openers l ↔ (l.Pairwise fun r s => ¬ (r.has byDriver ∧ s.has byDriver)) ∧
      (l.Pairwise fun r s => ¬ (r.has exclusive ∧ s.has exclusive)) ∧
      l.Pairwise fun r s => ¬ (r.has exclusive ∧ s.has byDriver) ∧ ¬ (r.has byDriver ∧ s.has exclusive) := by
    rw [← length_filter_le_one_iff, ← length_filter_le_one_iff]
    exact ⟨fun h => ⟨h.driver, h.excl, h.apart⟩, fun h => ⟨h.1, h.2.1, h.2.2⟩⟩
  rw [e, ← pairwise_and_iff, ← pairwise_and_iff]
  constructor <;> intro h <;> refine h.imp ?_ <;> intro r s hrs
  · rintro ⟨hr | hr, hs | hs⟩
    · exact hrs.1 ⟨hr, hs⟩
    · exact hrs.2.2.2 ⟨hr, hs⟩
    · exact hrs.2.2.1 ⟨hr, hs⟩
    · exact hrs.2.1 ⟨hr, hs⟩
  · exact ⟨fun h => hrs ⟨.inl h.1, .inl h.2⟩, fun h => hrs ⟨.inr h.1, .inr h.2⟩,
      fun h => hrs ⟨.inr h.1, .inl h.2⟩, fun h => hrs ⟨.inl h.1, .inr h.2⟩⟩

lemma openers_nil : Openers [] := openers_iff.mpr List.Pairwise.nil

lemma Openers.filter (h : Openers l) (f : OpenData → Bool) : Openers (l.filter f) :=
  openers_iff.mpr ((openers_iff.mp h).filter f)

lemma openers_concat :
    Openers (l ++ [r]) ↔ Openers l ∧ (r.Manages → ∀ s ∈ l, ¬ s.Manages) := by
  rw [openers_iff, openers_iff, pairwise_append]
  constructor
  · rintro ⟨h, -, hr⟩
    exact ⟨h, fun hm s hs hs' => hr s hs r mem_cons_self ⟨hs', hm⟩⟩
  · rintro ⟨h, hr⟩
    refine ⟨h, pairwise_singleton _ r, ?_⟩
    rintro s hs t ht ⟨hs', ht'⟩
    cases mem_singleton.mp ht
    exact hr ht' s hs hs'

lemma openers_congr {l m : List OpenData} (h : l.map OpenData.attributes = m.map OpenData.attributes) :
    Openers l ↔ Openers m := by
  have e : ∀ l : List OpenData, Openers l ↔
      (l.map OpenData.attributes).Pairwise fun a b =>
        ¬ ((⟨0, 0, a, 0⟩ : OpenData).Manages ∧ (⟨0, 0, b, 0⟩ : OpenData).Manages) := by
    intro l
    rw [openers_iff, pairwise_map]
    exact Iff.rfl
  rw [e, e, h]

/-! ## the invariant -/

structure Interface.Ok (P : Interface) : Prop where
  counted : P.openListCount = P.openList.length
  openers : Openers P.openList

def Db.protocolsOf (db : Db) (h : Addr) : Option (List Addr) := (db.handle h).map (·.protocols)
def Db.handleOf (db : Db) (p : Addr) : Option Addr := (db.prot p).map (·.handle)
def Db.protocolOf (db : Db) (p : Addr) : Option Guid := (db.prot p).map (·.protocol)

def Carries (db : Db) (h : Addr) (g : Guid) : Prop := ∃ p P, db.prot p = some P ∧ P.handle = h ∧ P.protocol = g

structure Inv (db : Db) : Prop where
  nonempty : ∀ {h H}, db.handle h = some H → H.protocols ≠ []
  handles : Indexed db.protocolsOf db.handleOf
  entries : Indexed db.entry db.protocolOf
  single : ∀ {p q P Q}, db.prot p = some P → db.prot q = some Q → P.handle = Q.handle →
    P.protocol = Q.protocol → p = q
  ok : ∀ {p P}, db.prot p = some P → P.Ok

lemma inv_empty (image : Addr) : Inv (Db.empty image) where
  nonempty := nofun
  handles := ⟨nofun, nofun⟩
  entries := ⟨nofun, nofun⟩
  single := nofun
  ok := nofun

section
variable {db : Db} {h p : Addr} {g : Guid} {H : IHandle} {P : Interface}

lemma handleOf_setProt (db : Db) (p : Addr) (P : Option Interface) :
    (db.setProt p P).handleOf = Function.update db.handleOf p (P.map (·.handle)) := by
  funext q
  exact apply_update (fun _ o => Option.map Interface.handle o) db.prot p P q

lemma protocolOf_setProt (db : Db) (p : Addr) (P : Option Interface) :
    (db.setProt p P).protocolOf = Function.update db.protocolOf p (P.map (·.protocol)) := by
  funext q
  exact apply_update (fun _ o => Option.map Interface.protocol o) db.prot p P q

lemma protocolsOf_setHandle (db : Db) (h : Addr) (H : Option IHandle) :
    (db.setHandle h H).protocolsOf = Function.update db.protocolsOf h (H.map (·.protocols)) := by
  funext k
  exact apply_update (fun _ o => Option.map IHandle.protocols o) db.handle h H k

lemma prot_setProt_self (db : Db) (p : Addr) (P : Option Interface) : (db.setProt p P).prot p = P :=
  update_self ..

lemma prot_setProt_of_ne (db : Db) (P : Option Interface) {q : Addr} (hq : q ≠ p) :
    (db.setProt p P).prot q = db.prot q := update_of_ne hq ..

lemma protocolsOf_of_handle (hH : db.handle h = some H) : db.protocolsOf h = some H.protocols := by
  rw [Db.protocolsOf, hH]
  rfl

lemma handleOf_of_prot (hP : db.prot p = some P) : db.handleOf p = some P.handle := by
  rw [Db.handleOf, hP]
  rfl

lemma protocolOf_of_prot (hP : db.prot p = some P) : db.protocolOf p = some P.protocol := by
  rw [Db.protocolOf, hP]
  rfl

lemma Inv.listed (hi : Inv db) (hH : db.handle h = some H) (hp : p ∈ H.protocols) :
    ∃ P, db.prot p = some P ∧ P.handle = h := by
  have hk := hi.handles.keyed (protocolsOf_of_handle hH) hp
  obtain ⟨P, hP, e⟩ := map_eq_some_iff.mp hk
  exact ⟨P, hP, e⟩

lemma Inv.handle_of_carries (hi : Inv db) (hc : Carries db h g) : ∃ H, db.handle h = some H := by
  obtain ⟨p, P, hP, rfl, -⟩ := hc
  obtain ⟨l, hl, -⟩ := hi.handles.once (handleOf_of_prot hP)
  obtain ⟨H, hH, -⟩ := map_eq_some_iff.mp hl
  exact ⟨H, hH⟩

lemma Inv.entry_of_carries (hi : Inv db) (hc : Carries db h g) : ∃ l, db.entry g = some l := by
  obtain ⟨p, P, hP, -, rfl⟩ := hc
  obtain ⟨l, hl, -⟩ := hi.entries.once (protocolOf_of_prot hP)
  exact ⟨l, hl⟩

/-! ## edits of the database -/

lemma Inv.setProt_iff (hi : Inv db) (hP : db.prot p = some P) (P' : Interface)
    (hh : P'.handle = P.handle) (hg : P'.protocol = P.protocol) :
    Inv (db.setProt p (some P')) ↔ P'.Ok := by
  constructor
  · intro h
    exact h.ok (prot_setProt_self db p (some P'))
  · intro hok
    have hhandle : (db.setProt p (some P')).handleOf = db.handleOf := by
      rw [handleOf_setProt, map_some, hh, ← handleOf_of_prot hP, update_eq_self]
    have hprotocol : (db.setProt p (some P')).protocolOf = db.protocolOf := by
      rw [protocolOf_setProt, map_some, hg, ← protocolOf_of_prot hP, update_eq_self]
    -- an interface of the new database has the handle and the protocol of the one it was
    have old : ∀ {q Q}, (db.setProt p (some P')).prot q = some Q →
        ∃ Q', db.prot q = some Q' ∧ Q.handle = Q'.handle ∧ Q.protocol = Q'.protocol := by
      intro q Q hQ
      by_cases e : q = p
      · subst e
        rw [prot_setProt_self] at hQ
        cases hQ
        exact ⟨P, hP, hh, hg⟩
      · rw [prot_setProt_of_ne _ _ e] at hQ
        exact ⟨Q, hQ, rfl, rfl⟩
    exact {
      nonempty := hi.nonempty
      handles := by
        rw [hhandle]
        exact hi.handles
      entries := by
        rw [hprotocol]
        exact hi.entries
      single := by
        intro q r Q R hQ hR e1 e2
        obtain ⟨Q', hQ', h1, h2⟩ := old hQ
        obtain ⟨R', hR', h3, h4⟩ := old hR
        exact hi.single hQ' hR' (by rw [← h1, ← h3, e1]) (by rw [← h2, ← h4, e2])
      ok := by
        intro q Q hQ
        by_cases e : q = p
        · subst e
          rw [prot_setProt_self] at hQ
          cases hQ
          exact hok
        · rw [prot_setProt_of_ne _ _ e] at hQ
          exact hi.ok hQ }

lemma Inv.setEntry (hi : Inv db) (hg : db.entry g = none) : Inv (db.setEntry g []) where
  nonempty := hi.nonempty
  handles := hi.handles
  entries := hi.entries.opened hg
  single := hi.single
  ok := hi.ok

variable {l : List Addr} {i : Addr}

/-- an interface on a handle whose list, perhaps a new one, has none of the protocol -/
lemma Inv.insert (hi : Inv db)
    (hH : Indexed (Function.update db.protocolsOf h (some H.protocols)) db.handleOf)
    (hl : db.entry g = some l) (hp : db.prot p = none) (hc : ¬ Carries db h g) :
    Inv (insertInterface h H g l i p db) where
  nonempty := by
    intro k K hK
    by_cases e : k = h
    · subst e
      rw [show (insertInterface k H g l i p db).handle k = some { H with protocols := p :: H.protocols } from
        update_self ..] at hK
      cases hK
      exact cons_ne_nil _ _
    · rw [show (insertInterface h H g l i p db).handle k = db.handle k from update_of_ne e ..] at hK
      exact hi.nonempty hK
  handles := by
    have hnone : db.handleOf p = none := by rw [Db.handleOf, hp]; rfl
    have := hH.insert hnone (update_self ..) (List.Perm.refl (p :: H.protocols))
    rw [update_idem] at this
    show Indexed (((db.setProt p _).setHandle h _).protocolsOf) ((db.setProt p _).handleOf)
    rw [protocolsOf_setHandle, handleOf_setProt]
    exact this
  entries := by
    have hnone : db.protocolOf p = none := by rw [Db.protocolOf, hp]; rfl
    have hperm : (l ++ [p]).Perm (p :: l) := perm_append_comm
    have := hi.entries.insert hnone hl hperm
    show Indexed (Function.update db.entry g (some (l ++ [p]))) ((db.setProt p _).protocolOf)
    rw [protocolOf_setProt]
    exact this
  single := by
    intro q r Q R hQ hR e1 e2
    change (db.setProt p _).prot q = some Q at hQ
    change (db.setProt p _).prot r = some R at hR
    by_cases eq : q = p
    · by_cases er : r = p
      · rw [eq, er]
      · subst eq
        rw [prot_setProt_self] at hQ
        rw [prot_setProt_of_ne _ _ er] at hR
        cases hQ
        exact absurd ⟨r, R, hR, e1.symm, e2.symm⟩ hc
    · rw [prot_setProt_of_ne _ _ eq] at hQ
      by_cases er : r = p
      · subst er
        rw [prot_setProt_self] at hR
        cases hR
        exact absurd ⟨q, Q, hQ, e1, e2⟩ hc
      · rw [prot_setProt_of_ne _ _ er] at hR
        exact hi.single hQ hR e1 e2
  ok := by
    intro q Q hQ
    change (db.setProt p _).prot q = some Q at hQ
    by_cases e : q = p
    · subst e
      rw [prot_setProt_self] at hQ
      cases hQ
      exact ⟨rfl, openers_nil⟩
    · rw [prot_setProt_of_ne _ _ e] at hQ
      exact hi.ok hQ

lemma Inv.insert_iff (hi : Inv db) (hH : db.handle h = some H)
    (hl : db.entry g = some l) (hp : db.prot p = none) :
    Inv (insertInterface h H g l i p db) ↔ ¬ Carries db h g := by
  constructor
  · rintro hi' ⟨q, Q, hQ, hh, hg⟩
    have hqp : q ≠ p := by
      rintro rfl
      rw [hp] at hQ
      cases hQ
    have hnew : (insertInterface h H g l i p db).prot p = some ⟨h, g, i, [], 0⟩ := update_self ..
    have hold : (insertInterface h H g l i p db).prot q = some Q := by
      rw [← hQ]
      exact update_of_ne hqp ..
    exact hqp (hi'.single hold hnew hh hg)
  · intro hc
    apply hi.insert _ hl hp hc
    rw [← protocolsOf_of_handle hH, update_eq_self]
    exact hi.handles

/-- an interface out of the database, and its handle with the last one -/
lemma Inv.remove (hi : Inv db) (hH : db.handle h = some H) (hP : db.prot p = some P)
    (hh : P.handle = h) : Inv (removeInterface h H p P db) := by
  subst hh
  obtain ⟨l, hl, -⟩ := hi.entries.once (protocolOf_of_prot hP)
  have hhandles := hi.handles.erase (handleOf_of_prot hP) (protocolsOf_of_handle hH)
  have hentries := hi.entries.erase (protocolOf_of_prot hP) hl
  have old : ∀ {q Q}, (removeInterface P.handle H p P db).prot q = some Q → db.prot q = some Q := by
    intro q Q hQ
    change (db.setProt p none).prot q = some Q at hQ
    by_cases e : q = p
    · subst e
      rw [prot_setProt_self] at hQ
      cases hQ
    · rw [prot_setProt_of_ne _ _ e] at hQ
      exact hQ
  exact {
    nonempty := by
      intro k K hK
      change Function.update db.handle P.handle (if H.protocols.erase p = [] then none else some _) k = some K at hK
      by_cases e : k = P.handle
      · subst e
        rw [update_self] at hK
        split at hK
        · cases hK
        · next hne =>
          cases hK
          exact hne
      · rw [update_of_ne e] at hK
        exact hi.nonempty hK
    handles := by
      show Indexed ((db.setHandle P.handle _).protocolsOf) ((db.setProt p none).handleOf)
      rw [protocolsOf_setHandle, handleOf_setProt]
      by_cases hnil : H.protocols.erase p = []
      · rw [if_pos hnil]
        rw [hnil] at hhandles
        have := hhandles.closed (update_self ..)
        rw [update_idem] at this
        exact this
      · rw [if_neg hnil]
        exact hhandles
    entries := by
      show Indexed (Function.update db.entry P.protocol (some (((db.entry P.protocol).getD []).erase p)))
        ((db.setProt p none).protocolOf)
      rw [protocolOf_setProt, hl]
      exact hentries
    single := fun hQ hR => hi.single (old hQ) (old hR)
    ok := fun hQ => hi.ok (old hQ) }

end

end Audk.Hand
