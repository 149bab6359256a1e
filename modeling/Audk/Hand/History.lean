import Audk.Hand.Invariant

/-!
# The handle and protocol database stays consistent

Every operation keeps the database consistent up to the first release of the lock (`start_holds`).  What it
does when it takes the lock again rests on checks it made before.  `Fine` says what must still hold of
them then, and `resume_holds` that the rest of the operation keeps the database consistent in exactly
that case.

* `openRecord_holds`, `openExclusive_holds`, `disconnect_holds`, `installLocked_holds`: the later sections;
* `database_history`: any history of operations, interrupted by one another.
-/

namespace Audk.Hand

open Sections Machine List Function Option

/-! ## outcomes -/

section
variable {db : Db} {Φ : Db → Prop}

lemma holds_finish {r : Result} : Holds Φ (finish r db) ↔ Φ db := holds_some
lemma holds_fail {st : Status} : Holds Φ (fail st db) ↔ Φ db := holds_some
lemma holds_release {k : Pending} : Holds Φ (release k db) ↔ Φ db := holds_some

variable {h p : Addr} {g : Guid} {i : Addr} {H : IHandle} {P : Interface} {e : Env}

/-! ## searches -/

lemma coreGetProtocolInterface_some (hs : coreGetProtocolInterface db H g = some p) :
    p ∈ H.protocols ∧ ∃ P, db.prot p = some P ∧ P.protocol = g := by
  refine ⟨mem_of_find?_eq_some hs, ?_⟩
  have hp := List.find?_some hs
  rcases hP : db.prot p with _ | P
  · rw [hP] at hp
    cases hp
  · rw [hP] at hp
    exact ⟨P, rfl, of_decide_eq_true hp⟩

lemma coreFindProtocolInterface_some (hs : coreFindProtocolInterface db H g i = some p) : p ∈ H.protocols := by
  unfold coreFindProtocolInterface at hs
  split at hs
  · exact mem_of_find?_eq_some hs
  · cases hs

lemma coreValidateHandle_true (hv : coreValidateHandle db h) : ∃ H, db.handle h = some H :=
  isSome_iff_exists.mp (of_decide_eq_true hv).2

/-! ## open records -/

lemma Interface.Ok.filterOpen (hP : P.Ok) (keep : OpenData → Bool) : (P.filterOpen keep).Ok where
  counted := by
    show P.openListCount - _ = _
    rw [hP.counted, length_eq_length_filter_add keep, Nat.add_sub_cancel]
    rfl
  openers := hP.openers.filter keep

variable {image controller : Addr} {attributes : Nat} {l : List OpenData} {a : OpenArgs}

lemma scan_passed {before l : List OpenData} {d x d' x' : Bool} (hs : scan a before d x l = .passed d' x') :
    d' = (d || l.any (·.has byDriver)) ∧ x' = (x || l.any (·.has exclusive)) := by
  induction l generalizing before d x with
  | nil =>
    cases hs
    exact ⟨(Bool.or_false _).symm, (Bool.or_false _).symm⟩
  | cons r l ih =>
    rw [scan] at hs
    split at hs
    · cases hs
    · split at hs
      · cases hs
      · obtain ⟨h1, h2⟩ := ih hs
        rw [List.any_cons, List.any_cons, ← Bool.or_assoc, ← Bool.or_assoc]
        exact ⟨h1, h2⟩

lemma scan_counted {before l m : List OpenData} {d x : Bool} (hs : scan a before d x l = .counted m) :
    m.map OpenData.attributes = (before ++ l).map OpenData.attributes := by
  induction l generalizing before d x with
  | nil => cases hs
  | cons r l ih =>
    rw [scan] at hs
    split at hs
    · cases hs
    · split at hs
      · cases hs
        rw [map_append, map_append, map_cons, map_cons]
      · rw [ih hs, append_assoc]
        rfl

lemma Inv.counted (hi : Inv db) (hP : db.prot p = some P)
    (hl : l.map OpenData.attributes = P.openList.map OpenData.attributes) :
    Inv (db.setProt p (some { P with openList := l })) := by
  apply (hi.setProt_iff hP { P with openList := l } rfl rfl).mpr
  refine ⟨?_, (openers_congr hl).mpr (hi.ok hP).openers⟩
  rw [(hi.ok hP).counted]
  have := congrArg List.length hl
  rw [length_map, length_map] at this
  exact this.symm

lemma openRecord_holds (hi : Inv db) (hP : db.prot p = some P) :
    Holds Inv (openRecord image controller attributes p P e db) ↔
      (image ≠ 0 → e.openData → (⟨image, controller, attributes, 1⟩ : OpenData).Manages →
        ∀ r ∈ P.openList, ¬ r.Manages) := by
  unfold openRecord
  by_cases h0 : image = 0
  · rw [if_pos h0, holds_finish]
    exact ⟨fun _ hn => absurd h0 hn, fun _ => hi⟩
  rw [if_neg h0]
  by_cases he : e.openData
  · rw [if_neg (not_not_intro he), holds_finish, hi.setProt_iff hP (P.addOpen _) rfl rfl]
    have hok := hi.ok hP
    constructor
    · intro h' _ _
      exact (openers_concat.mp h'.openers).2
    · intro hm
      refine ⟨?_, openers_concat.mpr ⟨hok.openers, hm h0 he⟩⟩
      show P.openListCount + 1 = (P.openList ++ [_]).length
      rw [hok.counted, length_append]
      rfl
  · rw [if_pos he, holds_fail]
    exact ⟨fun _ _ h => absurd h he, fun _ => hi⟩

lemma manages_of_exclusive (ha : attributes = exclusive ∨ attributes = byDriver + exclusive) :
    (⟨image, controller, attributes, 1⟩ : OpenData).Manages := by
  have hx : attributes &&& exclusive ≠ 0 := by
    rcases ha with rfl | rfl <;> decide
  exact OpenData.manages_iff.mpr (.inr hx)

/-- an exclusive open, from the test for a driver on: nobody else may have become exclusive -/
lemma openExclusive_holds (hi : Inv db) (ha : attributes = exclusive ∨ attributes = byDriver + exclusive) :
    Holds Inv (openExclusive p image controller attributes ha e db) ↔
      ∃ P, db.prot p = some P ∧ ((∀ r ∈ P.openList, ¬ r.has byDriver) → image ≠ 0 → e.openData →
        ∀ r ∈ P.openList, ¬ r.has exclusive) := by
  unfold openExclusive
  split
  · next hP =>
    refine ⟨fun h => absurd h not_holds_none, ?_⟩
    rintro ⟨P, hP', -⟩
    rw [hP] at hP'
    cases hP'
  · next P hP =>
    simp only [hP, Option.some.injEq, exists_eq_left']
    split
    · next r hr =>
      refine ⟨fun _ hn => absurd (List.find?_some hr) (hn r (mem_of_find?_eq_some hr)), fun _ => ?_⟩
      rw [holds_release]
      exact hi
    next hnone =>
    have hn : ∀ r ∈ P.openList, ¬ r.has byDriver := List.find?_eq_none.mp hnone
    rw [openRecord_holds hi hP]
    constructor
    · intro hm _ h0 he r hr hx
      exact hm h0 he (manages_of_exclusive ha) r hr (.inr hx)
    · intro hx h0 he _ r hr hm
      rcases hm with hd | hx'
      · exact hn r hr hd
      · exact hx hn h0 he r hr hx'

lemma not_any {f : OpenData → Bool} (h : ¬ l.any f) : ∀ r ∈ l, ¬ f r := by
  intro r hr hf
  exact h (any_eq_true.mpr ⟨r, hr, hf⟩)

lemma openPassed_holds (hi : Inv db) (hP : db.prot p = some P) (hv : a.valid db) :
    Holds Inv (openPassed a p P (P.openList.any (·.has byDriver)) (P.openList.any (·.has exclusive)) e db) := by
  unfold openPassed
  split
  · split
    · rw [holds_fail]
      exact hi
    · next hno =>
      rw [openRecord_holds hi hP]
      intro _ _ _ r hr hm
      rcases hm with hd | hx
      · exact not_any (fun h => hno (.inr h)) r hr hd
      · exact not_any (fun h => hno (.inl h)) r hr hx
  · next hd =>
    split
    · next ha =>
      split
      · rw [holds_fail]
        exact hi
      next hx =>
      split
      · rw [openExclusive_holds hi]
        exact ⟨P, hP, fun _ _ _ => not_any hx⟩
      next hdr =>
      rw [openRecord_holds hi hP]
      intro _ _ _ r hr hm
      rcases hm with hd' | hx'
      · exact not_any hdr r hr hd'
      · exact not_any hx r hr hx'
    · next ha =>
      -- the other attributes have neither bit
      rw [openRecord_holds hi hP]
      intro _ _ hm
      exfalso
      unfold OpenArgs.valid at hv
      rw [not_or] at ha
      rw [if_neg (not_or.mpr ⟨hd, ha.2⟩), if_neg ha.1] at hv
      have hcases : a.attributes = byChildController ∨ a.attributes = byHandleProtocol ∨
          a.attributes = getProtocol ∨ a.attributes = testProtocol := by
        by_cases hc : a.attributes = byChildController
        · exact .inl hc
        · rw [if_neg hc] at hv
          exact .inr (of_decide_eq_true hv)
      have hno : ∀ n, n = byChildController ∨ n = byHandleProtocol ∨ n = getProtocol ∨ n = testProtocol →
          ¬ (n &&& byDriver ≠ 0 ∨ n &&& exclusive ≠ 0) := by
        rintro n (rfl | rfl | rfl | rfl) <;> decide
      exact hno _ hcases (OpenData.manages_iff.mp hm)

lemma coreOpenProtocol_holds (a : OpenArgs) (e : Env) (hi : Inv db) : Holds Inv (coreOpenProtocol a e db) := by
  unfold coreOpenProtocol
  split
  · rw [holds_fail]
    exact hi
  next g _ =>
  split
  · rw [holds_fail]
    exact hi
  split
  · rw [holds_fail]
    exact hi
  next hv =>
  obtain ⟨H, hH⟩ := coreValidateHandle_true (not_not.mp hv)
  split
  · rw [holds_fail]
    exact hi
  next hvalid =>
  rw [hH]
  dsimp only
  split
  · rw [holds_finish]
    exact hi
  next p hp =>
  obtain ⟨-, P, hP, -⟩ := coreGetProtocolInterface_some hp
  rw [hP]
  dsimp only
  split
  · rw [holds_finish]
    exact hi
  · next l hl =>
    rw [holds_finish]
    exact hi.counted hP (scan_counted hl)
  · next d x hdx =>
    obtain ⟨rfl, rfl⟩ := scan_passed hdx
    exact openPassed_holds hi hP (not_not.mp hvalid)

lemma coreCloseProtocol_holds (a : CloseArgs) (hi : Inv db) : Holds Inv (coreCloseProtocol a db) := by
  unfold coreCloseProtocol
  split
  · rw [holds_fail]
    exact hi
  next hv =>
  obtain ⟨H, hH⟩ := coreValidateHandle_true (not_not.mp hv)
  split
  · rw [holds_fail]
    exact hi
  split
  · rw [holds_fail]
    exact hi
  rw [hH]
  split
  · rw [holds_fail]
    exact hi
  · next h => cases h
  next g H' _ heq =>
  cases heq
  split
  · rw [holds_fail]
    exact hi
  · next p hp =>
    obtain ⟨-, P, hP, -⟩ := coreGetProtocolInterface_some hp
    rw [hP]
    rw [holds_finish, hi.setProt_iff hP (P.filterOpen a.keeps) rfl rfl]
    exact (hi.ok hP).filterOpen a.keeps

/-! ## install -/

lemma newProt_some {q : Addr} (hq : e.newProt db = some q) : db.prot q = none := by
  have := (filter_eq_some_iff.mp hq).2
  exact isNone_iff_eq_none.mp (of_decide_eq_true this).2

lemma newHandle_some {k : Addr} (hk : e.newHandle db = some k) : db.handle k = none := by
  have := (filter_eq_some_iff.mp hk).2
  exact isNone_iff_eq_none.mp (of_decide_eq_true this).2

/-- with the protocol entry found: no interface of the protocol may have come to the handle -/
lemma installAt_holds {l : List Addr} (hi : Inv db) (hl : db.entry g = some l) :
    Holds Inv (installAt h g l i e db) ↔ (h ≠ 0 → (e.newProt db).isSome → ¬ Carries db h g) := by
  unfold installAt
  split
  · next hp =>
    rw [holds_fail, hp]
    exact ⟨fun _ _ hs => absurd hs Bool.false_ne_true, fun _ => hi⟩
  next p hp =>
  have hfree := newProt_some hp
  split
  · next h0 =>
    refine ⟨fun _ hn => absurd h0 hn, fun _ => ?_⟩
    split
    · rw [holds_fail]
      exact hi
    next k hk =>
    have hknone : db.protocolsOf k = none := by rw [Db.protocolsOf, newHandle_some hk]; rfl
    rw [holds_finish]
    have hi' : Inv { db with gHandleDatabaseKey := (db.gHandleDatabaseKey + 1) % 2^64 } :=
      ⟨hi.nonempty, hi.handles, hi.entries, hi.single, hi.ok⟩
    refine hi'.insert (hi.handles.opened hknone) hl hfree ?_
    intro hc
    obtain ⟨K, hK⟩ := hi'.handle_of_carries hc
    rw [newHandle_some hk] at hK
    cases hK
  · next h0 =>
    split
    · next hH =>
      rw [holds_fail]
      refine ⟨fun _ _ _ hc => ?_, fun _ => hi⟩
      obtain ⟨K, hK⟩ := hi.handle_of_carries hc
      rw [hH] at hK
      cases hK
    · next H hH =>
      rw [holds_finish, hi.insert_iff hH hl hfree, hp]
      exact ⟨fun hc _ _ => hc, fun hc => hc h0 rfl⟩

lemma installLocked_holds {st : Status} (hi : Inv db) :
    Holds Inv (installLocked h g i st e db) ↔ (h ≠ 0 → (e.newProt db).isSome → ¬ Carries db h g) := by
  unfold installLocked
  split
  · next l hl => exact installAt_holds hi hl
  next hl =>
  -- without an entry no handle has the protocol
  have hno : ¬ Carries db h g := by
    intro hc
    obtain ⟨l, hl'⟩ := hi.entry_of_carries hc
    rw [hl] at hl'
    cases hl'
  split
  · exact installAt_holds (hi.setEntry hl) (update_self ..)
  · rw [holds_fail]
    exact ⟨fun _ _ _ => hno, fun _ => hi⟩

lemma coreInstallProtocolInterface_holds (a : InstallArgs) (e : Env) (hi : Inv db) :
    Holds Inv (coreInstallProtocolInterface a e db) := by
  unfold coreInstallProtocolInterface
  split
  · next h g _ _ =>
    split
    · rw [holds_fail]
      exact hi
    split
    · rw [installLocked_holds hi]
      exact fun h0 => absurd rfl h0
    obtain ⟨⟨t, db'⟩, hx, hi'⟩ := coreOpenProtocol_holds
      ⟨h, some g, true, db.gImageHandle, 0, byHandleProtocol⟩ e hi
    rw [coreHandleProtocol, hx]
    split
    · next heq =>
      cases heq
      rw [holds_release]
      exact hi'
    · next heq =>
      cases heq
      rw [holds_fail]
      exact hi'
    · next heq => cases heq
  · rw [holds_fail]
    exact hi

/-! ## uninstall -/

/-- after the drivers were stopped: the handle must not have been freed -/
lemma uninstallStopped_holds (hi : Inv db) : Holds Inv (uninstallStopped h g i db) ↔ (db.handle h).isSome := by
  unfold uninstallStopped
  split
  · next hH =>
    rw [hH]
    exact ⟨fun hx => absurd hx not_holds_none, fun hs => absurd hs Bool.false_ne_true⟩
  next H hH =>
  rw [hH]
  refine ⟨fun _ => rfl, fun _ => ?_⟩
  split
  · have hsame : freeHandle h H db = db := by
      unfold freeHandle Db.setHandle
      rw [if_neg (hi.nonempty hH), ← hH, update_eq_self]
    rw [holds_finish, hsame]
    exact hi
  · next p hp =>
    obtain ⟨P, hP, hh⟩ := hi.listed hH (coreFindProtocolInterface_some hp)
    rw [hP]
    rw [holds_finish]
    exact hi.remove hH hP hh

/-- from the test for a driver on: the interface must be there, and the handle if nobody has it open -/
lemma disconnect_holds (hi : Inv db) :
    Holds Inv (disconnect h g i p db) ↔
      ∃ P, db.prot p = some P ∧ ((∀ r ∈ P.openList, ¬ r.has byDriver ∧ ¬ remains r) → (db.handle h).isSome) := by
  unfold disconnect
  split
  · next hP =>
    refine ⟨fun h => absurd h not_holds_none, ?_⟩
    rintro ⟨P, hP', -⟩
    rw [hP] at hP'
    cases hP'
  · next P hP =>
    simp only [hP, Option.some.injEq, exists_eq_left']
    split
    · next r hr =>
      refine ⟨fun _ hn => absurd (List.find?_some hr) (hn r (mem_of_find?_eq_some hr)).1, fun _ => ?_⟩
      rw [holds_release]
      exact hi
    next hnone =>
    have hn : ∀ r ∈ P.openList, ¬ r.has byDriver := List.find?_eq_none.mp hnone
    have hok := (hi.ok hP).filterOpen remains
    have hi' := (hi.setProt_iff hP (P.filterOpen remains) rfl rfl).mpr hok
    have hcount : (P.filterOpen remains).openListCount > 0 ↔ ∃ r ∈ P.openList, remains r := by
      rw [hok.counted]
      show 0 < (P.openList.filter remains).length ↔ _
      rw [length_pos_iff_exists_mem]
      exact ⟨fun ⟨r, hr⟩ => ⟨r, mem_filter.mp hr⟩, fun ⟨r, hr⟩ => ⟨r, mem_filter.mpr hr⟩⟩
    split
    · next hc =>
      obtain ⟨r, hr, hrem⟩ := hcount.mp hc
      rw [holds_release]
      exact ⟨fun _ hno => absurd hrem (hno r hr).2, fun _ => hi'⟩
    · next hc =>
      have hnone' : ∀ r ∈ P.openList, ¬ r.has byDriver ∧ ¬ remains r :=
        fun r hr => ⟨hn r hr, fun hrem => hc (hcount.mpr ⟨r, hr, hrem⟩)⟩
      rw [uninstallStopped_holds hi']
      exact ⟨fun hs _ => hs, fun hs => hs hnone'⟩

lemma coreUninstallProtocolInterface_holds (a : UninstallArgs) (hi : Inv db) :
    Holds Inv (coreUninstallProtocolInterface a db) := by
  unfold coreUninstallProtocolInterface
  split
  · rw [holds_fail]
    exact hi
  next g _ =>
  split
  · rw [holds_fail]
    exact hi
  next hv =>
  obtain ⟨H, hH⟩ := coreValidateHandle_true (not_not.mp hv)
  rw [hH]
  dsimp only
  split
  · rw [holds_fail]
    exact hi
  · next p hp =>
    obtain ⟨P, hP, -⟩ := hi.listed hH (coreFindProtocolInterface_some hp)
    rw [disconnect_holds hi, hH]
    exact ⟨P, hP, fun _ => rfl⟩

end

/-! ## histories -/

lemma start_holds (o : Op) (e : Env) (db : Db) (hi : Inv db) : Holds Inv (start o e db) := by
  cases o with
  | install a => exact coreInstallProtocolInterface_holds a e hi
  | uninstall a => exact coreUninstallProtocolInterface_holds a hi
  | openProtocol a => exact coreOpenProtocol_holds a e hi
  | closeProtocol a => exact coreCloseProtocol_holds a hi

/-- what an operation relies on when it takes the lock again -/
def Fine : Pending → Env → Db → Prop
  | .install h g _ _, e, db => h ≠ 0 → (e.newProt db).isSome → ¬ Carries db h g
  | .opening p _ image _ _ _, e, db => e.disconnected →
    ∃ P, db.prot p = some P ∧ ((∀ r ∈ P.openList, ¬ r.has byDriver) → image ≠ 0 → e.openData →
      ∀ r ∈ P.openList, ¬ r.has exclusive)
  | .uninstall h _ _ p _, e, db => e.disconnected →
    ∃ P, db.prot p = some P ∧ ((∀ r ∈ P.openList, ¬ r.has byDriver ∧ ¬ remains r) → (db.handle h).isSome)
  | .reconnect, _, _ => True

lemma resume_holds (k : Pending) (e : Env) (db : Db) (hi : Inv db) : Holds Inv (resume k e db) ↔ Fine k e db := by
  cases k with
  | install h g i st => exact installLocked_holds hi
  | opening p agent image controller attributes ha =>
    show Holds Inv (if _ then _ else _) ↔ (e.disconnected → _)
    split
    · next he =>
      rw [openExclusive_holds hi]
      exact ⟨fun h _ => h, fun h => h he⟩
    · next he =>
      rw [holds_fail]
      exact ⟨fun _ h => absurd h he, fun _ => hi⟩
  | uninstall h g i p agent =>
    show Holds Inv (if _ then _ else _) ↔ (e.disconnected → _)
    split
    · next he =>
      rw [disconnect_holds hi]
      exact ⟨fun h _ => h, fun h => h he⟩
    · next he =>
      rw [holds_release]
      exact ⟨fun _ h => absurd h he, fun _ => hi⟩
  | reconnect => exact ⟨fun _ => trivial, fun _ => holds_fail.mpr hi⟩

/-- For every history of installs, uninstalls, opens and closes, each of which may be interrupted by others
while it has released the lock: the database is consistent throughout if and only if each operation
finds what it relies on when it takes the lock again. -/
theorem database_history {db : Db} (hi : Inv db) (ks : List Pending) (events : List (Event Op Env)) :
    machine.AllHold Inv events (db, ks) ↔ machine.AllFine Fine events (db, ks) :=
  allHold_iff_allFine start_holds resume_holds hi

/-- the pool has blocks for an interface and a handle at these addresses -/
def blocks (p h : Addr) : Env := ⟨true, true, some p, some h, true⟩

def newHandle (g : Guid) (p h : Addr) : Event Op Env := .call (.install ⟨some 0, some g, true, 100⟩) (blocks p h)

/-- a controller with protocol `7`, a driver that manages it and an application; the application asks for
exclusive access, and the driver is being stopped -/
def stopping : List (Event Op Env) :=
  [newHandle 7 1 11, newHandle 8 2 12, newHandle 9 3 13,
    .call (.openProtocol ⟨11, some 7, true, 12, 11, byDriver⟩) (blocks 0 0),
    .call (.openProtocol ⟨11, some 7, true, 13, 0, exclusive⟩) (blocks 0 0),
    .call (.closeProtocol ⟨11, some 7, 12, 11⟩) (blocks 0 0)]

theorem stopping_history : machine.AllHold Inv (stopping ++ [.resume (blocks 0 0)]) (Db.empty 13, []) := by
  apply (database_history (inv_empty 13) [] _).mpr
  refine ⟨trivial, fun c hc => ?_⟩
  obtain rfl : _ = c := Option.some.inj hc
  refine ⟨trivial, fun c hc => ?_⟩
  obtain rfl : _ = c := Option.some.inj hc
  refine ⟨trivial, fun c hc => ?_⟩
  obtain rfl : _ = c := Option.some.inj hc
  refine ⟨trivial, fun c hc => ?_⟩
  obtain rfl : _ = c := Option.some.inj hc
  refine ⟨trivial, fun c hc => ?_⟩
  obtain rfl : _ = c := Option.some.inj hc
  refine ⟨trivial, fun c hc => ?_⟩
  obtain rfl : _ = c := Option.some.inj hc
  refine ⟨fun _ => ⟨_, rfl, fun _ _ _ => ?_⟩, fun _ _ => trivial⟩
  decide

variable {events : List (Event Op Env)}

lemma not_allHold_of_exclusive (p : Addr)
    (h : ((machine.run events (Db.empty 13, [])).bind fun c => c.1.prot p).any
      (fun P => 1 < (P.openList.filter (·.has exclusive)).length) = true) :
    ¬ machine.AllHold Inv events (Db.empty 13, []) := by
  intro hh
  obtain ⟨c, hc, hi⟩ := hh.run (inv_empty 13)
  rw [hc, bind_some] at h
  rcases hP : c.1.prot p with _ | P <;> rw [hP] at h
  · cases h
  · have := (hi.ok hP).openers.excl
    have := of_decide_eq_true h
    omega

lemma not_allHold_of_twice (p q : Addr) (hpq : p ≠ q)
    (h : (machine.run events (Db.empty 13, [])).any (fun c => (c.1.prot p).isSome ∧ c.1.handleOf p = c.1.handleOf q ∧
        c.1.protocolOf p = c.1.protocolOf q) = true) :
    ¬ machine.AllHold Inv events (Db.empty 13, []) := by
  intro hh
  obtain ⟨c, hc, hi⟩ := hh.run (inv_empty 13)
  rw [hc] at h
  obtain ⟨hp, hhandle, hprotocol⟩ := of_decide_eq_true h
  obtain ⟨P, hP⟩ := isSome_iff_exists.mp hp
  rw [handleOf_of_prot hP] at hhandle
  rw [protocolOf_of_prot hP] at hprotocol
  obtain ⟨Q, hQ, h1⟩ := map_eq_some_iff.mp hhandle.symm
  obtain ⟨Q', hQ', h2⟩ := map_eq_some_iff.mp hprotocol.symm
  rw [hQ] at hQ'
  cases hQ'
  exact hpq (hi.single hP hQ h1.symm h2.symm)

/-- A driver that asks for exclusive access itself when it is stopped leaves two exclusive openers.  And a
handle gets a second interface of a protocol if the pool has no room for the open record of
`CoreHandleProtocol`, or if a notification installs one while the lock is free. -/
theorem uncheckedAgain_breaks : ¬ machine.AllHold Inv
      (stopping ++ [.call (.openProtocol ⟨11, some 7, true, 12, 0, exclusive⟩) (blocks 0 0),
        .resume (blocks 0 0)]) (Db.empty 13, []) ∧ ¬ machine.AllHold Inv
      [newHandle 7 1 11, .call (.install ⟨some 11, some 7, true, 200⟩) ⟨false, true, none, none, true⟩,
        .resume (blocks 2 0)] (Db.empty 13, []) ∧ ¬ machine.AllHold Inv
      [newHandle 7 1 11, .call (.install ⟨some 11, some 8, true, 200⟩) (blocks 0 0),
        .call (.install ⟨some 11, some 8, true, 300⟩) (blocks 0 0), .resume (blocks 2 0),
        .resume (blocks 3 0)] (Db.empty 13, []) := by
  refine ⟨not_allHold_of_exclusive 1 ?_, not_allHold_of_twice 1 2 (by decide) ?_,
    not_allHold_of_twice 2 3 (by decide) ?_⟩
  · decide
  · decide
  · decide

end Audk.Hand
