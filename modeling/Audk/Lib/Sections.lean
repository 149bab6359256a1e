import Mathlib.Data.List.Basic

/-!
# Operations that release a lock

An operation is cut into sections: each one runs under the lock, and ends the operation or releases
the lock.  While the lock is released other operations may start, also in the middle of one another;
the one interrupted last is resumed first.  What a section needs from outside, such as the outcome of
a callback, is its `env`.  A section that returns `none` has no defined behaviour.

* `Machine.AllFine F`: `F` holds wherever an operation is resumed;
* `allHold_iff_allFine`: both are the same if first sections keep `P`, and later ones do if and only if
  `F` holds when they are entered.
-/

namespace Sections

/-- how a section ends: the operation returns, or the lock is released -/
inductive Turn (κ ρ : Type) where
  | done (result : ρ)
  | release (rest : κ)

inductive Event (op env : Type) where
  | call (o : op) (e : env)
  | resume (e : env)

structure Machine (σ κ op env ρ : Type) where
  start : op → env → σ → Option (Turn κ ρ × σ)
  resume : κ → env → σ → Option (Turn κ ρ × σ)

variable {σ κ op env ρ : Type}

/-- the interrupted operations after a section -/
def push (ks : List κ) : Turn κ ρ × σ → σ × List κ
  | (.done _, s) => (s, ks)
  | (.release k, s) => (s, k :: ks)

@[simp] lemma push_fst (ks : List κ) (r : Turn κ ρ × σ) : (push ks r).1 = r.2 := by
  obtain ⟨_ | _, s⟩ := r <;> rfl

namespace Machine

variable (m : Machine σ κ op env ρ) (P : σ → Prop) (F : κ → env → σ → Prop)

/-- one event; to resume an operation when there is none does nothing -/
def step : Event op env → σ × List κ → Option (σ × List κ)
  | .call o e, (s, ks) => (m.start o e s).map (push ks)
  | .resume _, (s, []) => some (s, [])
  | .resume e, (s, k :: ks) => (m.resume k e s).map (push ks)

def AllHold : List (Event op env) → σ × List κ → Prop
  | [], _ => True
  | ev :: evs, c => ∃ c', m.step ev c = some c' ∧ P c'.1 ∧ AllHold evs c'

/-- where a history ends -/
def run : List (Event op env) → σ × List κ → Option (σ × List κ)
  | [], c => some c
  | ev :: evs, c => (m.step ev c).bind (run evs)

def FineAt : Event op env → σ × List κ → Prop
  | .resume e, (s, k :: _) => F k e s
  | _, _ => True

def AllFine : List (Event op env) → σ × List κ → Prop
  | [], _ => True
  | ev :: evs, c => FineAt F ev c ∧ ∀ c', m.step ev c = some c' → AllFine evs c'

/-- a section has a defined outcome with `P` -/
def Holds (r : Option (Turn κ ρ × σ)) : Prop := ∃ x, r = some x ∧ P x.2

variable {m P F}

lemma AllHold.run {evs : List (Event op env)} {c : σ × List κ} (h : m.AllHold P evs c) (hc : P c.1) :
    ∃ c', m.run evs c = some c' ∧ P c'.1 := by
  induction evs generalizing c with
  | nil => exact ⟨c, rfl, hc⟩
  | cons ev evs ih =>
    obtain ⟨c', hstep, hP, hrest⟩ := h
    obtain ⟨d, hd, hPd⟩ := ih hrest hP
    refine ⟨d, ?_, hPd⟩
    rw [Machine.run, hstep]
    exact hd

lemma holds_some {t : Turn κ ρ} {s : σ} : Holds P (some (t, s)) ↔ P s := by
  constructor
  · rintro ⟨x, hx, h⟩
    cases hx
    exact h
  · intro h
    exact ⟨_, rfl, h⟩

lemma not_holds_none : ¬ Holds P (none : Option (Turn κ ρ × σ)) := by
  rintro ⟨x, hx, _⟩
  cases hx

lemma holds_iff_map_push {r : Option (Turn κ ρ × σ)} (ks : List κ) :
    Holds P r ↔ ∃ c, r.map (push ks) = some c ∧ P c.1 := by
  constructor
  · rintro ⟨x, rfl, h⟩
    refine ⟨push ks x, rfl, ?_⟩
    rw [push_fst]
    exact h
  · rintro ⟨c, hc, h⟩
    obtain ⟨x, rfl, rfl⟩ := Option.map_eq_some_iff.mp hc
    rw [push_fst] at h
    exact ⟨x, rfl, h⟩

section
variable (hstart : ∀ o e s, P s → Holds P (m.start o e s))
  (hresume : ∀ k e s, P s → (Holds P (m.resume k e s) ↔ F k e s))
include hstart hresume

lemma step_holds_iff (ev : Event op env) {c : σ × List κ} (h : P c.1) :
    (∃ c', m.step ev c = some c' ∧ P c'.1) ↔ FineAt F ev c := by
  obtain ⟨s, ks⟩ := c
  cases ev with
  | call o e => exact ⟨fun _ => trivial, fun _ => (holds_iff_map_push ks).mp (hstart o e s h)⟩
  | resume e =>
    cases ks with
    | nil => exact ⟨fun _ => trivial, fun _ => ⟨(s, []), rfl, h⟩⟩
    | cons k ks => exact (holds_iff_map_push ks).symm.trans (hresume k e s h)

lemma allHold_iff_allFine {evs : List (Event op env)} {c : σ × List κ} (h : P c.1) :
    m.AllHold P evs c ↔ m.AllFine F evs c := by
  induction evs generalizing c with
  | nil => exact Iff.rfl
  | cons ev evs ih =>
    have hstep := step_holds_iff hstart hresume ev h
    constructor
    · rintro ⟨c', hc, hP, hrest⟩
      refine ⟨hstep.mp ⟨c', hc, hP⟩, ?_⟩
      intro d hd
      rw [hc] at hd
      cases hd
      exact (ih hP).mp hrest
    · rintro ⟨hF, hrest⟩
      obtain ⟨c', hc, hP⟩ := hstep.mpr hF
      exact ⟨c', hc, hP, (ih hP).mpr (hrest c' hc)⟩

end

end Machine

end Sections
