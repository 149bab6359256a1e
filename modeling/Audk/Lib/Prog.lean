import Mathlib.Tactic

/-!
# Programs that stop with an error

`Prog σ ε α` is a computation on a state `σ` that returns an `α` or stops with an `ε`.  The state
survives an error: what a C function wrote before it returned a failure stays written.

`wp x Q E s` says that `x`, started in `s`, either returns a value and a state with `Q`, or stops
with an error and a state with `E`.  Each construct has one rule that computes its `wp`.

`Sim x y Q s t` runs two programs side by side: both fail in the same way, or both return with `Q`.

* `sim_bind`, `sim_stopIf`, `sim_repeatWhile`: both programs make the same step;
* `sim_ok`, `sim_ok_right`: if one of them returns, so does the other one.

`Erases π x y`: `x` does what `y` does, on a state that holds more than `π` keeps of it.

`Follows x y Q Bad s t`: where `x` returns, `y` returns with `Q`, or `x` ends in a `Bad` state.
-/

/-- a computation on `σ` that may stop with an `ε` -/
def Prog (σ ε α : Type) : Type := σ → Except ε α × σ

namespace Prog

section
variable {σ ε α β : Type}

instance : Monad (Prog σ ε) where
  pure a := fun s => (.ok a, s)
  bind x f := fun s =>
    match x s with
    | (.ok a, s') => f a s'
    | (.error e, s') => (.error e, s')

def fail (e : ε) : Prog σ ε α := fun s => (.error e, s)

/-- stop with the failure `e` if `c` holds -/
def stopIf (c : Prop) [Decidable c] (e : ε) : Prog σ ε Unit := fun s => if c then (.error e, s) else (.ok (), s)

def modify (f : σ → σ) : Prog σ ε Unit := fun s => (.ok (), f s)

def gets (f : σ → α) : Prog σ ε α := fun s => (.ok (f s), s)

/-- the loop `for (i = i0; i < i0 + n; ++i) a = body i a` -/
def loop (body : Nat → α → Prog σ ε α) : Nat → Nat → α → Prog σ ε α
  | _, 0, a => pure a
  | i, n+1, a => do
    let a' ← body i a
    loop body (i+1) n a'

/-- the loop that runs the body for every element of a list -/
def forEach {γ : Type} (body : γ → α → Prog σ ε α) : List γ → α → Prog σ ε α
  | [], a => pure a
  | x :: xs, a => do
    let a' ← body x a
    forEach body xs a'

/-- the loop `while (c a) a = body a`, for at most `fuel` turns; stops with `stuck` if the fuel does not
suffice -/
def repeatWhile (c : α → Prop) [DecidablePred c] (body : α → Prog σ ε α) (stuck : ε) : Nat → α → Prog σ ε α
  | 0, _ => fail stuck
  | fuel+1, a =>
    if c a then do
      let a' ← body a
      repeatWhile c body stuck fuel a'
    else pure a

lemma bind_eq (x : Prog σ ε α) (f : α → Prog σ ε β) (s : σ) : (x >>= f) s = match x s with
    | (.ok a, s') => f a s'
    | (.error e, s') => (.error e, s') := rfl

variable {k : Unit → Prog σ ε α} {e : ε} {γ : Type} {s' : σ}

lemma stopIf_pos {c : Prop} [Decidable c] (h : c) : (stopIf c e : Prog σ ε Unit) = fail e :=
  funext fun _ => if_pos h

lemma stopIf_neg {c : Prop} [Decidable c] (h : ¬ c) : (stopIf c e : Prog σ ε Unit) = pure () :=
  funext fun _ => if_neg h

/-! ## weakest preconditions -/

/-- from `s`, `x` ends with `Q` or fails with `E` -/
def wp (x : Prog σ ε α) (Q : α → σ → Prop) (E : ε → σ → Prop) (s : σ) : Prop :=
  match x s with
  | (.ok a, s') => Q a s'
  | (.error e, s') => E e s'

variable {x : Prog σ ε α} {Q Q' : α → σ → Prop} {E : ε → σ → Prop} {s t : σ}

lemma wp_pure (a : α) : wp (pure a : Prog σ ε α) Q E s ↔ Q a s := Iff.rfl

lemma wp_fail (e : ε) : wp (fail e : Prog σ ε α) Q E s ↔ E e s := Iff.rfl

lemma wp_modify (f : σ → σ) {Q : Unit → σ → Prop} : wp (modify f : Prog σ ε Unit) Q E s ↔ Q () (f s) := Iff.rfl

lemma wp_gets (f : σ → α) : wp (gets f : Prog σ ε α) Q E s ↔ Q (f s) s := Iff.rfl

lemma wp_bind (x : Prog σ ε α) (f : α → Prog σ ε β) {Q : β → σ → Prop} :
    wp (x >>= f) Q E s ↔ wp x (fun a s' => wp (f a) Q E s') E s := by
  unfold wp
  rw [bind_eq]
  rcases x s with ⟨_ | a, s'⟩ <;> rfl

lemma wp_stopIf (c : Prop) [Decidable c] (e : ε) {Q : Unit → σ → Prop} :
    wp (stopIf c e) Q E s ↔ (c → E e s) ∧ (¬ c → Q () s) := by
  unfold wp stopIf
  by_cases h : c <;> simp [h]

lemma wp_stopIf_bind {c : Prop} [Decidable c] {f : Unit → Prog σ ε α} (hE : c → E e s)
    (h : ¬ c → wp (f ()) Q E s) : wp (stopIf c e >>= f) Q E s := by
  rw [wp_bind, wp_stopIf]
  exact ⟨hE, h⟩

lemma wp_ite (c : Prop) [Decidable c] (x y : Prog σ ε α) :
    wp (if c then x else y) Q E s ↔ (c → wp x Q E s) ∧ (¬ c → wp y Q E s) := by
  by_cases h : c <;> simp [h]

lemma wp_mono {E' : ε → σ → Prop} (h : wp x Q E s)
    (hQ : ∀ a t, Q a t → Q' a t) (hE : ∀ e t, E e t → E' e t) : wp x Q' E' s := by
  unfold wp at *
  rcases hx : x s with ⟨_ | a, s'⟩ <;> rw [hx] at h
  · exact hE _ _ h
  · exact hQ _ _ h

lemma wp_post (h : wp x Q E s) (hQ : ∀ a t, Q a t → Q' a t) : wp x Q' E s := wp_mono h hQ fun _ _ h => h

lemma wp_seq {f : α → Prog σ ε β} {Q' : β → σ → Prop} (h : wp x Q E s)
    (hf : ∀ a t, Q a t → wp (f a) Q' E t) : wp (x >>= f) Q' E s :=
  (wp_bind x f).mpr (wp_post h hf)

lemma wp_ok {a : α} (h : wp x Q E s) (hx : x s = (.ok a, t)) : Q a t := by
  unfold wp at h
  rw [hx] at h
  exact h

lemma wp_of_ok {a : α} (hx : x s = (.ok a, t)) (h : Q a t) : wp x Q E s := by
  unfold wp
  rw [hx]
  exact h

lemma bind_of_ok {f : α → Prog σ ε β} {a : α} (hx : x s = (.ok a, t)) : (x >>= f) s = f a t := by
  rw [bind_eq, hx]

lemma wp_error (h : wp x Q E s) (hx : x s = (.error e, t)) : E e t := by
  unfold wp at h
  rw [hx] at h
  exact h

lemma wp_total {x : Prog σ ε Unit} {Q : Unit → σ → Prop} (h : wp x Q (fun _ _ => False) s) :
    (x s).1 = .ok () ∧ Q () (x s).2 := by
  unfold wp at h
  rcases hx : x s with ⟨_ | _, s'⟩ <;> rw [hx] at h
  · exact False.elim h
  · exact ⟨rfl, h⟩

lemma wp_returns (h : wp x Q (fun _ _ => False) s) : ∃ a s', x s = (.ok a, s') ∧ Q a s' := by
  unfold wp at h
  rcases hx : x s with ⟨_ | a, s'⟩ <;> rw [hx] at h
  · exact False.elim h
  · exact ⟨a, s', rfl, h⟩

lemma wp_repeatWhile_succ (c : α → Prop) [DecidablePred c] (body : α → Prog σ ε α) (stuck : ε)
    (fuel : Nat) (a : α) : wp (repeatWhile c body stuck (fuel+1) a) Q E s ↔
      (c a → wp (body a) (fun a' s' => wp (repeatWhile c body stuck fuel a') Q E s') E s) ∧
      (¬ c a → Q a s) := by
  rw [repeatWhile, wp_ite, wp_bind, wp_pure]

lemma wp_repeatWhile {c : α → Prop} [DecidablePred c] {body : α → Prog σ ε α} {stuck : ε}
    (Inv : α → σ → Prop) (hbody : ∀ a s, Inv a s → c a → wp (body a) Inv E s)
    (hstuck : ∀ s, E stuck s) (fuel : Nat) {a : α} {s : σ} (h : Inv a s) :
    wp (repeatWhile c body stuck fuel a) Inv E s := by
  induction fuel generalizing a s with
  | zero => exact hstuck s
  | succ fuel ih =>
    rw [wp_repeatWhile_succ]
    exact ⟨fun hc => wp_post (hbody a s h hc) fun _ _ h => ih h, fun _ => h⟩

/-- a loop whose turns end it or make a measure smaller -/
lemma wp_repeatWhile_measure {c : α → Prop} [DecidablePred c] {body : α → Prog σ ε α} {stuck : ε}
    (Inv : Nat → α → σ → Prop) (hbody : ∀ k a s, Inv k a s → c a ∧
      wp (body a) (fun a' s' => (¬ c a' ∧ Q a' s') ∨ ∃ k', k' < k ∧ Inv k' a' s') E s)
    (fuel k : Nat) {a : α} {s : σ} (h : Inv k a s) :
    wp (repeatWhile c body stuck (fuel + k + 2) a) Q E s := by
  induction k using Nat.strong_induction_on generalizing fuel a s with
  | _ k ih =>
    obtain ⟨hc, hturn⟩ := hbody k a s h
    rw [wp_repeatWhile_succ]
    refine ⟨fun _ => wp_post hturn ?_, fun hn => absurd hc hn⟩
    rintro a' s' (⟨hn, hQ⟩ | ⟨k', hk, h'⟩)
    · rw [wp_repeatWhile_succ]
      exact ⟨fun hc => absurd hc hn, fun _ => hQ⟩
    · rw [show fuel + k + 1 = (fuel + (k - k' - 1)) + k' + 2 by omega]
      exact ih k' hk _ h'

lemma wp_loop (body : Nat → α → Prog σ ε α) (Inv : Nat → α → σ → Prop)
    {E : ε → σ → Prop} (i n : Nat) (a : α) {s : σ} (h0 : Inv i a s)
    (hstep : ∀ j b t, i ≤ j → j < i + n → Inv j b t → wp (body j b) (Inv (j+1)) E t) :
    wp (loop body i n a) (Inv (i+n)) E s := by
  induction n generalizing i a s with
  | zero => exact h0
  | succ n ih =>
    refine wp_seq (hstep i a s le_rfl (by omega) h0) fun b t hb => ?_
    have := ih (i+1) b hb (fun j b t h1 h2 => hstep j b t (by omega) (by omega))
    rwa [show i + 1 + n = i + (n+1) by omega] at this

lemma wp_forEach_append (body : γ → α → Prog σ ε α) (xs ys : List γ) (a : α) :
    wp (forEach body (xs ++ ys) a) Q E s ↔
      wp (forEach body xs a) (fun a' t => wp (forEach body ys a') Q E t) E s := by
  induction xs generalizing a s with
  | nil => exact Iff.rfl
  | cons x xs ih => simp only [List.cons_append, forEach, wp_bind, ih]

/-- as `wp_loop`; the invariant may speak of the elements already visited -/
lemma wp_forEach (body : γ → α → Prog σ ε α) (Inv : List γ → α → σ → Prop)
    {E : ε → σ → Prop} (done xs : List γ) (a : α) {s : σ} (h0 : Inv done a s)
    (hstep : ∀ ys x b t, x ∈ xs → Inv ys b t → wp (body x b) (Inv (ys ++ [x])) E t) :
    wp (forEach body xs a) (Inv (done ++ xs)) E s := by
  induction xs generalizing done a s with
  | nil =>
    rw [List.append_nil]
    exact h0
  | cons x xs ih =>
    refine wp_seq (hstep done x a s List.mem_cons_self h0) fun b t hb => ?_
    have := ih (done ++ [x]) b hb fun ys y c u hy => hstep ys y c u (List.mem_cons_of_mem _ hy)
    rwa [List.append_assoc] at this

/-! ## two programs in lockstep -/

variable {τ : Type}

/-- from `s` and `t`, both programs end with `Q`, or both fail in the same way -/
def Sim (x : Prog σ ε α) (y : Prog τ ε β) (Q : α → β → σ → τ → Prop) (s : σ) (t : τ) : Prop :=
  match x s, y t with
  | (.ok a, s'), (.ok b, t') => Q a b s' t'
  | (.error e, _), (.error e', _) => e = e'
  | _, _ => False

variable {x : Prog σ ε α} {y : Prog τ ε β} {Q : α → β → σ → τ → Prop} {s : σ} {t : τ}

lemma sim_pure {a : α} {b : β} (h : Q a b s t) : Sim (pure a : Prog σ ε α) (pure b : Prog τ ε β) Q s t := h

lemma sim_fail (e : ε) : Sim (fail e : Prog σ ε α) (fail e : Prog τ ε β) Q s t := rfl

lemma sim_bind {α' β' : Type} {f : α → Prog σ ε α'} {g : β → Prog τ ε β'}
    {R : α' → β' → σ → τ → Prop} (h : Sim x y Q s t)
    (hk : ∀ a b s' t', Q a b s' t' → Sim (f a) (g b) R s' t') : Sim (x >>= f) (y >>= g) R s t := by
  unfold Sim at h ⊢
  rw [bind_eq, bind_eq]
  revert h
  rcases x s with ⟨_ | a, s'⟩ <;> rcases y t with ⟨_ | b, t'⟩ <;> intro h
  · exact h
  · exact False.elim h
  · exact False.elim h
  · exact hk a b s' t' h

lemma sim_stopIf (c : Prop) [Decidable c] (e : ε) {f : Unit → Prog σ ε α} {g : Unit → Prog τ ε β}
    (h : ¬ c → Sim (f ()) (g ()) Q s t) : Sim (stopIf c e >>= f) (stopIf c e >>= g) Q s t := by
  by_cases hc : c
  · rw [stopIf_pos hc, stopIf_pos hc]
    exact rfl
  · rw [stopIf_neg hc, stopIf_neg hc]
    exact h hc

lemma sim_modify_left {f : σ → σ}
    (h : Sim (k ()) y Q (f s) t) : Sim (modify f >>= k) y Q s t := h

lemma sim_modify_right {f : τ → τ} {k : Unit → Prog τ ε β}
    (h : Sim x (k ()) Q s (f t)) : Sim x (modify f >>= k) Q s t := h

lemma sim_gets_left {f : σ → γ} {k : γ → Prog σ ε α}
    (h : Sim (k (f s)) y Q s t) : Sim (gets f >>= k) y Q s t := h

lemma sim_repeatWhile {c : α → Prop} [DecidablePred c] {d : β → Prop} [DecidablePred d]
    {body : α → Prog σ ε α} {body' : β → Prog τ ε β} {stuck : ε} (Inv : α → β → σ → τ → Prop)
    (hc : ∀ a b s t, Inv a b s t → (c a ↔ d b))
    (hstep : ∀ a b s t, Inv a b s t → c a → Sim (body a) (body' b) Inv s t)
    (fuel : Nat) {a : α} {b : β} (h : Inv a b s t) :
    Sim (repeatWhile c body stuck fuel a) (repeatWhile d body' stuck fuel b)
      (fun a b s t => Inv a b s t ∧ ¬ c a) s t := by
  induction fuel generalizing a b s t with
  | zero => exact sim_fail stuck
  | succ fuel ih =>
    rw [repeatWhile, repeatWhile]
    by_cases hca : c a
    · rw [if_pos hca, if_pos ((hc a b s t h).mp hca)]
      exact sim_bind (hstep a b s t h hca) fun a' b' s' t' h' => ih h'
    · rw [if_neg hca, if_neg fun hd => hca ((hc a b s t h).mpr hd)]
      exact sim_pure ⟨h, hca⟩

lemma sim_ok {a : α} (h : Sim x y Q s t)
    (hx : x s = (.ok a, s')) : ∃ b t', y t = (.ok b, t') ∧ Q a b s' t' := by
  unfold Sim at h
  rw [hx] at h
  rcases hy : y t with ⟨_ | b, t'⟩ <;> rw [hy] at h
  · exact False.elim h
  · exact ⟨b, t', rfl, h⟩

lemma sim_ok_right {b : β} {t' : τ} (h : Sim x y Q s t)
    (hy : y t = (.ok b, t')) : ∃ a s', x s = (.ok a, s') ∧ Q a b s' t' := by
  unfold Sim at h
  rw [hy] at h
  rcases hx : x s with ⟨_ | a, s'⟩ <;> rw [hx] at h
  · exact False.elim h
  · exact ⟨a, s', rfl, h⟩

/-! ## forgetting a part of the state -/

/-- `x` is `y` on a state with more in it -/
def Erases (π : σ → τ) (x : Prog σ ε α) (y : Prog τ ε α) : Prop := ∀ s, y (π s) = ((x s).1, π (x s).2)

variable {π : σ → τ}

lemma erases_pure (a : α) : Erases π (pure a : Prog σ ε α) (pure a) := fun _ => rfl

lemma erases_fail (e : ε) : Erases π (fail e : Prog σ ε α) (fail e) := fun _ => rfl

lemma erases_stopIf (c : Prop) [Decidable c] (e : ε) : Erases π (stopIf c e) (stopIf c e) := by
  intro s
  unfold stopIf
  by_cases hc : c
  · rw [if_pos hc, if_pos hc]
  · rw [if_neg hc, if_neg hc]

lemma erases_bind {x : Prog σ ε α} {y : Prog τ ε α} {f : α → Prog σ ε β} {g : α → Prog τ ε β}
    (h : Erases π x y) (hk : ∀ a, Erases π (f a) (g a)) : Erases π (x >>= f) (y >>= g) := by
  intro s
  have hs := h s
  rw [bind_eq, bind_eq, hs]
  rcases x s with ⟨_ | a, s'⟩
  · rfl
  · exact hk a s'

lemma erases_modify {f : σ → σ} {y : Prog τ ε α} (hf : ∀ s, π (f s) = π s)
    (h : Erases π (k ()) y) : Erases π (modify f >>= k) y := by
  intro s
  rw [← hf s]
  exact h (f s)

lemma erases_ite (c : Prop) [Decidable c] {x x' : Prog σ ε α} {y y' : Prog τ ε α} (h : c → Erases π x y)
    (h' : ¬ c → Erases π x' y') : Erases π (if c then x else x') (if c then y else y') := by
  by_cases hc : c
  · rw [if_pos hc, if_pos hc]
    exact h hc
  · rw [if_neg hc, if_neg hc]
    exact h' hc

lemma erases_repeatWhile {c : α → Prop} [DecidablePred c] {body : α → Prog σ ε α} {body' : α → Prog τ ε α}
    {stuck : ε} (hbody : ∀ a, Erases π (body a) (body' a)) (fuel : Nat) (a : α) :
    Erases π (repeatWhile c body stuck fuel a) (repeatWhile c body' stuck fuel a) := by
  induction fuel generalizing a with
  | zero => exact erases_fail stuck
  | succ fuel ih =>
    exact erases_ite _ (fun _ => erases_bind (hbody a) ih) (fun _ => erases_pure a)

/-! ## a program that follows another one -/

/-- where `x` returns, `y` returns with `Q`, or `x` ends in a state that is `Bad` -/
def Follows (x : Prog σ ε α) (y : Prog τ ε β) (Q : α → β → σ → τ → Prop) (Bad : σ → Prop) (s : σ) (t : τ) : Prop :=
  match x s, y t with
  | (.ok a, s'), (.ok b, t') => Q a b s' t'
  | (.ok _, s'), (.error _, _) => Bad s'
  | (.error _, _), _ => True

variable {x : Prog σ ε α} {y : Prog τ ε β} {Q : α → β → σ → τ → Prop} {Bad : σ → Prop} {s : σ} {t : τ}

lemma follows_fail (e : ε) (y : Prog τ ε β) : Follows (fail e : Prog σ ε α) y Q Bad s t := trivial

lemma follows_pure {a : α} (h : wp y (fun b t' => Q a b s t') (fun _ _ => Bad s) t) :
    Follows (pure a : Prog σ ε α) y Q Bad s t := by
  unfold Follows
  unfold wp at h
  rcases hy : y t with ⟨_ | b, t'⟩ <;> rw [hy] at h <;> exact h

lemma follows_mono {Q' : α → β → σ → τ → Prop} (h : Follows x y Q Bad s t)
    (hQ : ∀ a b s' t', Q a b s' t' → Q' a b s' t') : Follows x y Q' Bad s t := by
  unfold Follows at *
  revert h
  rcases x s with ⟨_ | a, s'⟩ <;> rcases y t with ⟨_ | b, t'⟩ <;> intro h
  · exact h
  · exact h
  · exact h
  · exact hQ _ _ _ _ h

/-- with what the first program alone ensures -/
lemma follows_and {R : α → σ → Prop} (h : Follows x y Q Bad s t)
    (hx : wp x R (fun _ _ => True) s) : Follows x y (fun a b s' t' => Q a b s' t' ∧ R a s') Bad s t := by
  unfold Follows wp at *
  revert h hx
  rcases x s with ⟨_ | a, s'⟩ <;> rcases y t with ⟨_ | b, t'⟩ <;> intro h hx
  · exact h
  · exact h
  · exact h
  · exact ⟨h, hx⟩

/-- what is bad stays so until the first program ends -/
lemma follows_bind {α' β' : Type} {f : α → Prog σ ε α'} {g : β → Prog τ ε β'}
    {R : α' → β' → σ → τ → Prop} (h : Follows x y Q Bad s t)
    (hk : ∀ a b s' t', Q a b s' t' → Follows (f a) (g b) R Bad s' t')
    (hbad : ∀ a s', Bad s' → wp (f a) (fun _ => Bad) (fun _ _ => True) s') : Follows (x >>= f) (y >>= g) R Bad s t := by
  unfold Follows at h ⊢
  rw [bind_eq, bind_eq]
  revert h
  rcases x s with ⟨_ | a, s'⟩ <;> rcases y t with ⟨_ | b, t'⟩ <;> intro h
  · exact trivial
  · exact trivial
  · have hw := hbad a s' h
    unfold wp at hw
    dsimp only
    rcases hf : f a s' with ⟨_ | b, s''⟩ <;> rw [hf] at hw
    · exact trivial
    · exact hw
  · exact hk a b s' t' h

lemma follows_stopIf {c : Prop} [Decidable c] {f : Unit → Prog σ ε α}
    (h : ¬ c → Follows (f ()) y Q Bad s t) : Follows (stopIf c e >>= f) y Q Bad s t := by
  by_cases hc : c
  · rw [stopIf_pos hc]
    exact trivial
  · rw [stopIf_neg hc]
    exact h hc

lemma follows_stopIf_both {c d : Prop} [Decidable c] [Decidable d] {e e' : ε} {f : Unit → Prog σ ε α}
    {g : Unit → Prog τ ε β} (hcd : d → c) (h : ¬ c → Follows (f ()) (g ()) Q Bad s t) :
    Follows (stopIf c e >>= f) (stopIf d e' >>= g) Q Bad s t := by
  refine follows_stopIf fun hc => ?_
  rw [stopIf_neg fun hd => hc (hcd hd)]
  exact h hc

lemma follows_modify {f : σ → σ} (h : Follows (k ()) y Q Bad (f s) t) :
    Follows (modify f >>= k) y Q Bad s t := h

lemma follows_repeatWhile {c : α → Prop} [DecidablePred c] {d : β → Prop} [DecidablePred d]
    {body : α → Prog σ ε α} {body' : β → Prog τ ε β} {stuck : ε} (Inv : α → β → σ → τ → Prop)
    (hc : ∀ a b s t, Inv a b s t → (c a ↔ d b))
    (hstep : ∀ a b s t, Inv a b s t → c a → Follows (body a) (body' b) Inv Bad s t)
    (hbad : ∀ a s, Bad s → wp (body a) (fun _ => Bad) (fun _ _ => True) s)
    {fuel fuel' : Nat} (hfuel : fuel ≤ fuel') {a : α} {b : β} (h : Inv a b s t) :
    Follows (repeatWhile c body stuck fuel a) (repeatWhile d body' stuck fuel' b)
      (fun a b s t => Inv a b s t ∧ ¬ c a) Bad s t := by
  induction fuel generalizing a b s t fuel' with
  | zero => exact follows_fail stuck _
  | succ fuel ih =>
    obtain ⟨fuel', rfl⟩ : ∃ k, fuel' = k + 1 := ⟨fuel' - 1, by omega⟩
    rw [repeatWhile, repeatWhile]
    by_cases hca : c a
    · rw [if_pos hca, if_pos ((hc a b s t h).mp hca)]
      refine follows_bind (hstep a b s t h hca) (fun a' b' s' t' h' => ih (by omega) h') fun a' s' hs' => ?_
      exact wp_repeatWhile (fun _ => Bad) (fun a s h _ => hbad a s h) (fun _ => trivial) fuel hs'
    · rw [if_neg hca, if_neg fun hd => hca ((hc a b s t h).mpr hd)]
      exact follows_pure ⟨h, hca⟩

lemma follows_ok {a : α} (h : Follows x y Q Bad s t)
    (hx : x s = (.ok a, s')) : (∃ b t', y t = (.ok b, t') ∧ Q a b s' t') ∨ ((∀ b t', y t ≠ (.ok b, t')) ∧ Bad s') := by
  unfold Follows at h
  rw [hx] at h
  rcases hy : y t with ⟨_ | b, t'⟩ <;> rw [hy] at h
  · exact .inr ⟨(fun b t' hc => absurd (congrArg Prod.fst hc) (by simp)), h⟩
  · exact .inl ⟨b, t', rfl, h⟩

end

end Prog
