import Audk.Event.Timer

/-!
# Histories of the timer services

Requests, ticks and runs of `CoreCheckTimers`, one after the other, from an empty timer list.

* `checkFrom_endless`, `checkFrom_early`: otherwise it never ends, or signals a timer early;
* `timers_history`: the services keep their promises over a history if and only if no timer whose time wrapped
  around is due in a run of `CoreCheckTimers`.
-/

namespace Audk.Event

open List Nat

/-! ## the invariant -/

/-- a timer in the list belongs to the last request for its event -/
structure Armed (now : Nat) (r : Request) (t : Timer) : Prop where
  type : r.type ≠ .cancel
  period : t.period = if r.type = .periodic then r.delay else 0
  delay : r.delay < 2^64
  time : r.time ≤ now
  fresh : r.fired = false → t.triggerTime = (r.time + r.delay) % 2^64
  fired : r.fired = true → r.type = .periodic ∧ r.time + r.delay ≤ now

structure Inv (s : TimerState) : Prop where
  sorted : Sorted s.mEfiTimerList
  distinct : s.mEfiTimerList.Pairwise fun t u => t.event ≠ u.event
  armed : ∀ t ∈ s.mEfiTimerList, ∃ r, request t.event s.log = some r ∧ Armed s.mEfiSystemTime r t
  time : s.mEfiSystemTime < 2^64
  legal : Legal s.log

/-- the time of the request wraps around, so the timer seems to be due -/
def Early (log : List Entry) (t : Timer) : Prop :=
  ∃ r, request t.event log = some r ∧ r.fired = false ∧ 2^64 ≤ r.time + r.delay

/-- the next time of a periodic timer wraps around, or the one after it does because the timer is late: it stays
due for ever -/
def Endless (now : Nat) (t : Timer) : Prop :=
  t.period ≠ 0 ∧ 2^64 ≤ now + t.period ∧ (2^64 ≤ t.triggerTime + t.period ∨ t.triggerTime + t.period ≤ now)

section
variable {now fuel : Nat} {s s' : TimerState} {t u : Timer} {rest : List Timer} {r : Request}

lemma expire_time (now : Nat) (t : Timer) (rest : List Timer) (s : TimerState) :
    (expire now t rest s).mEfiSystemTime = s.mEfiSystemTime := by
  unfold expire
  split_ifs <;> rfl

lemma expire_log (now : Nat) (t : Timer) (rest : List Timer) (s : TimerState) :
    (expire now t rest s).log = .signal t.event now :: s.log := by
  unfold expire
  split_ifs <;> rfl

lemma expire_list (now : Nat) (t : Timer) (rest : List Timer) (s : TimerState) :
    (expire now t rest s).mEfiTimerList =
      if t.period = 0 then rest else coreInsertEventTimer (rearm now t).1 rest := by
  unfold expire
  split_ifs <;> rfl

lemma rearm_event (now : Nat) (t : Timer) : (rearm now t).1.event = t.event := by
  unfold rearm
  dsimp only
  split_ifs <;> rfl

lemma rearm_period (now : Nat) (t : Timer) : (rearm now t).1.period = t.period := by
  unfold rearm
  dsimp only
  split_ifs <;> rfl

lemma mem_expire (hu : u ∈ (expire now t rest s).mEfiTimerList) :
    (u = (rearm now t).1 ∧ t.period ≠ 0) ∨ u ∈ rest := by
  rw [expire_list] at hu
  split_ifs at hu with hp
  · exact .inr hu
  · rcases mem_insert.mp hu with hu | hu
    · exact .inl ⟨hu, hp⟩
    · exact .inr hu

lemma mem_expire_of_rest (hu : u ∈ rest) : u ∈ (expire now t rest s).mEfiTimerList := by
  rw [expire_list]
  split_ifs
  · exact hu
  · exact mem_insert.mpr (.inr hu)

lemma Inv.other (h : Inv s) (hs : s.mEfiTimerList = t :: rest) (hu : u ∈ rest) : t.event ≠ u.event := by
  have hd := h.distinct
  rw [hs] at hd
  exact (pairwise_cons.mp hd).1 u hu

/-- **one turn** of `CoreCheckTimers` with a timer that is due, and not early -/
theorem Inv.expire (h : Inv s) (hs : s.mEfiTimerList = t :: rest) (hdue : t.triggerTime ≤ s.mEfiSystemTime)
    (hearly : ¬ Early s.log t) : Inv (expire s.mEfiSystemTime t rest s) := by
  obtain ⟨r, hr, harmed⟩ := h.armed t (hs ▸ mem_cons_self)
  have hsorted : Sorted rest := (pairwise_cons.mp (hs ▸ h.sorted)).2
  have hdistinct := (pairwise_cons.mp (hs ▸ h.distinct)).2
  -- the time of the request has come
  have htime : r.time + r.delay ≤ s.mEfiSystemTime := by
    cases hf : r.fired with
    | true => exact (harmed.fired hf).2
    | false =>
      have hlt : r.time + r.delay < 2^64 := by
        by_contra hge
        exact hearly ⟨r, hr, hf, not_lt.mp hge⟩
      have heq := harmed.fresh hf
      rw [mod_eq_of_lt hlt] at heq
      omega
  refine ⟨?_, ?_, fun u hu => ?_, ?_, ?_⟩
  · rw [expire_list]
    split_ifs
    · exact hsorted
    · exact sorted_insert hsorted _
  · rw [expire_list]
    split_ifs with hp
    · exact hdistinct
    · refine (insert_perm _ _).symm.pairwise (pairwise_cons.mpr ⟨fun u hu => ?_, hdistinct⟩) fun h => h.symm
      rw [rearm_event]
      exact h.other hs hu
  · rw [expire_time, expire_log]
    rcases mem_expire hu with ⟨rfl, hp⟩ | hu
    · rw [rearm_event]
      refine ⟨_, request_signal_self hr _, ?_⟩
      have hperiodic : r.type = .periodic := by
        by_contra hne
        rw [harmed.period, if_neg hne] at hp
        exact hp rfl
      exact ⟨harmed.type, (rearm_period _ _).trans harmed.period, harmed.delay, harmed.time, nofun,
        fun _ => ⟨hperiodic, htime⟩⟩
    · rw [request_signal_other (h.other hs hu)]
      exact h.armed u (hs ▸ mem_cons_of_mem _ hu)
  · rw [expire_time]
    exact h.time
  · rw [expire_log]
    refine legal_signal.mpr ⟨⟨r, hr, harmed.type, htime, fun hrel => ?_⟩, h.legal⟩
    by_contra hf
    have hper := (harmed.fired (Bool.eq_true_of_not_eq_false hf)).1
    rw [hrel] at hper
    cases hper

/-! ## a run -/

/-- no timer that is due is early or endless -/
def Punctual (s : TimerState) : Prop :=
  ∀ t ∈ s.mEfiTimerList, t.triggerTime ≤ s.mEfiSystemTime → ¬ Early s.log t ∧ ¬ Endless s.mEfiSystemTime t

/-- how often a timer is signalled in a run: a late periodic timer twice -/
def weight (now : Nat) (t : Timer) : Nat :=
  if now < t.triggerTime then 0 else if t.period = 0 ∨ now < t.triggerTime + t.period then 1 else 2

lemma weight_rearm (hdue : t.triggerTime ≤ now) (hp : t.period ≠ 0) (h : ¬ Endless now t) :
    weight now (rearm now t).1 + 1 ≤ weight now t ∧
      ((rearm now t).1.triggerTime ≤ now → ¬ Endless now (rearm now t).1) := by
  unfold Endless at h ⊢
  unfold weight
  unfold rearm
  dsimp only
  split_ifs <;> dsimp only at * <;> omega

lemma weight_pos (hdue : t.triggerTime ≤ now) : 1 ≤ weight now t := by
  unfold weight
  split_ifs <;> omega

lemma weight_le (now : Nat) (t : Timer) : weight now t ≤ 2 := by
  unfold weight
  split_ifs <;> omega

lemma sum_weight_le (now : Nat) (ts : List Timer) : (ts.map (weight now)).sum ≤ 2 * ts.length := by
  induction ts with
  | nil => exact le_rfl
  | cons t ts ih =>
    have := weight_le now t
    rw [map_cons, sum_cons, length_cons]
    omega

lemma Punctual.expire (h : Punctual s) (hinv : Inv s) (hs : s.mEfiTimerList = t :: rest)
    (hdue : t.triggerTime ≤ s.mEfiSystemTime) : Punctual (expire s.mEfiSystemTime t rest s) ∧
      ((expire s.mEfiSystemTime t rest s).mEfiTimerList.map (weight s.mEfiSystemTime)).sum + 1 ≤
        (s.mEfiTimerList.map (weight s.mEfiSystemTime)).sum := by
  obtain ⟨-, hend⟩ := h t (hs ▸ mem_cons_self) hdue
  constructor
  · intro u hu hdue'
    rw [expire_time] at hdue' ⊢
    rw [expire_log]
    rcases mem_expire hu with ⟨rfl, hp⟩ | hu
    · refine ⟨fun ⟨r', hr', hf, _⟩ => ?_, (weight_rearm hdue hp hend).2 hdue'⟩
      obtain ⟨r, hr, -⟩ := hinv.armed t (hs ▸ mem_cons_self)
      rw [rearm_event, request_signal_self hr] at hr'
      cases hr'
      cases hf
    · obtain ⟨hearly, hend'⟩ := h u (hs ▸ mem_cons_of_mem _ hu) hdue'
      refine ⟨fun ⟨r', hr', hf⟩ => hearly ⟨r', ?_, hf⟩, hend'⟩
      rwa [request_signal_other (hinv.other hs hu)] at hr'
  · rw [expire_list, hs, map_cons, sum_cons]
    split_ifs with hp
    · have := weight_pos hdue
      omega
    · have hperm := ((insert_perm (rearm s.mEfiSystemTime t).1 rest).map (weight s.mEfiSystemTime)).sum_eq
      rw [map_cons, sum_cons] at hperm
      have := (weight_rearm hdue hp hend).1
      omega

/-- **a run ends, and signals every timer that is due** -/
theorem checkFrom_ends (fuel : Nat) (h : Inv s) (hp : Punctual s)
    (hfuel : (s.mEfiTimerList.map (weight s.mEfiSystemTime)).sum < fuel) :
    ∃ s' new, checkFrom s.mEfiSystemTime fuel s = some s' ∧ Inv s' ∧ s'.log = new ++ s.log ∧
      s'.mEfiSystemTime = s.mEfiSystemTime ∧
      ∀ t ∈ s.mEfiTimerList, t.triggerTime ≤ s.mEfiSystemTime → .signal t.event s.mEfiSystemTime ∈ new := by
  induction fuel generalizing s with
  | zero => omega
  | succ fuel ih =>
    unfold checkFrom
    cases hs : s.mEfiTimerList with
    | nil => exact ⟨s, [], rfl, h, rfl, rfl, fun t ht => absurd ht not_mem_nil⟩
    | cons t rest =>
      dsimp only
      by_cases hlt : s.mEfiSystemTime < t.triggerTime
      · rw [if_pos hlt]
        refine ⟨s, [], rfl, h, rfl, rfl, fun u hu hdue => ?_⟩
        -- the list is sorted, so nothing is due
        have hle : t.triggerTime ≤ u.triggerTime := by
          rcases mem_cons.mp hu with rfl | hu
          · exact le_rfl
          · exact (pairwise_cons.mp (hs ▸ h.sorted)).1 u hu
        omega
      · rw [if_neg hlt]
        have hdue := not_lt.mp hlt
        obtain ⟨hp', hweight⟩ := hp.expire h hs hdue
        have h' := h.expire hs hdue (hp t (hs ▸ mem_cons_self) hdue).1
        have hrun := ih h' hp' (by rw [expire_time]; omega)
        rw [expire_time, expire_log] at hrun
        obtain ⟨s', new, hrun, hinv, hlog, htime, hall⟩ := hrun
        refine ⟨s', new ++ [.signal t.event s.mEfiSystemTime], hrun, hinv, ?_, htime, fun u hu hudue => ?_⟩
        · rw [hlog, append_assoc]
          rfl
        · rcases mem_cons.mp hu with rfl | hu
          · exact mem_append_right _ mem_cons_self
          · exact mem_append_left _ (hall u (mem_expire_of_rest hu) hudue)

lemma endless_rearm (hdue : t.triggerTime ≤ now) (hlt : t.period < 2^64) (h : Endless now t) :
    (rearm now t).1.triggerTime ≤ now ∧ Endless now (rearm now t).1 := by
  unfold Endless at h ⊢
  unfold rearm
  dsimp only
  split_ifs <;> dsimp only at * <;> omega

/-- **a run with an endless timer never ends** -/
theorem checkFrom_endless (fuel : Nat) (hsorted : Sorted s.mEfiTimerList) (ht : t ∈ s.mEfiTimerList)
    (hdue : t.triggerTime ≤ now) (hlt : t.period < 2^64) (h : Endless now t) : checkFrom now fuel s = none := by
  induction fuel generalizing s t with
  | zero => rfl
  | succ fuel ih =>
    unfold checkFrom
    cases hs : s.mEfiTimerList with
    | nil =>
      rw [hs] at ht
      exact absurd ht not_mem_nil
    | cons u rest =>
      rw [hs] at ht hsorted
      obtain ⟨hfirst, hrest⟩ := pairwise_cons.mp hsorted
      have hu : u.triggerTime ≤ now := by
        rcases mem_cons.mp ht with rfl | ht
        · exact hdue
        · exact (hfirst t ht).trans hdue
      dsimp only
      rw [if_neg (not_lt.mpr hu)]
      have hsorted' : Sorted (expire now u rest s).mEfiTimerList := by
        rw [expire_list]
        split_ifs
        · exact hrest
        · exact sorted_insert hrest _
      rcases mem_cons.mp ht with rfl | ht
      · obtain ⟨hdue', h'⟩ := endless_rearm hdue hlt h
        refine ih hsorted' ?_ hdue' ((rearm_period _ _).trans_lt hlt) h'
        rw [expire_list, if_neg h.1]
        exact mem_insert.mpr (.inl rfl)
      · exact ih hsorted' (mem_expire_of_rest ht) hdue hlt h

lemma checkFrom_log (fuel : Nat) (h : checkFrom now fuel s = some s') : ∃ new, s'.log = new ++ s.log := by
  induction fuel generalizing s with
  | zero => cases h
  | succ fuel ih =>
    unfold checkFrom at h
    cases hs : s.mEfiTimerList with
    | nil =>
      rw [hs] at h
      cases h
      exact ⟨[], rfl⟩
    | cons t rest =>
      rw [hs] at h
      dsimp only at h
      split_ifs at h with hlt
      · cases h
        exact ⟨[], rfl⟩
      · obtain ⟨new, hnew⟩ := ih h
        rw [expire_log] at hnew
        exact ⟨new ++ [.signal t.event now], by rw [hnew, append_assoc]; rfl⟩

/-- **a run with an early timer signals it early** -/
theorem checkFrom_early (fuel : Nat) (hsorted : Sorted s.mEfiTimerList)
    (hdistinct : s.mEfiTimerList.Pairwise fun t u => t.event ≠ u.event) (hnow : now < 2^64)
    (ht : t ∈ s.mEfiTimerList) (hdue : t.triggerTime ≤ now) (h : Early s.log t)
    (hrun : checkFrom now fuel s = some s') : ¬ Legal s'.log := by
  induction fuel generalizing s with
  | zero => cases hrun
  | succ fuel ih =>
    unfold checkFrom at hrun
    cases hs : s.mEfiTimerList with
    | nil =>
      rw [hs] at ht
      exact absurd ht not_mem_nil
    | cons u rest =>
      rw [hs] at ht hsorted hdistinct hrun
      obtain ⟨hfirst, hrest⟩ := pairwise_cons.mp hsorted
      obtain ⟨hother, hdistinct'⟩ := pairwise_cons.mp hdistinct
      have hu : u.triggerTime ≤ now := by
        rcases mem_cons.mp ht with rfl | ht
        · exact hdue
        · exact (hfirst t ht).trans hdue
      dsimp only at hrun
      rw [if_neg (not_lt.mpr hu)] at hrun
      obtain ⟨r, hr, hf, hwrap⟩ := h
      rcases mem_cons.mp ht with rfl | ht
      · -- this is the early signal
        intro hlegal
        obtain ⟨new, hnew⟩ := checkFrom_log fuel hrun
        rw [hnew, expire_log] at hlegal
        obtain ⟨⟨r', hr', -, htime, -⟩, -⟩ := legal_signal.mp hlegal.of_append
        rw [hr] at hr'
        cases hr'
        omega
      · refine ih ?_ ?_ (mem_expire_of_rest ht) ⟨r, ?_, hf, hwrap⟩ hrun
        · rw [expire_list]
          split_ifs
          · exact hrest
          · exact sorted_insert hrest _
        · rw [expire_list]
          split_ifs
          · exact hdistinct'
          · refine (insert_perm _ _).symm.pairwise (pairwise_cons.mpr ⟨fun v hv => ?_, hdistinct'⟩)
              fun h => h.symm
            rw [rearm_event]
            exact hother v hv
        · rw [expire_log, request_signal_other (hother t ht)]
          exact hr

/-! ## operations -/

inductive Operation where
  | setTimer (a : SetArgs)
  | timerTick (duration : Nat)
  | checkTimers

def Operation.run (isTimer : Nat → Bool) : Operation → TimerState → Option TimerState
  | .setTimer a, s => some (coreSetTimer isTimer a s).2
  | .timerTick duration, s => some (coreTimerTick duration s)
  | .checkTimers, s => coreCheckTimers s

def Operation.Words : Operation → Prop
  | .setTimer a => a.triggerTime < 2^64 ∧ a.timerPeriod < 2^64
  | _ => True

def Operation.duration : Operation → Nat
  | .timerTick duration => duration
  | _ => 0

/-- the operation ends; the list is sorted, every signal was allowed, and `CoreCheckTimers` signals what is due -/
def Sound (isTimer : Nat → Bool) (op : Operation) (s : TimerState) : Prop :=
  ∃ s', op.run isTimer s = some s' ∧ Sorted s'.mEfiTimerList ∧ Legal s'.log ∧
    (op = .checkTimers → ∃ new, s'.log = new ++ s.log ∧
      ∀ t ∈ s.mEfiTimerList, t.triggerTime ≤ s.mEfiSystemTime → .signal t.event s.mEfiSystemTime ∈ new)

/-- `CoreCheckTimers` finds no timer whose time wrapped around -/
def Fine (op : Operation) (s : TimerState) : Prop := op = .checkTimers → Punctual s

variable {isTimer : Nat → Bool} {op : Operation}

lemma delay_lt {a : SetArgs} (hw : (Operation.setTimer a).Words) (type : TimerDelay) : a.delay type < 2^64 := by
  unfold SetArgs.delay
  split_ifs
  · exact hw.2
  · exact hw.1

lemma Inv.coreSetTimer (isTimer : Nat → Bool) {a : SetArgs} (h : Inv s) (hw : (Operation.setTimer a).Words) :
    Inv (Event.coreSetTimer isTimer a s).2 ∧
      (Event.coreSetTimer isTimer a s).2.mEfiSystemTime = s.mEfiSystemTime := by
  unfold Event.coreSetTimer
  cases a.event with
  | none => exact ⟨h, rfl⟩
  | some event =>
    cases a.type with
    | none => exact ⟨h, rfl⟩
    | some type =>
      dsimp only
      by_cases htimer : isTimer event = false
      · rw [if_pos htimer]
        exact ⟨h, rfl⟩
      rw [if_neg htimer]
      by_cases hcancel : type = .cancel
      · rw [if_pos hcancel]
        refine ⟨⟨h.sorted.filter _, h.distinct.filter _, fun t ht => ?_, h.time, h.legal⟩, rfl⟩
        obtain ⟨ht, hne⟩ := mem_filter.mp ht
        rw [request_set_other (of_decide_eq_true hne).symm]
        exact h.armed t ht
      · rw [if_neg hcancel]
        refine ⟨⟨sorted_insert (h.sorted.filter _) _, ?_, fun t ht => ?_, h.time, h.legal⟩, rfl⟩
        · refine (insert_perm _ _).symm.pairwise (pairwise_cons.mpr ⟨fun u hu => ?_, h.distinct.filter _⟩)
            fun h => h.symm
          exact (of_decide_eq_true (mem_filter.mp hu).2).symm
        · rcases mem_insert.mp ht with rfl | ht
          · exact ⟨_, request_set_self _ _ _, hcancel, rfl, delay_lt hw type, le_rfl, fun _ => rfl, nofun⟩
          · obtain ⟨ht, hne⟩ := mem_filter.mp ht
            rw [request_set_other (of_decide_eq_true hne).symm]
            exact h.armed t ht

lemma Inv.coreTimerTick {duration : Nat} (h : Inv s) (hclock : s.mEfiSystemTime + duration < 2^64) :
    Inv (Event.coreTimerTick duration s) ∧
      (Event.coreTimerTick duration s).mEfiSystemTime = s.mEfiSystemTime + duration := by
  have htime : (Event.coreTimerTick duration s).mEfiSystemTime = s.mEfiSystemTime + duration := mod_eq_of_lt hclock
  refine ⟨⟨h.sorted, h.distinct, fun t ht => ?_, ?_, h.legal⟩, htime⟩
  · obtain ⟨r, hr, harmed⟩ := h.armed t ht
    refine ⟨r, hr, harmed.type, harmed.period, harmed.delay, ?_, harmed.fresh, fun hf => ?_⟩
    · have := harmed.time
      omega
    · have := (harmed.fired hf).2
      exact ⟨(harmed.fired hf).1, by omega⟩
  · rw [htime]
    exact hclock

lemma period_lt {t : Timer} (h : Inv s) (ht : t ∈ s.mEfiTimerList) : t.period < 2^64 := by
  obtain ⟨r, -, harmed⟩ := h.armed t ht
  rw [harmed.period]
  split_ifs
  · exact harmed.delay
  · norm_num

/-- **one operation**: it is sound if and only if it is fine, and then it keeps the invariant -/
theorem Operation.step (isTimer : Nat → Bool) (h : Inv s) (hw : op.Words) (hclock : s.mEfiSystemTime + op.duration < 2^64) :
    (Sound isTimer op s ↔ Fine op s) ∧
      (Fine op s → ∃ s', op.run isTimer s = some s' ∧ Inv s' ∧ s'.mEfiSystemTime = s.mEfiSystemTime + op.duration) := by
  cases op with
  | setTimer a =>
    obtain ⟨h', htime⟩ := h.coreSetTimer isTimer hw
    exact ⟨⟨fun _ => nofun, fun _ => ⟨_, rfl, h'.sorted, h'.legal, nofun⟩⟩, fun _ => ⟨_, rfl, h', htime⟩⟩
  | timerTick duration =>
    obtain ⟨h', htime⟩ := h.coreTimerTick hclock
    exact ⟨⟨fun _ => nofun, fun _ => ⟨_, rfl, h'.sorted, h'.legal, nofun⟩⟩, fun _ => ⟨_, rfl, h', htime⟩⟩
  | checkTimers =>
    have hends (hp : Punctual s) := checkFrom_ends (2 * s.mEfiTimerList.length + 1) h hp
      (lt_succ_of_le (sum_weight_le _ _))
    refine ⟨⟨fun ⟨s', hrun, _, hlegal, _⟩ _ t ht hdue => ⟨fun hearly => ?_, fun hend => ?_⟩, fun hfine => ?_⟩,
      fun hfine => ?_⟩
    · exact checkFrom_early _ h.sorted h.distinct h.time ht hdue hearly hrun hlegal
    · have hnone : coreCheckTimers s = none := checkFrom_endless _ h.sorted ht hdue (period_lt h ht) hend
      exact nomatch hnone.symm.trans hrun
    · obtain ⟨s', new, hrun, hinv, hlog, -, hall⟩ := hends (hfine rfl)
      exact ⟨s', hrun, hinv.sorted, hinv.legal, fun _ => ⟨new, hlog, hall⟩⟩
    · obtain ⟨s', new, hrun, hinv, -, htime, -⟩ := hends (hfine rfl)
      exact ⟨s', hrun, hinv, htime⟩

end

/-! ## histories -/

def AllSound (isTimer : Nat → Bool) : List Operation → TimerState → Prop
  | [], _ => True
  | op :: ops, s => Sound isTimer op s ∧ ∀ s', op.run isTimer s = some s' → AllSound isTimer ops s'

def AllFine (isTimer : Nat → Bool) : List Operation → TimerState → Prop
  | [], _ => True
  | op :: ops, s => Fine op s ∧ ∀ s', op.run isTimer s = some s' → AllFine isTimer ops s'

def initialTimers : TimerState where
  mEfiTimerList := []
  mEfiSystemTime := 0
  checkSignals := 0
  log := []

lemma inv_initialTimers : Inv initialTimers where
  sorted := .nil
  distinct := .nil
  armed := fun t ht => absurd ht not_mem_nil
  time := by decide
  legal := trivial

lemma allSound_iff {isTimer : Nat → Bool} {ops : List Operation} {s : TimerState} (h : Inv s)
    (hw : ∀ op ∈ ops, op.Words) (hclock : s.mEfiSystemTime + (ops.map Operation.duration).sum < 2^64) :
    AllSound isTimer ops s ↔ AllFine isTimer ops s := by
  induction ops generalizing s with
  | nil => exact Iff.rfl
  | cons op ops ih =>
    rw [map_cons, sum_cons] at hclock
    obtain ⟨hiff, hnext⟩ := Operation.step isTimer h (hw op mem_cons_self) (by omega)
    have hrest (hfine : Fine op s) (s' : TimerState) (hrun : op.run isTimer s = some s') :
        AllSound isTimer ops s' ↔ AllFine isTimer ops s' := by
      obtain ⟨s1, hrun1, hinv, htime⟩ := hnext hfine
      cases hrun1.symm.trans hrun
      refine ih hinv (fun op hop => hw op (mem_cons_of_mem _ hop)) ?_
      omega
    constructor
    · intro ⟨hsound, hops⟩
      have hfine := hiff.mp hsound
      exact ⟨hfine, fun s' hrun => (hrest hfine s' hrun).mp (hops s' hrun)⟩
    · intro ⟨hfine, hops⟩
      exact ⟨hiff.mpr hfine, fun s' hrun => (hrest hfine s' hrun).mpr (hops s' hrun)⟩

/-- **the timer services over a history**: while the system time does not wrap around, the timer list stays
sorted, no event is signalled early or after it was cancelled or its one shot, and every run of
`CoreCheckTimers` ends and signals what is due, if and only if no run finds a timer whose time wrapped around -/
theorem timers_history (isTimer : Nat → Bool) (ops : List Operation) (hw : ∀ op ∈ ops, op.Words)
    (hclock : (ops.map Operation.duration).sum < 2^64) :
    AllSound isTimer ops initialTimers ↔ AllFine isTimer ops initialTimers :=
  allSound_iff inv_initialTimers hw (by rwa [initialTimers, zero_add])

/-- a one-shot timer for the largest time is signalled at once, and a periodic one keeps `CoreCheckTimers` busy
for ever -/
theorem largestDelay_fires : (∃ s, ((coreSetTimer (fun _ => true) ⟨some 7, some .relative, 2^64 - 1, 0⟩
        (coreTimerTick 2 initialTimers)).2 = s ∧ (coreCheckTimers s).map (·.log) =
        some [.signal 7 2, .set 7 .relative (2^64 - 1) 2])) ∧
    ∀ fuel, checkFrom 2 fuel (coreSetTimer (fun _ => true) ⟨some 7, some .periodic, 2^64 - 1, 0⟩
      (coreTimerTick 2 initialTimers)).2 = none := by
  refine ⟨⟨_, rfl, by decide +kernel⟩, fun fuel => ?_⟩
  refine checkFrom_endless fuel (t := ⟨7, 1, 2^64 - 1⟩) ?_ ?_ ?_ ?_ ?_
  · exact pairwise_singleton _ _
  · exact mem_singleton.mpr (by decide +kernel)
  · decide
  · decide
  · exact ⟨by decide, by decide, .inl (by decide)⟩

theorem oneTick_history :
    AllFine (fun _ => true) [.setTimer ⟨some 7, some .periodic, 5, 0⟩, .timerTick 5, .checkTimers] initialTimers ∧
      AllSound (fun _ => true) [.setTimer ⟨some 7, some .periodic, 5, 0⟩, .timerTick 5, .checkTimers]
        initialTimers := by
  have hfine : AllFine (fun _ => true) [.setTimer ⟨some 7, some .periodic, 5, 0⟩, .timerTick 5, .checkTimers]
      initialTimers := by
    refine ⟨nofun, fun s1 h1 => ⟨nofun, fun s2 h2 => ⟨fun _ => ?_, fun s3 _ => trivial⟩⟩⟩
    cases h1
    cases h2
    intro t ht _
    cases mem_singleton.mp ht
    refine ⟨fun ⟨r, hr, _, hwrap⟩ => ?_, fun hend => absurd hend.2.1 (by decide)⟩
    cases hr
    exact absurd hwrap (by decide)
  refine ⟨hfine, (timers_history _ _ (fun op hop => ?_) (by decide)).mpr hfine⟩
  rcases mem_cons.mp hop with rfl | hop
  · exact ⟨by decide, by decide⟩
  · rcases mem_cons.mp hop with rfl | hop
    · trivial
    · rw [mem_singleton.mp hop]
      trivial

end Audk.Event
