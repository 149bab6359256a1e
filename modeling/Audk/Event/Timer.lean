import Audk.Base.Firmware

/-!
# Timer services

`MdeModulePkg/Core/Dxe/Event/Timer.c`.  The timer list is a list of records, the link of an event is its place
in it.  `log` has the requests and the signals, the latest first.

* `Request`, `request`: the last request for an event, and whether the event was signalled since;
* `Legal`: every signal of a log was requested and is not early.
-/

namespace Audk.Event

open List

inductive TimerDelay where
  | cancel | periodic | relative
deriving DecidableEq

/-- the fields `Timer` of an event in the timer list -/
structure Timer where
  event : Nat
  triggerTime : Nat
  period : Nat
deriving DecidableEq

inductive Entry where
  | set (event : Nat) (type : TimerDelay) (delay time : Nat)
  | signal (event time : Nat)
deriving DecidableEq

/-- `checkSignals` counts the signals of `mEfiCheckTimerEvent` -/
structure TimerState where
  mEfiTimerList : List Timer
  mEfiSystemTime : Nat
  checkSignals : Nat
  log : List Entry

/-- `CoreInsertEventTimer`: before the first timer with a later trigger time -/
def coreInsertEventTimer (t : Timer) : List Timer → List Timer
  | [] => [t]
  | u :: us => if t.triggerTime < u.triggerTime then t :: u :: us else u :: coreInsertEventTimer t us

/-- the next trigger time of a periodic timer, and whether it is late -/
def rearm (now : Nat) (t : Timer) : Timer × Bool :=
  let trigger := (t.triggerTime + t.period) % 2^64
  if trigger ≤ now then ({ t with triggerTime := now }, true) else ({ t with triggerTime := trigger }, false)

/-- one turn of the loop of `CoreCheckTimers`, with the first timer of the list -/
def expire (now : Nat) (t : Timer) (rest : List Timer) (s : TimerState) : TimerState :=
  let log := .signal t.event now :: s.log
  if t.period = 0 then { s with mEfiTimerList := rest, log := log }
  else
    { s with
      mEfiTimerList := coreInsertEventTimer (rearm now t).1 rest
      checkSignals := s.checkSignals + if (rearm now t).2 then 1 else 0
      log := log }

/-- the loop of `CoreCheckTimers`, for at most `fuel` tests of its condition -/
def checkFrom (now : Nat) : Nat → TimerState → Option TimerState
  | 0, _ => none
  | fuel + 1, s =>
    match s.mEfiTimerList with
    | [] => some s
    | t :: rest => if now < t.triggerTime then some s else checkFrom now fuel (expire now t rest s)

/-- `CoreCheckTimers`; a timer is signalled at most twice, so the fuel suffices if the loop ends at all -/
def coreCheckTimers (s : TimerState) : Option TimerState :=
  checkFrom s.mEfiSystemTime (2 * s.mEfiTimerList.length + 1) s

def coreTimerTick (duration : Nat) (s : TimerState) : TimerState :=
  let time := (s.mEfiSystemTime + duration) % 2^64
  let expired := match s.mEfiTimerList with
    | [] => false
    | t :: _ => decide (t.triggerTime ≤ time)
  { s with
    mEfiSystemTime := time
    checkSignals := s.checkSignals + if expired then 1 else 0 }

/-- the arguments of `CoreSetTimer`: `event` is `none` for no event, `type` for a value out of range;
`timerPeriod` is what `GetTimerPeriod` returns -/
structure SetArgs where
  event : Option Nat
  type : Option TimerDelay
  triggerTime : Nat
  timerPeriod : Nat

/-- a periodic timer without a time has the period of the timer tick -/
def SetArgs.delay (a : SetArgs) (type : TimerDelay) : Nat :=
  if type = .periodic ∧ a.triggerTime = 0 then a.timerPeriod else a.triggerTime

def SetArgs.timer (a : SetArgs) (event : Nat) (type : TimerDelay) (now : Nat) : Timer where
  event := event
  triggerTime := (now + a.delay type) % 2^64
  period := if type = .periodic then a.delay type else 0

/-- `CoreSetTimer`; `isTimer` says which events have the type `EVT_TIMER` -/
def coreSetTimer (isTimer : Nat → Bool) (a : SetArgs) (s : TimerState) : Option Status × TimerState :=
  match a.event, a.type with
  | some event, some type =>
    if isTimer event = false then (some .invalidParameter, s)
    else
      let rest := s.mEfiTimerList.filter (·.event ≠ event)
      let log := .set event type (a.delay type) s.mEfiSystemTime :: s.log
      if type = .cancel then (none, { s with mEfiTimerList := rest, log := log })
      else
        (none,
          { s with
            mEfiTimerList := coreInsertEventTimer (a.timer event type s.mEfiSystemTime) rest
            checkSignals := s.checkSignals + if a.delay type = 0 then 1 else 0
            log := log })
  | _, _ => (some .invalidParameter, s)

/-! ## what was requested -/

/-- a request for an event; `fired` says whether it was signalled since -/
structure Request where
  type : TimerDelay
  delay : Nat
  time : Nat
  fired : Bool

def request (event : Nat) : List Entry → Option Request
  | [] => none
  | .set e type delay time :: l => if e = event then some ⟨type, delay, time, false⟩ else request event l
  | .signal e _ :: l =>
    if e = event then (request event l).map fun r => { r with fired := true } else request event l

/-- the event may be signalled: it is not cancelled, its time has come, and a one-shot timer was not signalled -/
def Request.Allows (r : Request) (now : Nat) : Prop :=
  r.type ≠ .cancel ∧ r.time + r.delay ≤ now ∧ (r.type = .relative → r.fired = false)

/-- every signal of the log was allowed by the last request -/
def Legal : List Entry → Prop
  | [] => True
  | .set _ _ _ _ :: l => Legal l
  | .signal e now :: l => (∃ r, request e l = some r ∧ r.Allows now) ∧ Legal l

section
variable {event e now : Nat} {l l' : List Entry} {r : Request} {t u : Timer} {ts : List Timer}

lemma request_set_self (type : TimerDelay) (delay time : Nat) :
    request event (.set event type delay time :: l) = some ⟨type, delay, time, false⟩ := if_pos rfl

lemma request_set_other (h : e ≠ event) (type : TimerDelay) (delay time : Nat) :
    request event (.set e type delay time :: l) = request event l := if_neg h

lemma request_signal_self (h : request event l = some r) (time : Nat) :
    request event (.signal event time :: l) = some { r with fired := true } := by
  show (if event = event then _ else _) = _
  rw [if_pos rfl, h]
  rfl

lemma request_signal_other (h : e ≠ event) (time : Nat) :
    request event (.signal e time :: l) = request event l := if_neg h

lemma legal_signal : Legal (.signal e now :: l) ↔ (∃ r, request e l = some r ∧ r.Allows now) ∧ Legal l := Iff.rfl

lemma Legal.of_append (h : Legal (l' ++ l)) : Legal l := by
  induction l' with
  | nil => exact h
  | cons x l' ih =>
    cases x with
    | set e type delay time => exact ih h
    | signal e time => exact ih h.2

/-! ## the list -/

lemma insert_perm (t : Timer) (ts : List Timer) : (coreInsertEventTimer t ts).Perm (t :: ts) := by
  induction ts with
  | nil => exact .refl _
  | cons u us ih =>
    show (if t.triggerTime < u.triggerTime then _ else _ : List Timer).Perm _
    split_ifs
    · exact .refl _
    · exact (ih.cons u).trans (.swap t u us)

lemma mem_insert : u ∈ coreInsertEventTimer t ts ↔ u = t ∨ u ∈ ts := by
  rw [(insert_perm t ts).mem_iff, mem_cons]

def Sorted (ts : List Timer) : Prop := ts.Pairwise fun t u => t.triggerTime ≤ u.triggerTime

lemma sorted_insert (h : Sorted ts) (t : Timer) : Sorted (coreInsertEventTimer t ts) := by
  induction ts with
  | nil => exact pairwise_singleton _ _
  | cons u us ih =>
    obtain ⟨hu, hus⟩ := pairwise_cons.mp h
    show Sorted (if t.triggerTime < u.triggerTime then _ else _)
    split_ifs with hlt
    · refine pairwise_cons.mpr ⟨fun v hv => ?_, h⟩
      rcases mem_cons.mp hv with rfl | hv
      · exact hlt.le
      · exact hlt.le.trans (hu v hv)
    · refine pairwise_cons.mpr ⟨fun v hv => ?_, ih hus⟩
      rcases mem_insert.mp hv with rfl | hv
      · exact not_lt.mp hlt
      · exact hu v hv

end

end Audk.Event
