import Audk.Base.Overflow
import Mathlib.Tactic.IntervalCases
import Mathlib.Logic.Function.Iterate

/-!
# Epoch seconds and calendar dates (`TimeBaseLib.c`)

`nextDay` is the proleptic Gregorian calendar: the day after a date.

* `epochDays_nextDay`: `EfiGetEpochDays` counts the days;
* `dateOf_epochDays`: the closed formulas of `EpochToEfiTime` are its inverse;
* `epoch_calendar`: both conversions follow the calendar, but `EpochToEfiTime` clears `Nanosecond`.
-/

namespace Audk.TimeBase

open Nat Function

structure EfiTime where
  (year month day hour minute second nanosecond : Nat)
deriving DecidableEq

/-- the year, the month and the day that `EpochToEfiTime` stores; the sums and products stay below
`2 ^ 64` -/
def dateOf (days : Nat) : Nat × Nat × Nat :=
  let j := days + 2440588 + 32044
  let g := j / 146097
  let dg := j % 146097
  let c := (dg / 36524 + 1) * 3 / 4
  let dc := sub64 dg (c * 36524)
  let b := dc / 1461
  let db := dc % 1461
  let a := (db / 365 + 1) * 3 / 4
  let da := sub64 db (a * 365)
  let y := g * 400 + c * 100 + b * 4 + a
  let m := sub64 ((da * 5 + 308) / 153) 2
  let d := (sub64 da ((m + 4) * 153 / 5) + 122) % 2^64
  ((sub64 y 4800 + (m + 2) / 12) % 2^16, (m + 2) % 12 + 1, (d + 1) % 2^8)

def epochToEfiTime (epochSeconds : Nat) : EfiTime :=
  let date := dateOf (epochSeconds / 86400)
  let ss := epochSeconds % 60
  let a := (epochSeconds - ss) / 60
  let mm := a % 60
  let b := (a - mm) / 60
  ⟨date.1, date.2.1, date.2.2, b % 24, mm, ss, 0⟩

def efiGetEpochDays (t : EfiTime) : Nat :=
  let a := (14 - (t.month : Int)).tdiv 12
  let y := ((t.year + 4800 - a) % 2^64).toNat
  let m := ((t.month + 12 * a - 3) % 2^64).toNat
  sub64 (sub64 (sub64 (t.day + (153 * m + 2) / 5 + 365 * y + y / 4) (y / 100) + y / 400) 32045) 2440588

def efiTimeToEpoch (t : EfiTime) : Nat :=
  (efiGetEpochDays t * 86400 + t.hour * 3600 + t.minute * 60 + t.second) % 2^64

def efiTimeToWday (t : EfiTime) : Nat := (efiGetEpochDays t + 4) % 2^64 % 7

def isLeapYear (t : EfiTime) : Bool :=
  if t.year % 4 = 0 then if t.year % 100 = 0 then if t.year % 400 = 0 then true else false else true else false

def dayOfMonth : List Nat := [31, 29, 31, 30, 31, 30, 31, 31, 30, 31, 30, 31]

def isDayValid (t : EfiTime) : Bool :=
  !(decide (t.day < 1) || decide (dayOfMonth.getD (t.month - 1) 0 < t.day) ||
    (decide (t.month = 2) && (!isLeapYear t && decide (28 < t.day))))

structure EfiTime.Valid (t : EfiTime) : Prop where
  month : 1 ≤ t.month ∧ t.month ≤ 12
  day : isDayValid t = true
  hour : t.hour < 24
  minute : t.minute < 60
  second : t.second < 60

def nextDay (t : EfiTime) : EfiTime :=
  if isDayValid { t with day := t.day + 1 } then { t with day := t.day + 1 }
  else if t.month < 12 then { t with month := t.month + 1, day := 1 }
  else { t with year := t.year + 1, month := 1, day := 1 }

/-- the days from March 1st of year -4800 to that of the year `y` behind it -/
def marchDays (y : Nat) : Nat := 365 * y + y / 4 - y / 100 + y / 400

variable {t : EfiTime}

/-- the year that begins in March, and the month in it -/
def marchYear (t : EfiTime) : Nat := if t.month ≤ 2 then t.year + 4799 else t.year + 4800

def marchMonth (t : EfiTime) : Nat := (t.month + 9) % 12

lemma sub64_eq {a b : Nat} (h : b ≤ a) (ha : a < 2^64) : sub64 a b = a - b := by
  unfold sub64
  omega

lemma epochDays_eq (hm : 1 ≤ t.month ∧ t.month ≤ 12) (hy : 1970 ≤ t.year ∧ t.year ≤ 2^16) (hd : 1 ≤ t.day ∧ t.day ≤ 31) :
    efiGetEpochDays t + 2472633 = marchDays (marchYear t) + (153 * marchMonth t + 2) / 5 + t.day := by
  have hyear : ((t.year + 4800 - (14 - (t.month : Int)) / 12) % 2^64).toNat = marchYear t := by
    unfold marchYear
    split <;> omega
  have hmonth : ((t.month + 12 * ((14 - (t.month : Int)) / 12) - 3) % 2^64).toNat = marchMonth t := by
    unfold marchMonth
    omega
  have hlo : (marchYear t = 6769 ∧ 10 ≤ marchMonth t ∨ 6770 ≤ marchYear t) ∧ marchYear t ≤ 70336 := by
    unfold marchYear marchMonth
    split <;> omega
  have hlt : marchMonth t < 12 := mod_lt _ (by decide)
  simp only [efiGetEpochDays, Int.tdiv_eq_ediv_of_nonneg (show 0 ≤ 14 - (t.month : Int) by omega), hyear, hmonth]
  unfold marchDays
  generalize marchYear t = y at *
  generalize marchMonth t = m at *
  clear hyear hmonth
  have hlow : 2472633 ≤ t.day + (153 * m + 2) / 5 + 365 * y + y / 4 - y / 100 + y / 400 := by
    rcases hlo.1 with ⟨rfl, h⟩ | h <;> omega
  rw [sub64_eq (show y / 100 ≤ _ by omega) (by omega), sub64_eq (show 32045 ≤ _ by omega) (by omega),
    sub64_eq (show 2440588 ≤ _ by omega) (by omega)]
  omega

/-- the number of a part of length `n`, of which the last is one day longer -/
lemma part_eq {q r n : Nat} (hq : q < 4) (hn : 1 < n) (hr : r < n ∨ q = 3 ∧ r = n) : ((n * q + r) / n + 1) * 3 / 4 = q := by
  rw [mul_add_div (by omega)]
  rcases hr with h | ⟨rfl, rfl⟩
  · rw [div_eq_of_lt h]
    omega
  · rw [Nat.div_self (by omega)]

/-- the closed formulas of `EpochToEfiTime`, for a day `d` of a month `m` -/
lemma dateOf_march {y m d days : Nat} (hy : 4800 ≤ y ∧ y < 80000) (hm : m < 12) (hmonth : (153 * m + 2) / 5 + d < (153 * (m + 1) + 2) / 5)
    (hlast : (153 * m + 2) / 5 + d < if y % 4 = 3 ∧ (y % 100 = 99 → y % 400 = 399) then 366 else 365)
    (hdays : days + 2440588 + 32044 = marchDays y + (153 * m + 2) / 5 + d) :
    dateOf days = ((y - 4800 + (m + 2) / 12) % 2^16, (m + 2) % 12 + 1, d + 1) := by
  -- the year in its cycles of 400, 100 and 4 years
  obtain ⟨g, c, b, a, hc, hb, ha, rfl⟩ : ∃ g c b a, c < 4 ∧ b < 25 ∧ a < 4 ∧ y = 400 * g + 100 * c + 4 * b + a :=
    ⟨y / 400, y % 400 / 100, y % 100 / 4, y % 4, by omega, by omega, by omega, by omega⟩
  obtain ⟨k, hk⟩ : ∃ k, k = (153 * m + 2) / 5 + d := ⟨_, rfl⟩
  have hk' : k < 366 ∧ (a < 3 → k < 365) ∧ (b = 24 → c < 3 → k < 365) := by
    rw [← hk] at hlast
    split_ifs at hlast <;> omega
  have hsum : days + 2440588 + 32044 = 146097 * g + (36524 * c + (1461 * b + (365 * a + k))) := by
    unfold marchDays at hdays
    omega
  have h1 : (days + 2440588 + 32044) / 146097 = g := by omega
  have h2 : (days + 2440588 + 32044) % 146097 = 36524 * c + (1461 * b + (365 * a + k)) := by omega
  have h3 : ((36524 * c + (1461 * b + (365 * a + k))) / 36524 + 1) * 3 / 4 = c := part_eq hc (by decide) (by omega)
  have h4 : sub64 (36524 * c + (1461 * b + (365 * a + k))) (c * 36524) = 1461 * b + (365 * a + k) := by
    rw [sub64_eq (by omega) (by omega)]
    omega
  have h5 : (1461 * b + (365 * a + k)) / 1461 = b := by omega
  have h6 : (1461 * b + (365 * a + k)) % 1461 = 365 * a + k := by omega
  have h7 : ((365 * a + k) / 365 + 1) * 3 / 4 = a := part_eq ha (by decide) (by omega)
  have h8 : sub64 (365 * a + k) (a * 365) = k := by
    rw [sub64_eq (by omega) (by omega)]
    omega
  have h9 : sub64 ((k * 5 + 308) / 153) 2 = m := by
    rw [sub64_eq (by omega) (by omega)]
    omega
  have h10 : (sub64 k ((m + 4) * 153 / 5) + 122) % 2^64 = d := by
    rw [hk, show (m + 4) * 153 / 5 = (153 * m + 2) / 5 + 122 by omega]
    generalize (153 * m + 2) / 5 = q at *
    unfold sub64
    omega
  have h11 : sub64 (g * 400 + c * 100 + b * 4 + a) 4800 = 400 * g + 100 * c + 4 * b + a - 4800 := by
    rw [sub64_eq (by omega) (by omega)]
    omega
  simp only [dateOf, h1, h2, h3, h4, h5, h6, h7, h8, h9, h10, h11]
  rw [mod_eq_of_lt (show d + 1 < 2^8 by omega)]

/-- the days of the month: from one month to the next in the year that begins in March, but February -/
def monthLength (t : EfiTime) : Nat :=
  if t.month = 2 then if isLeapYear t then 29 else 28
  else (153 * (marchMonth t + 1) + 2) / 5 - (153 * marchMonth t + 2) / 5

lemma isDayValid_iff (hm : 1 ≤ t.month ∧ t.month ≤ 12) : isDayValid t = true ↔ 1 ≤ t.day ∧ t.day ≤ monthLength t := by
  obtain ⟨h1, h2⟩ := hm
  unfold isDayValid monthLength marchMonth dayOfMonth
  generalize t.month = month at *
  cases isLeapYear t <;> interval_cases month <;> simp <;> omega

lemma isLeapYear_iff : isLeapYear t = true ↔ t.year % 4 = 0 ∧ (t.year % 100 = 0 → t.year % 400 = 0) := by
  unfold isLeapYear
  split_ifs <;> simp <;> omega

lemma EfiTime.Valid.day_bounds (ht : t.Valid) : 1 ≤ t.day ∧ t.day ≤ monthLength t ∧ t.day ≤ 31 := by
  have hd := (isDayValid_iff ht.month).mp ht.day
  refine ⟨hd.1, hd.2, hd.2.trans ?_⟩
  unfold monthLength
  split_ifs <;> omega

lemma dateOf_epochDays (ht : t.Valid) (hy : 1970 ≤ t.year ∧ t.year < 2^16) :
    dateOf (efiGetEpochDays t) = (t.year, t.month, t.day) := by
  have hm := ht.month
  obtain ⟨hd0, hd, hle⟩ := ht.day_bounds
  have h := epochDays_eq hm ⟨hy.1, hy.2.le⟩ ⟨hd0, hle⟩
  unfold monthLength at hd
  simp only [isLeapYear_iff] at hd
  rw [dateOf_march (y := marchYear t) (m := marchMonth t) (d := t.day - 1) ?_ (mod_lt _ (by decide)) ?_ ?_ (by omega)]
  · rw [Prod.mk.injEq, Prod.mk.injEq]
    unfold marchYear marchMonth
    split_ifs <;> omega
  · unfold marchYear
    split_ifs <;> omega
  · unfold marchMonth at *
    split_ifs at hd <;> omega
  · unfold marchMonth at *
    unfold marchYear
    split_ifs at hd ⊢ <;> omega

/-- `EfiGetEpochDays` counts the days -/
lemma epochDays_nextDay (ht : t.Valid) (hy : 1970 ≤ t.year ∧ t.year < 2^16) :
    (nextDay t).Valid ∧ efiGetEpochDays (nextDay t) = efiGetEpochDays t + 1 := by
  have hm := ht.month
  obtain ⟨hd0, hd, hle⟩ := ht.day_bounds
  have h := epochDays_eq hm ⟨hy.1, hy.2.le⟩ ⟨hd0, hle⟩
  have hmonth : t.month ≠ 2 → (t.month + 1 + 9) % 12 = (t.month + 9) % 12 + 1 := by omega
  have hfirst {u : EfiTime} (hu : 1 ≤ u.month ∧ u.month ≤ 12) (hday : u.day = 1) : isDayValid u = true := by
    refine (isDayValid_iff hu).mpr ⟨hday.ge, ?_⟩
    unfold monthLength
    split_ifs <;> omega
  have hone : 1 ≤ 1 ∧ 1 ≤ 12 := by decide
  have hlast : ¬ isDayValid { t with day := t.day + 1 } → t.day = monthLength t := fun hn =>
    hd.antisymm (not_lt.mp fun hlt => hn ((isDayValid_iff (t := { t with day := t.day + 1 }) hm).mpr ⟨succ_pos _, hlt⟩))
  unfold nextDay
  split_ifs with h1 h2
  · have hv : EfiTime.Valid { t with day := t.day + 1 } := { ht with day := h1 }
    have h' := epochDays_eq hv.month ⟨hy.1, hy.2.le⟩ ⟨hv.day_bounds.1, hv.day_bounds.2.2⟩
    refine ⟨hv, ?_⟩
    simp only [marchYear, marchMonth] at *
    omega
  · have hv : EfiTime.Valid { t with month := t.month + 1, day := 1 } :=
      { ht with month := ⟨succ_pos _, h2⟩, day := hfirst ⟨succ_pos _, h2⟩ rfl }
    have h' := epochDays_eq hv.month ⟨hy.1, hy.2.le⟩ ⟨hv.day_bounds.1, hv.day_bounds.2.2⟩
    have h3 := hlast h1
    refine ⟨hv, ?_⟩
    unfold monthLength at h3
    simp only [isLeapYear_iff, marchYear, marchMonth, marchDays] at *
    split_ifs at * <;> omega
  · have hv : EfiTime.Valid { t with year := t.year + 1, month := 1, day := 1 } :=
      { ht with month := hone, day := hfirst hone rfl }
    have h' := epochDays_eq hv.month ⟨hy.1.trans (le_succ _), hy.2⟩ ⟨hv.day_bounds.1, hv.day_bounds.2.2⟩
    have h3 := hlast h1
    refine ⟨hv, ?_⟩
    unfold monthLength at h3
    simp only [marchYear, marchMonth, marchDays] at *
    split_ifs at * <;> omega

def epoch : EfiTime := ⟨1970, 1, 1, 0, 0, 0, 0⟩

lemma year_le_nextDay (t : EfiTime) : t.year ≤ (nextDay t).year := by
  unfold nextDay
  split_ifs <;> simp

lemma iterate_nextDay (n : Nat) (h : (nextDay^[n] epoch).year < 2^16) :
    (nextDay^[n] epoch).Valid ∧ 1970 ≤ (nextDay^[n] epoch).year ∧ efiGetEpochDays (nextDay^[n] epoch) = n := by
  induction n with
  | zero => exact ⟨⟨by decide, by decide, by decide, by decide, by decide⟩, le_rfl, by decide +kernel⟩
  | succ n ih =>
    rw [iterate_succ_apply'] at h ⊢
    have hle := year_le_nextDay (nextDay^[n] epoch)
    obtain ⟨hv, hy, hdays⟩ := ih (by omega)
    obtain ⟨hv', hdays'⟩ := epochDays_nextDay hv ⟨hy, by omega⟩
    exact ⟨hv', hy.trans hle, by rw [hdays', hdays]⟩

lemma epochDays_lt (ht : t.Valid) (hy : 1970 ≤ t.year ∧ t.year < 2^16) : efiGetEpochDays t < 2^32 := by
  obtain ⟨hd0, -, hle⟩ := ht.day_bounds
  have h := epochDays_eq ht.month ⟨hy.1, hy.2.le⟩ ⟨hd0, hle⟩
  have hyear : marchYear t ≤ 70336 := by
    unfold marchYear
    split <;> omega
  have hmonth : marchMonth t < 12 := mod_lt _ (by decide)
  unfold marchDays at h
  omega

lemma efiTimeToEpoch_eq (ht : t.Valid) (hy : 1970 ≤ t.year ∧ t.year < 2^16) :
    efiTimeToEpoch t = efiGetEpochDays t * 86400 + t.hour * 3600 + t.minute * 60 + t.second := by
  have h1 := epochDays_lt ht hy
  have h2 := ht.hour
  have h3 := ht.minute
  have h4 := ht.second
  exact mod_eq_of_lt (by omega)

/-- the date and time that `seconds` after the epoch are on the calendar -/
def calendar (seconds : Nat) : EfiTime :=
  let date := nextDay^[seconds / 86400] epoch
  ⟨date.year, date.month, date.day, seconds / 3600 % 24, seconds / 60 % 60, seconds % 60, 0⟩

/-- **both conversions follow the calendar** -/
theorem epoch_calendar :
    (∀ s, (calendar s).year < 2^16 →
      epochToEfiTime s = calendar s ∧ (calendar s).Valid ∧ efiTimeToEpoch (epochToEfiTime s) = s) ∧
    (∀ t : EfiTime, t.Valid → 1970 ≤ t.year → t.year < 2^16 →
      epochToEfiTime (efiTimeToEpoch t) = { t with nanosecond := 0 } ∧
        efiTimeToWday (nextDay t) = (efiTimeToWday t + 1) % 7) := by
  refine ⟨fun s hs => ?_, fun t ht h1 h2 => ⟨?_, ?_⟩⟩
  · obtain ⟨hv, hy, hdays⟩ := iterate_nextDay (s / 86400) hs
    have hv' : (calendar s).Valid :=
      { hv with hour := mod_lt _ (by decide), minute := mod_lt _ (by decide), second := mod_lt _ (by decide) }
    have hdate := dateOf_epochDays hv ⟨hy, hs⟩
    rw [hdays] at hdate
    have he : epochToEfiTime s = calendar s := by
      rw [epochToEfiTime, hdate]
      simp only [calendar, EfiTime.mk.injEq, true_and, and_true]
      omega
    have hdays' : efiGetEpochDays (calendar s) = s / 86400 := hdays
    refine ⟨he, hv', ?_⟩
    rw [he, efiTimeToEpoch_eq hv' ⟨hy, hs⟩, hdays']
    simp only [calendar]
    omega
  · have := ht.hour
    have := ht.minute
    have := ht.second
    rw [efiTimeToEpoch_eq ht ⟨h1, h2⟩, epochToEfiTime, show _ / 86400 = efiGetEpochDays t by omega, dateOf_epochDays ht ⟨h1, h2⟩]
    simp only [EfiTime.mk.injEq, true_and, and_true]
    omega
  · have hlt := epochDays_lt ht ⟨h1, h2⟩
    unfold efiTimeToWday
    rw [(epochDays_nextDay ht ⟨h1, h2⟩).2]
    omega

/-- the second part is about a build without `ASSERT`: before 1970, the number of days wraps -/
theorem nanosecond_lost :
    (EfiTime.Valid ⟨2000, 1, 1, 0, 0, 0, 1⟩ ∧
      epochToEfiTime (efiTimeToEpoch ⟨2000, 1, 1, 0, 0, 0, 1⟩) = ⟨2000, 1, 1, 0, 0, 0, 0⟩) ∧
    efiTimeToWday ⟨1969, 12, 27, 0, 0, 0, 0⟩ = 1 ∧ efiTimeToWday ⟨1969, 12, 28, 0, 0, 0, 0⟩ = 0 :=
  ⟨⟨⟨by decide, by decide, by decide, by decide, by decide⟩, by decide +kernel⟩, by decide +kernel, by decide +kernel⟩

end Audk.TimeBase
