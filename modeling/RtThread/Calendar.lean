import RtThread.KernelDefs

/-!
# Broken-down time

`gmtime_r` counts the days down year by year; `mktime` has a closed formula for the days before the
year.  Both are compared with the Gregorian calendar, counted from Thursday, 1 January 1970.  The
fields which are `int` are never negative here.
-/

namespace RtThread.Minilibc

open Finset Nat

/-- `struct tm`, less the fields which neither function touches. -/
@[ext] structure Tm where
  tmSec : ℕ
  tmMin : ℕ
  tmHour : ℕ
  tmMday : ℕ
  tmMon : ℕ
  tmYear : ℕ
  tmWday : ℕ
  tmYday : ℕ
  deriving DecidableEq

def spm : List ℕ := [0, 31, 59, 90, 120, 151, 181, 212, 243, 273, 304, 334, 365]

def isleap (year : ℕ) : Bool := year % 4 = 0 ∧ (year % 100 ≠ 0 ∨ year % 400 = 0)

/-- `for (i = 1970;; ++i)`; the first number bounds the rounds, and each takes days off `work`. -/
def yearLoop : ℕ → ℕ → ℕ → ℕ × ℕ
  | 0, i, work => (i, work)
  | n + 1, i, work =>
    let k := if isleap i then 366 else 365
    if k ≤ work then yearLoop n (i + 1) (work - k) else (i, work)

/-- `for (i = 11; i && (__spm[i] > work); --i)` -/
def monthLoop (work : ℕ) : ℕ → ℕ
  | 0 => 0
  | i + 1 => if work < spm.getD (i + 1) 0 then monthLoop work i else i + 1

def monthDay (leap : Bool) (work : ℕ) : ℕ × ℕ :=
  let mday := if leap ∧ work = 59 then 2 else 1
  let work := if leap ∧ 58 < work then work - 1 else work
  let mon := monthLoop work 11
  (mon, mday + (work - spm.getD mon 0))

def gmtimeR (time : ℕ) : Tm :=
  let work := time % (24 * 60 * 60)
  let day := time / (24 * 60 * 60)
  let (i, yday) := yearLoop day 1970 day
  let (mon, mday) := monthDay (isleap i) yday
  { tmSec := work % 60, tmMin := work / 60 % 60, tmHour := work / 60 / 60,
    tmMday := mday, tmMon := mon, tmYear := i - 1900, tmWday := (4 + day) % 7, tmYday := yday }

/-- `if (low > unit) { high += low / unit; low %= unit; }` -/
def carry (unit high low : ℕ) : ℕ × ℕ :=
  if unit < low then (high + low / unit, low % unit) else (high, low)

def carryOver (t : Tm) : Tm :=
  let (min, sec) := carry 60 t.tmMin t.tmSec
  let (hour, min) := carry 60 t.tmHour min
  let (mday, hour) := carry 24 t.tmMday hour
  let (year, mon) := carry 12 t.tmYear t.tmMon
  { t with tmSec := sec, tmMin := min, tmHour := hour, tmMday := mday, tmMon := mon, tmYear := year }

def nextMonth (t : Tm) : Tm :=
  let mday := if t.tmMon = 1 ∧ isleap (t.tmYear + 1900) then t.tmMday - 1 else t.tmMday
  let mday := mday - spm.getD t.tmMon 0
  if 11 < t.tmMon + 1 then { t with tmMday := mday, tmMon := 0, tmYear := t.tmYear + 1 }
  else { t with tmMday := mday, tmMon := t.tmMon + 1 }

/-- `while (t->tm_mday > __spm[1 + t->tm_mon])`; nothing where the index is outside `__spm`. -/
def dayLoop : ℕ → Tm → Option Tm
  | 0, _ => none
  | n + 1, t =>
    match spm[1 + t.tmMon]? with
    | none => none
    | some days => if days < t.tmMday then dayLoop n (nextMonth t) else some t

/-- From `day = years * 365 + (years + 1) / 4` on. -/
def closedDays (years : ℕ) : ℕ :=
  let day := years * 365 + (years + 1) / 4
  if 131 ≤ years then
    let years := (years - 131) / 100
    let day := day - (years / 4 * 3 + 1)
    day - if years % 4 = 3 then years % 4 - 1 else years % 4
  else day

def finish (years : ℕ) (t : Tm) : ℕ × Tm :=
  if t.tmYear < 70 then (4294967295, t) else
    let yday := spm.getD t.tmMon 0 + t.tmMday - 1 +
      if isleap (t.tmYear + 1900) ∧ 1 < t.tmMon then 1 else 0
    let day := closedDays years + yday
    (((day * 24 + t.tmHour) * 60 + t.tmMin) * 60 + t.tmSec,
      { t with tmYday := yday, tmWday := (day + 4) % 7 })

/-- For years from 1970 on: before them the code's unsigned `years` wraps around. -/
def mktime (t : Tm) : Option (ℕ × Tm) :=
  let years := t.tmYear - 70
  (dayLoop (2 * (carryOver t).tmMday + 2) (carryOver t)).map (finish years)

def monthDays (leap : Bool) (mon : ℕ) : ℕ :=
  [31, if leap then 29 else 28, 31, 30, 31, 30, 31, 31, 30, 31, 30, 31].getD mon 0

def yearDays (year : ℕ) : ℕ := ∑ mon ∈ Finset.range 12, monthDays (isleap year) mon

def dayNumber (t : Tm) : ℕ :=
  let year := t.tmYear + 1900 + t.tmMon / 12
  ∑ k ∈ Finset.range (year - 1970), yearDays (1970 + k) +
    ∑ mon ∈ Finset.range (t.tmMon % 12), monthDays (isleap year) mon + (t.tmMday - 1)

def secondsOf (t : Tm) : ℕ := ((dayNumber t * 24 + t.tmHour) * 60 + t.tmMin) * 60 + t.tmSec

/-- The fields are the date and time of the second `time` since 1970. -/
structure Gregorian (time : ℕ) (t : Tm) : Prop where
  sec : t.tmSec < 60
  min : t.tmMin < 60
  hour : t.tmHour < 24
  mday : 1 ≤ t.tmMday ∧ t.tmMday ≤ monthDays (isleap (t.tmYear + 1900)) t.tmMon
  mon : t.tmMon < 12
  year : 70 ≤ t.tmYear
  time_eq : secondsOf t = time
  wday : t.tmWday = (dayNumber t + 4) % 7
  yday : t.tmYday = ∑ mon ∈ Finset.range t.tmMon, monthDays (isleap (t.tmYear + 1900)) mon +
    (t.tmMday - 1)

variable {t t' r r' s : Tm} {time n : ℕ}

theorem yearDays_eq (year : ℕ) : yearDays year = if isleap year then 366 else 365 := by
  unfold yearDays
  cases isleap year <;> decide

theorem yearDays_pos (year : ℕ) : 365 ≤ yearDays year := by
  rw [yearDays_eq]
  split_ifs <;> omega

theorem sum_monthDays (leap : Bool) {mon : ℕ} (hmon : mon ≤ 12) :
    ∑ m ∈ Finset.range mon, monthDays leap m =
      spm.getD mon 0 + if leap ∧ 1 < mon then 1 else 0 := by
  cases leap <;> interval_cases mon <;> decide

/-- The loop over the years stops in the year of the day. -/
theorem yearLoop_spec (fuel n work : ℕ) (hfuel : work ≤ fuel) :
    ∃ k rest, yearLoop fuel (1970 + n) work = (1970 + k, rest) ∧ rest < yearDays (1970 + k) ∧
      ∑ i ∈ Finset.range n, yearDays (1970 + i) + work =
        ∑ i ∈ Finset.range k, yearDays (1970 + i) + rest := by
  induction fuel generalizing n work with
  | zero =>
    have hpos := yearDays_pos (1970 + n)
    exact ⟨n, work, rfl, by omega, rfl⟩
  | succ fuel ih =>
    have hpos := yearDays_pos (1970 + n)
    have hdays := yearDays_eq (1970 + n)
    simp only [yearLoop, ← hdays]
    split_ifs with hle
    · obtain ⟨k, rest, heq, hrest, hsum⟩ := ih (n + 1) (work - yearDays (1970 + n)) (by omega)
      refine ⟨k, rest, heq, hrest, ?_⟩
      rw [sum_range_succ] at hsum
      omega
    · exact ⟨n, work, rfl, by omega, rfl⟩

/-- The loop over the months stops in the month of the day. -/
theorem monthLoop_spec (work n : ℕ) : monthLoop work n ≤ n ∧
    spm.getD (monthLoop work n) 0 ≤ work ∧
      (monthLoop work n < n → work < spm.getD (monthLoop work n + 1) 0) := by
  induction n with
  | zero => exact ⟨le_rfl, Nat.zero_le work, fun hlt => absurd hlt (lt_irrefl 0)⟩
  | succ i ih =>
    rw [monthLoop]
    split_ifs with hbefore
    · obtain ⟨hle, hlow, hhigh⟩ := ih
      refine ⟨hle.trans i.le_succ, hlow, fun _ => ?_⟩
      rcases hle.lt_or_eq with hlt | heq
      · exact hhigh hlt
      · rwa [heq]
    · exact ⟨le_rfl, not_lt.mp hbefore, fun hlt => absurd hlt (lt_irrefl _)⟩

/-- Month and day of a day of the year. -/
theorem monthDay_spec (leap : Bool) {work : ℕ} (hwork : work < if leap then 366 else 365) :
    (monthDay leap work).1 < 12 ∧ 1 ≤ (monthDay leap work).2 ∧
      (monthDay leap work).2 ≤ monthDays leap (monthDay leap work).1 ∧
      ∑ m ∈ Finset.range (monthDay leap work).1, monthDays leap m + ((monthDay leap work).2 - 1) =
        work := by
  obtain ⟨hmon, hlow, hhigh⟩ := monthLoop_spec (if leap ∧ 58 < work then work - 1 else work) 11
  unfold monthDay
  dsimp only
  generalize monthLoop (if leap ∧ 58 < work then work - 1 else work) 11 = mon at *
  rw [sum_monthDays leap (hmon.trans (by decide))]
  cases leap <;> interval_cases mon <;>
    simp only [spm, monthDays, List.getD_cons_succ, List.getD_cons_zero] at hlow hhigh ⊢ <;> grind

theorem gmtimeR_gregorian (time : ℕ) : Gregorian time (gmtimeR time) := by
  obtain ⟨k, rest, heq, hrest, hsum⟩ := yearLoop_spec (time / 86400) 0 (time / 86400) le_rfl
  rw [yearDays_eq] at hrest
  obtain ⟨hmon, hlow, hhigh, hdays⟩ := monthDay_spec (isleap (1970 + k)) hrest
  have hyear : 1970 + k - 1900 + 1900 = 1970 + k := by omega
  have hnumber : dayNumber (gmtimeR time) = time / 86400 := by
    simp only [dayNumber, gmtimeR, reduceMul, heq, hyear, div_eq_of_lt hmon,
      Nat.mod_eq_of_lt hmon, Nat.add_zero, Nat.add_sub_cancel_left]
    simp only [range_zero, sum_empty] at hsum
    omega
  have htime : secondsOf (gmtimeR time) = time := by
    simp only [secondsOf, hnumber]
    simp only [gmtimeR, Nat.reduceMul]
    omega
  have hwday : (gmtimeR time).tmWday = (dayNumber (gmtimeR time) + 4) % 7 := by
    rw [hnumber]
    simp only [gmtimeR, reduceMul]
    omega
  refine ⟨?_, ?_, ?_, ?_, ?_, ?_, htime, hwday, ?_⟩
  all_goals simp only [gmtimeR, reduceMul, heq, hyear]
  all_goals omega

theorem prefix_lt {f : ℕ → ℕ} {i j a : ℕ} (ha : a < f i) (hij : i < j) :
    ∑ k ∈ Finset.range i, f k + a < ∑ k ∈ Finset.range j, f k := by
  have hle : ∑ k ∈ range (i + 1), f k ≤ ∑ k ∈ range j, f k :=
    sum_le_sum_of_subset (range_subset_range.2 hij)
  rw [sum_range_succ] at hle
  omega

theorem prefix_unique {f : ℕ → ℕ} {i j a b : ℕ} (ha : a < f i) (hb : b < f j)
    (heq : ∑ k ∈ Finset.range i, f k + a = ∑ k ∈ Finset.range j, f k + b) : i = j ∧ a = b := by
  have hij : i = j := by
    by_contra hne
    rcases lt_or_gt_of_ne hne with hlt | hlt
    · have := prefix_lt ha hlt
      omega
    · have := prefix_lt hb hlt
      omega
  subst hij
  exact ⟨rfl, by omega⟩

theorem Gregorian.dayNumber_eq (h : Gregorian time r) :
    dayNumber r = ∑ k ∈ Finset.range (r.tmYear - 70), yearDays (1970 + k) + r.tmYday := by
  have hyear : r.tmYear + 1900 - 1970 = r.tmYear - 70 := by omega
  simp only [dayNumber, div_eq_of_lt h.mon, mod_eq_of_lt h.mon, add_zero, hyear, h.yday,
    add_assoc]

theorem Gregorian.yday_lt (h : Gregorian time r) : r.tmYday < yearDays (1970 + (r.tmYear - 70)) := by
  have hyear : 1970 + (r.tmYear - 70) = r.tmYear + 1900 := by have := h.year; omega
  have hmday := h.mday
  rw [h.yday, hyear, yearDays]
  exact prefix_lt (by omega) h.mon

theorem Gregorian.unique (h : Gregorian time r) (h' : Gregorian time r') : r = r' := by
  have hclock : dayNumber r = dayNumber r' ∧ r.tmHour = r'.tmHour ∧ r.tmMin = r'.tmMin ∧
      r.tmSec = r'.tmSec := by
    have heq := h.time_eq.trans h'.time_eq.symm
    have hhour := And.intro h.hour h'.hour
    have hmin := And.intro h.min h'.min
    have hsec := And.intro h.sec h'.sec
    simp only [secondsOf] at heq
    omega
  have hdays := hclock.1
  rw [h.dayNumber_eq, h'.dayNumber_eq] at hdays
  obtain ⟨hyears, hyday⟩ := prefix_unique (f := fun k => yearDays (1970 + k)) h.yday_lt
    h'.yday_lt hdays
  have hyear : r.tmYear = r'.tmYear := by
    have := h.year
    have := h'.year
    omega
  have hmonths := h.yday.symm.trans (hyday.trans h'.yday)
  have hmday := h.mday
  have hmday' := h'.mday
  rw [← hyear] at hmonths hmday'
  obtain ⟨hmon, hday⟩ := prefix_unique (f := monthDays (isleap (r.tmYear + 1900)))
    (by omega) (by omega) hmonths
  exact Tm.ext hclock.2.2.2 hclock.2.2.1 hclock.2.1 (by omega) hmon hyear
    (by rw [h.wday, h'.wday, hclock.1]) hyday

theorem carry_total (unit high low : ℕ) :
    (carry unit high low).1 * unit + (carry unit high low).2 = high * unit + low := by
  unfold carry
  split_ifs with h
  · have := div_add_mod low unit
    rw [add_mul, mul_comm (low / unit) unit]
    omega
  · rfl

theorem carry_of_ne {unit low : ℕ} (high : ℕ) (hne : low ≠ unit) :
    carry unit high low = (high + low / unit, low % unit) := by
  unfold carry
  split_ifs with h
  · rfl
  · rw [div_eq_of_lt (by omega), mod_eq_of_lt (by omega), add_zero]

theorem carry_self (unit high : ℕ) : carry unit high unit = (high, unit) := if_neg (lt_irrefl unit)

theorem closedDays_eq (n : ℕ) (hn : n < 131) :
    closedDays n = ∑ k ∈ Finset.range n, yearDays (1970 + k) := by
  have hclosed : ∀ n < 131, n * 365 + (n + 1) / 4 = ∑ k ∈ range n, yearDays (1970 + k) := by
    intro n
    induction n with
    | zero => intro _; rfl
    | succ n ih =>
      intro hn
      rw [sum_range_succ, ← ih (by omega), yearDays_eq]
      simp only [isleap, decide_eq_true_eq]
      split_ifs <;> omega
  rw [closedDays, if_neg (by omega), hclosed n hn]

theorem finish_gregorian (h : Gregorian time r) (hyear : r.tmYear < 201) :
    finish (r.tmYear - 70) r = (time, r) := by
  have hyear' := h.year
  have hmday := h.mday
  have hmon := h.mon
  have hyday : spm.getD r.tmMon 0 + r.tmMday - 1 +
      (if isleap (r.tmYear + 1900) ∧ 1 < r.tmMon then 1 else 0) = r.tmYday := by
    rw [h.yday, sum_monthDays _ (by omega)]
    omega
  have hnumber : closedDays (r.tmYear - 70) + r.tmYday = dayNumber r := by
    rw [h.dayNumber_eq, closedDays_eq _ (by omega)]
  have htime := h.time_eq
  rw [secondsOf] at htime
  simp only [finish, if_neg (show ¬r.tmYear < 70 by omega), hyday, hnumber, htime, ← h.wday]

theorem finish_ignores (years : ℕ) (hyear : 70 ≤ t.tmYear) (wday yday : ℕ) :
    finish years { t with tmWday := wday, tmYday := yday } = finish years t := by
  have hlt : ¬t.tmYear < 70 := by omega
  simp only [finish, if_neg hlt]

theorem Gregorian.year_lt (h : Gregorian time r) (htime : time < 2147483648) : r.tmYear < 139 := by
  by_contra hge
  have hsum : ∑ k ∈ range 69, yearDays (1970 + k) ≤
      ∑ k ∈ range (r.tmYear - 70), yearDays (1970 + k) :=
    sum_le_sum_of_subset (range_subset_range.2 (by omega))
  rw [← closedDays_eq 69 (by omega)] at hsum
  have hclosed : closedDays 69 = 25202 := by decide
  have hdays := h.dayNumber_eq
  have heq := h.time_eq
  rw [secondsOf] at heq
  omega

theorem carryOver_secondsOf (hmday : 1 ≤ t.tmMday) : secondsOf (carryOver t) = secondsOf t := by
  have hsec := carry_total 60 t.tmMin t.tmSec
  have hmin := carry_total 60 t.tmHour (carry 60 t.tmMin t.tmSec).1
  have hhour := carry_total 24 t.tmMday (carry 60 t.tmHour (carry 60 t.tmMin t.tmSec).1).1
  have hle : t.tmMday ≤ (carryOver t).tmMday := by
    simp only [carryOver, carry]
    split_ifs <;> omega
  have hyear : (carryOver t).tmYear + 1900 + (carryOver t).tmMon / 12 =
      t.tmYear + 1900 + t.tmMon / 12 ∧ (carryOver t).tmMon % 12 = t.tmMon % 12 := by
    simp only [carryOver, carry]
    split_ifs <;> grind
  simp only [secondsOf, dayNumber, hyear]
  simp only [carryOver] at hle ⊢
  omega

/-- The fields for which `mktime` does what it is for: no carry meets its limit exactly, the month
is in the year, and the day in the month. -/
structure Carries (t : Tm) : Prop where
  sec : t.tmSec ≠ 60
  min : t.tmMin + t.tmSec / 60 ≠ 60
  hour : t.tmHour + (t.tmMin + t.tmSec / 60) / 60 ≠ 24
  mon : t.tmMon < 12
  mday : t.tmMday + (t.tmHour + (t.tmMin + t.tmSec / 60) / 60) / 24 ≤
    monthDays (isleap (t.tmYear + 1900)) t.tmMon

theorem Carries.carryOver_eq (h : Carries t) : carryOver t =
    { t with
      tmSec := t.tmSec % 60
      tmMin := (t.tmMin + t.tmSec / 60) % 60
      tmHour := (t.tmHour + (t.tmMin + t.tmSec / 60) / 60) % 24
      tmMday := t.tmMday + (t.tmHour + (t.tmMin + t.tmSec / 60) / 60) / 24 } := by
  have hmon := h.mon
  have hyear : carry 12 t.tmYear t.tmMon = (t.tmYear, t.tmMon) := if_neg (by omega)
  simp only [carryOver, carry_of_ne _ h.sec, carry_of_ne _ h.min, carry_of_ne _ h.hour, hyear]

theorem monthDays_le (leap : Bool) {mon : ℕ} (hmon : mon < 12) :
    ∃ days, spm[1 + mon]? = some days ∧ monthDays leap mon ≤ days := by
  cases leap <;> interval_cases mon <;> exact ⟨_, rfl, by decide⟩

theorem mktime_carries (h : Carries t) (hmday : 1 ≤ t.tmMday) (hyear : 70 ≤ t.tmYear)
    (htime : secondsOf t < 2147483648) : mktime t = some (secondsOf t, gmtimeR (secondsOf t)) := by
  have hcarry := h.carryOver_eq
  have hsame := carryOver_secondsOf hmday
  have hdays := h.mday
  have hmon := h.mon
  rw [hcarry] at hsame
  set c : Tm := { t with
    tmSec := t.tmSec % 60
    tmMin := (t.tmMin + t.tmSec / 60) % 60
    tmHour := (t.tmHour + (t.tmMin + t.tmSec / 60) / 60) % 24
    tmMday := t.tmMday + (t.tmHour + (t.tmMin + t.tmSec / 60) / 60) / 24 } with hc
  let r : Tm := { c with
    tmWday := (dayNumber c + 4) % 7
    tmYday := ∑ mon ∈ range c.tmMon, monthDays (isleap (c.tmYear + 1900)) mon +
      (c.tmMday - 1) }
  have hr : Gregorian (secondsOf t) r :=
    ⟨mod_lt _ (by omega), mod_lt _ (by omega), mod_lt _ (by omega),
      ⟨by simp only [r, hc]; omega, hdays⟩, hmon, hyear, hsame, rfl, rfl⟩
  have hfinish : finish (t.tmYear - 70) c = (secondsOf t, r) := by
    rw [← finish_gregorian hr (by have := hr.year_lt htime; omega)]
    exact (finish_ignores (t := c) _ hyear _ _).symm
  obtain ⟨days, hspm, hle⟩ := monthDays_le (isleap (t.tmYear + 1900)) hmon
  have hloop : dayLoop (2 * c.tmMday + 2) c = some c := by
    rw [dayLoop, show spm[1 + c.tmMon]? = some days from hspm]
    exact if_neg (by simp only [hc]; omega)
  simp only [mktime, hcarry, hloop, Option.map_some, hfinish]
  rw [hr.unique (gmtimeR_gregorian _)]

theorem mktime_gmtimeR (time : ℕ) (htime : time < 2147483648) :
    mktime (gmtimeR time) = some (time, gmtimeR time) := by
  have h := gmtimeR_gregorian time
  have hsec := h.sec
  have hmin := h.min
  have hhour := h.hour
  have hmday := h.mday
  have hcarries : Carries (gmtimeR time) := ⟨by omega, by omega, by omega, h.mon, by omega⟩
  have hmktime := mktime_carries hcarries hmday.1 h.year (by rw [h.time_eq]; exact htime)
  rwa [h.time_eq] at hmktime

/-- `gmtime_r` gives the Gregorian date of a time, and `mktime` the time of that date. -/
theorem calendar_roundTrip (time : ℕ) (htime : time < 2147483648) :
    Gregorian time (gmtimeR time) ∧ mktime (gmtimeR time) = some (time, gmtimeR time) :=
  ⟨gmtimeR_gregorian time, mktime_gmtimeR time htime⟩

theorem calendar_roundTrip_leapDay : Gregorian 951782400 (gmtimeR 951782400) ∧
      mktime (gmtimeR 951782400) = some (951782400, gmtimeR 951782400) :=
  calendar_roundTrip 951782400 (by decide)

theorem spm_step : ∀ mon < 12, spm[1 + mon]? = some (spm.getD (1 + mon) 0) ∧
    spm.getD mon 0 + 28 ≤ spm.getD (1 + mon) 0 ∧ 31 ≤ spm.getD (1 + mon) 0 := by decide

theorem spm_drift : ∀ mon < 12, (mon = 0 → 2 * spm.getD mon 0 + 31 = spm.getD (1 + mon) 0) ∧
    (mon = 1 → 2 * spm.getD mon 0 = spm.getD (1 + mon) 0 + 3) ∧
    (mon = 2 → spm.getD (1 + mon) 0 = 90 ∧ spm.getD mon 0 = 59) ∧
    (2 < mon → spm.getD (1 + mon) 0 < 2 * spm.getD mon 0) ∧
    (mon = 11 → 2 * spm.getD mon 0 = spm.getD (1 + mon) 0 + 303) := by decide

theorem nextMonth_dayNumber (hmon : t.tmMon < 12) (hyear : 70 ≤ t.tmYear)
    (hmday : spm.getD (1 + t.tmMon) 0 < t.tmMday) :
    dayNumber (nextMonth t) + 2 * spm.getD t.tmMon 0 = dayNumber t + spm.getD (1 + t.tmMon) 0 := by
  obtain ⟨-, hstep, -⟩ := spm_step _ hmon
  have hdays := yearDays_eq (t.tmYear + 1900)
  have hsplit : (if isleap (t.tmYear + 1900) ∧ 1 < t.tmMon + 1 then 1 else 0) =
      (if isleap (t.tmYear + 1900) ∧ 1 < t.tmMon then 1 else 0) +
        if t.tmMon = 1 ∧ isleap (t.tmYear + 1900) then 1 else 0 := by
    split_ifs <;> grind
  have hmday' : (if t.tmMon = 1 ∧ isleap (t.tmYear + 1900) then t.tmMday - 1 else t.tmMday) +
      (if t.tmMon = 1 ∧ isleap (t.tmYear + 1900) then 1 else 0) = t.tmMday := by
    split_ifs <;> omega
  have hone : (if t.tmMon = 1 ∧ isleap (t.tmYear + 1900) then 1 else 0) ≤ 1 := by
    split_ifs <;> omega
  rw [add_comm 1] at *
  by_cases hlast : t.tmMon = 11
  · have hnext : t.tmYear + 1 + 1900 - 1970 = t.tmYear + 1900 - 1970 + 1 := by omega
    have hback : 1970 + (t.tmYear + 1900 - 1970) = t.tmYear + 1900 := by omega
    simp only [nextMonth, hlast, if_pos (show 11 < 11 + 1 by omega), dayNumber,
      zero_mod, add_zero, hnext, sum_range_succ, sum_range_zero, hback, hdays,
      reduceDiv, reduceMod, sum_monthDays _ (show 11 ≤ 12 by omega)]
    rw [hlast] at hmday
    have hlow : spm.getD 11 0 = 334 := by decide
    have hhigh : spm.getD (11 + 1) 0 = 365 := by decide
    rw [hhigh] at hmday
    rw [hlow, hhigh]
    cases isleap (t.tmYear + 1900) <;> (norm_num; omega)
  · have hlt : ¬11 < t.tmMon + 1 := by omega
    have hmod := mod_eq_of_lt hmon
    have hmod' := mod_eq_of_lt (show t.tmMon + 1 < 12 by omega)
    simp only [dayNumber, nextMonth, if_neg hlt, hmod, hmod', div_eq_of_lt hmon,
      div_eq_of_lt (show t.tmMon + 1 < 12 by omega), add_zero,
      sum_monthDays _ (show t.tmMon ≤ 12 by omega), sum_monthDays _ (show t.tmMon + 1 ≤ 12 by omega)]
    omega

/-- What the rounds have made of the day number of `s`: it is gained and lost in the first three
months, and lost from then on. -/
structure Drifted (s t : Tm) : Prop where
  mon : t.tmMon < 12
  year : 70 ≤ t.tmYear
  january : t.tmMon = 0 → dayNumber t = dayNumber s ∨ dayNumber t + 303 ≤ dayNumber s
  february : t.tmMon = 1 → dayNumber t = dayNumber s + 31 ∨ dayNumber t ≤ dayNumber s
  march : t.tmMon = 2 → dayNumber t = dayNumber s + 28 ∨ dayNumber t ≤ dayNumber s
  later : 2 < t.tmMon → dayNumber t ≤ dayNumber s

theorem Drifted.next (h : Drifted s t) (hmday : spm.getD (1 + t.tmMon) 0 < t.tmMday) :
    Drifted s (nextMonth t) ∧ (dayNumber (nextMonth t) = dayNumber s →
      (nextMonth t).tmMon = 3 ∧ 31 < (nextMonth t).tmMday) := by
  have hstep := nextMonth_dayNumber h.mon h.year hmday
  obtain ⟨hmon, hyear, hjan, hfeb, hmar, hlater⟩ := h
  have hmon' : t.tmMon = 11 ∧ (nextMonth t).tmMon = 0 ∨
      t.tmMon < 11 ∧ (nextMonth t).tmMon = t.tmMon + 1 := by
    simp only [nextMonth]
    split_ifs <;> grind
  have hyear' : t.tmYear ≤ (nextMonth t).tmYear := by
    simp only [nextMonth]
    split_ifs <;> grind
  have hmarch : t.tmMon = 2 → (nextMonth t).tmMday = t.tmMday - 59 := by
    intro h
    simp [nextMonth, h, spm]
  obtain ⟨hzero, hone, htwo, hthree, hlast⟩ := spm_drift _ hmon
  have hyear70 := hyear.trans hyear'
  have hmonth : t.tmMon = 0 ∨ t.tmMon = 1 ∨ t.tmMon = 2 ∨ 2 < t.tmMon := by omega
  rcases hmonth with hold | hold | hold | hold
  · have hbefore := hjan hold
    have hdays := hzero hold
    clear hjan hfeb hmar hlater hzero hone htwo hthree hlast hmarch
    refine ⟨⟨by omega, hyear70, ?_, ?_, ?_, ?_⟩, ?_⟩ <;> omega
  · have hbefore := hfeb hold
    have hdays := hone hold
    clear hjan hfeb hmar hlater hzero hone htwo hthree hlast hmarch
    refine ⟨⟨by omega, hyear70, ?_, ?_, ?_, ?_⟩, ?_⟩ <;> omega
  · have hbefore := hmar hold
    have hdays := htwo hold
    have hmday' := hmarch hold
    clear hjan hfeb hmar hlater hzero hone htwo hthree hlast hmarch
    refine ⟨⟨by omega, hyear70, ?_, ?_, ?_, ?_⟩, ?_⟩ <;> omega
  · have hbefore := hlater hold
    have hdays := hthree hold
    clear hjan hfeb hmar hlater hzero hone htwo hthree hmarch
    refine ⟨⟨by omega, hyear70, ?_, ?_, ?_, ?_⟩, ?_⟩ <;> omega

theorem nextMonth_clock (t : Tm) : (nextMonth t).tmSec = t.tmSec ∧ (nextMonth t).tmMin = t.tmMin ∧
    (nextMonth t).tmHour = t.tmHour := by
  unfold nextMonth
  split_ifs <;> exact ⟨rfl, rfl, rfl⟩

theorem dayLoop_clock (hloop : dayLoop n t = some t') :
    t'.tmSec = t.tmSec ∧ t'.tmMin = t.tmMin ∧ t'.tmHour = t.tmHour := by
  induction n generalizing t with
  | zero => cases hloop
  | succ n ih =>
    rw [dayLoop] at hloop
    cases hdays : spm[1 + t.tmMon]? with
    | none =>
      rw [hdays] at hloop
      cases hloop
    | some days =>
      rw [hdays] at hloop
      dsimp only at hloop
      split_ifs at hloop
      · obtain ⟨hsec, hmin, hhour⟩ := nextMonth_clock t
        rw [← hsec, ← hmin, ← hhour]
        exact ih hloop
      · cases hloop
        exact ⟨rfl, rfl, rfl⟩

/-- The loop over the days leaves the date, or a day past the end of April. -/
theorem dayLoop_spec (h : Drifted s t) (hloop : dayLoop n t = some t') :
    t'.tmMon < 12 ∧ 70 ≤ t'.tmYear ∧
      (t' = t ∨ (dayNumber t' = dayNumber s → t'.tmMon = 3 ∧ 31 < t'.tmMday)) := by
  induction n generalizing t with
  | zero => cases hloop
  | succ n ih =>
    rw [dayLoop, (spm_step _ h.mon).1] at hloop
    dsimp only at hloop
    split_ifs at hloop with hmday
    · obtain ⟨hnext, hequal⟩ := h.next hmday
      obtain ⟨hmon, hyear, hcase⟩ := ih hnext hloop
      refine ⟨hmon, hyear, .inr ?_⟩
      rcases hcase with rfl | hcase
      · exact hequal
      · exact hcase
    · cases hloop
      exact ⟨h.mon, h.year, .inl rfl⟩

theorem dayLoop_ends (hmon : t.tmMon < 12)
    (hn : 2 * t.tmMday + (if t.tmMon = 0 then 1 else 0) < n) : (dayLoop n t).isSome := by
  induction n generalizing t with
  | zero => omega
  | succ n ih =>
    obtain ⟨hspm, hstep, hlow⟩ := spm_step _ hmon
    rw [dayLoop, hspm]
    dsimp only
    split_ifs with hmday
    · have hnext : (nextMonth t).tmMon < 12 ∧
          2 * (nextMonth t).tmMday + (if (nextMonth t).tmMon = 0 then 1 else 0) <
            2 * t.tmMday + (if t.tmMon = 0 then 1 else 0) := by
        have hpos : t.tmMon = 0 ∨ 31 ≤ spm.getD t.tmMon 0 := by
          rcases Nat.eq_zero_or_pos t.tmMon with hzero | hpos
          · exact .inl hzero
          · have hprev := (spm_step (t.tmMon - 1) (by omega)).2.2
            rw [show 1 + (t.tmMon - 1) = t.tmMon by omega] at hprev
            exact .inr hprev
        simp only [nextMonth]
        split_ifs <;> grind
      exact ih hnext.1 (by omega)
    · rfl

/-- `mktime` returns the time and leaves its date exactly in these cases. -/
theorem mktime_normalises_iff (t : Tm) (hmday : 1 ≤ t.tmMday) (hyear : 70 ≤ t.tmYear)
    (htime : secondsOf t < 2147483648) :
    mktime t = some (secondsOf t, gmtimeR (secondsOf t)) ↔ Carries t := by
  refine ⟨fun h => ?_, fun h => mktime_carries h hmday hyear htime⟩
  have hsame := carryOver_secondsOf hmday
  have hgreg := gmtimeR_gregorian (secondsOf t)
  rw [mktime, Option.map_eq_some_iff] at h
  obtain ⟨t', hloop, hfinish⟩ := h
  have hyear' : 70 ≤ (carryOver t).tmYear := by
    simp only [carryOver, carry]
    split_ifs <;> omega
  have hmon : (carryOver t).tmMon < 12 := by
    have hle : (carryOver t).tmMon ≤ 12 := by
      simp only [carryOver, carry]
      split_ifs <;> omega
    by_contra hge
    have hout : (carryOver t).tmMon = 12 := by omega
    rw [dayLoop, hout] at hloop
    cases hloop
  obtain ⟨hsec, hmin, hhour⟩ := dayLoop_clock hloop
  obtain ⟨-, hyear'', hcase⟩ := dayLoop_spec
    (s := carryOver t) ⟨hmon, hyear', fun _ => .inl rfl, fun _ => .inr le_rfl, fun _ => .inr le_rfl,
      fun _ => le_rfl⟩ hloop
  rw [finish, if_neg (by omega)] at hfinish
  obtain ⟨hvalue, hfields⟩ := Prod.mk.inj hfinish
  rw [← hfields] at hgreg
  -- the fields are the same day as before the loop, so that it has not run
  have hnumber : dayNumber t' = dayNumber (carryOver t) := by
    have heq := hgreg.time_eq.trans hsame.symm
    change secondsOf t' = _ at heq
    rw [secondsOf, secondsOf, hsec, hmin, hhour] at heq
    omega
  have hstay : t' = carryOver t := by
    rcases hcase with h | h
    · exact h
    · obtain ⟨hapril, hlong⟩ := h hnumber
      have hshort : t'.tmMday ≤ monthDays (isleap (t'.tmYear + 1900)) t'.tmMon := hgreg.mday.2
      have hthirty : monthDays (isleap (t'.tmYear + 1900)) 3 = 30 := rfl
      rw [hapril] at hshort
      omega
  subst hstay
  have hyear_eq : (carryOver t).tmYear = t.tmYear := by
    have hle : t.tmYear ≤ (carryOver t).tmYear := by
      simp only [carryOver, carry]
      split_ifs <;> omega
    have hlt : (carryOver t).tmYear < 139 := hgreg.year_lt htime
    have hdays := hgreg.dayNumber_eq
    change dayNumber (carryOver t) = ∑ k ∈ range ((carryOver t).tmYear - 70),
      yearDays (1970 + k) + _ at hdays
    dsimp only at hdays
    rw [secondsOf] at hsame
    have hclosed := closedDays_eq (t.tmYear - 70) (by omega)
    have hsum : ∑ k ∈ range (t.tmYear - 70), yearDays (1970 + k) + 0 =
        ∑ k ∈ range ((carryOver t).tmYear - 70), yearDays (1970 + k) + 0 := by omega
    have heq := prefix_unique (f := fun k => yearDays (1970 + k))
      (by have := yearDays_pos (1970 + (t.tmYear - 70)); omega)
      (by have := yearDays_pos (1970 + ((carryOver t).tmYear - 70)); omega) hsum
    omega
  have hmon_eq : t.tmMon < 12 ∧ (carryOver t).tmMon = t.tmMon := by
    simp only [carryOver, carry] at hyear_eq hmon ⊢
    split_ifs at hyear_eq hmon ⊢ <;> omega
  have hsec_ne : t.tmSec ≠ 60 := by
    intro h
    have hlt : (carryOver t).tmSec < 60 := hgreg.sec
    simp only [carryOver, h, carry_self] at hlt
    omega
  have hmin_ne : t.tmMin + t.tmSec / 60 ≠ 60 := by
    intro h
    have hlt : (carryOver t).tmMin < 60 := hgreg.min
    simp only [carryOver, carry_of_ne _ hsec_ne, h, carry_self] at hlt
    omega
  have hhour_ne : t.tmHour + (t.tmMin + t.tmSec / 60) / 60 ≠ 24 := by
    intro h
    have hlt : (carryOver t).tmHour < 24 := hgreg.hour
    simp only [carryOver, carry_of_ne _ hsec_ne, carry_of_ne _ hmin_ne, h, carry_self] at hlt
    omega
  have hmday_le : (carryOver t).tmMday ≤ monthDays (isleap ((carryOver t).tmYear + 1900))
      (carryOver t).tmMon := hgreg.mday.2
  rw [hyear_eq, hmon_eq.2] at hmday_le
  simp only [carryOver, carry_of_ne _ hsec_ne, carry_of_ne _ hmin_ne,
    carry_of_ne _ hhour_ne] at hmday_le
  exact ⟨hsec_ne, hmin_ne, hhour_ne, hmon_eq.1, hmday_le⟩

theorem mktime_normalises_sample :
    mktime ⟨59, 61, 22, 28, 1, 100, 0, 0⟩ = some (secondsOf ⟨59, 61, 22, 28, 1, 100, 0, 0⟩,
      gmtimeR (secondsOf ⟨59, 61, 22, 28, 1, 100, 0, 0⟩)) :=
  (mktime_normalises_iff ⟨59, 61, 22, 28, 1, 100, 0, 0⟩ (by decide) (by decide)
    (by decide)).2 ⟨by decide, by decide, by decide, by decide, by decide⟩

/-- The 32nd of January becomes the 32nd of February. -/
theorem not_mktime_normalises : ¬∀ t : Tm, 1 ≤ t.tmMday → 70 ≤ t.tmYear →
    secondsOf t < 2147483648 → mktime t = some (secondsOf t, gmtimeR (secondsOf t)) := by
  intro h
  have hwrong := h ⟨0, 0, 0, 32, 0, 70, 0, 0⟩ (by decide) (by decide) (by decide)
  have hcode : mktime ⟨0, 0, 0, 32, 0, 70, 0, 0⟩ =
      some (62 * 86400, ⟨0, 0, 0, 32, 1, 70, 3, 62⟩) := by decide
  have hright : secondsOf ⟨0, 0, 0, 32, 0, 70, 0, 0⟩ = 31 * 86400 := by decide
  rw [hcode, hright] at hwrong
  nomatch congrArg (Option.map Prod.fst) hwrong

end RtThread.Minilibc
