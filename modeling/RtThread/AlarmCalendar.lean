import RtThread.AlarmModel
import RtThread.Calendar

/-!
# The calendar of the C library

What the alarm service relies on holds of `gmtime_r` and `mktime` as the small C library has them.
Its time zone is always zero.
-/

namespace RtThread.RtcAlarm

open Minilibc

def Tm.ofLibc (t : Minilibc.Tm) : Tm :=
  ⟨t.tmSec, t.tmMin, t.tmHour, t.tmMday, t.tmMon, t.tmYear, t.tmWday⟩

def Tm.toLibc (time : Tm) : Minilibc.Tm :=
  ⟨time.tmSec.toNat, time.tmMin.toNat, time.tmHour.toNat, time.tmMday.toNat, time.tmMon.toNat,
    time.tmYear.toNat, time.tmWday.toNat, 0⟩

/-- The clock starts anew behind the last whole day of a signed `time_t`. -/
def libcTime (t : ℕ) : ℕ := t % (24855 * 86400)

/-- `mktime`; where it reads behind `__spm` the time is left as it is. -/
def libcMktime (time : Tm) : ℕ × Tm :=
  match Minilibc.mktime time.toLibc with
  | some (seconds, t) => (seconds, .ofLibc t)
  | none => (0, time)

theorem libcTime_lt (t : ℕ) : libcTime t < 2147483648 := by
  unfold libcTime
  omega

theorem mktime_toLibc (t : ℕ) (ht : t < 2147483648) :
    Minilibc.mktime (Tm.ofLibc (Minilibc.gmtimeR t)).toLibc = some (t, Minilibc.gmtimeR t) := by
  have hgreg := gmtimeR_gregorian t
  have hsec := hgreg.sec
  have hmin := hgreg.min
  have hhour := hgreg.hour
  have hmday := hgreg.mday
  have hseconds : secondsOf (Tm.ofLibc (gmtimeR t)).toLibc = t := hgreg.time_eq
  have hcarries : Carries (Tm.ofLibc (gmtimeR t)).toLibc := by
    constructor <;> dsimp only [Tm.ofLibc, Tm.toLibc, Int.toNat_natCast]
    · omega
    · omega
    · omega
    · exact hgreg.mon
    · omega
  have hmktime := mktime_carries hcarries hmday.1 hgreg.year (hseconds.symm ▸ ht)
  rwa [hseconds] at hmktime

theorem libcMktime_sameClock {time : Tm} (hclock : time.OnClock) :
    time.SameClock (libcMktime time).2 := by
  obtain ⟨⟨hsec, hsec'⟩, ⟨hmin, hmin'⟩, ⟨hhour, hhour'⟩⟩ := hclock
  unfold libcMktime
  split
  · next seconds t hmktime =>
    obtain ⟨t', hloop, hfinish⟩ := Option.map_eq_some_iff.mp hmktime
    obtain ⟨hs, hm, hh⟩ := dayLoop_clock hloop
    have hcarry : (carryOver time.toLibc).tmSec = time.tmSec.toNat ∧
        (carryOver time.toLibc).tmMin = time.tmMin.toNat ∧
        (carryOver time.toLibc).tmHour = time.tmHour.toNat := by
      have hsec₁ : carry 60 time.tmMin.toNat time.tmSec.toNat = _ := if_neg (by omega)
      have hmin₁ : carry 60 time.tmHour.toNat time.tmMin.toNat = _ := if_neg (by omega)
      have hhour₁ : carry 24 time.tmMday.toNat time.tmHour.toNat = _ := if_neg (by omega)
      simp only [carryOver, Tm.toLibc, hsec₁, hmin₁, hhour₁, and_self]
    have hkept : t.tmSec = t'.tmSec ∧ t.tmMin = t'.tmMin ∧ t.tmHour = t'.tmHour := by
      unfold finish at hfinish
      split_ifs at hfinish <;> cases hfinish <;> exact ⟨rfl, rfl, rfl⟩
    constructor <;> dsimp only [Tm.ofLibc] <;> omega
  · exact ⟨rfl, rfl, rfl⟩

def libcLocaltime (t : ℕ) : Tm := .ofLibc (Minilibc.gmtimeR (libcTime t))

theorem libcLocaltime_onClock (t : ℕ) : (libcLocaltime t).OnClock := by
  have hgreg := Minilibc.gmtimeR_gregorian (libcTime t)
  have hsec := hgreg.sec
  have hmin := hgreg.min
  have hhour := hgreg.hour
  constructor <;> dsimp only [libcLocaltime, Tm.ofLibc] <;> omega

theorem alarmMkdaysec_libcLocaltime (t : ℕ) : alarmMkdaysec (libcLocaltime t) = (t + 0) % 86400 := by
  have htime : libcTime t % 86400 = t % 86400 := by
    unfold libcTime
    omega
  simp only [alarmMkdaysec, libcLocaltime, Tm.ofLibc, Minilibc.gmtimeR]
  omega

theorem libcMktime_libcLocaltime (t : ℕ) : (libcMktime (libcLocaltime t)).2 = libcLocaltime t := by
  rw [libcMktime, libcLocaltime, mktime_toLibc _ (libcTime_lt t)]

/-- The calendar of the alarm service with the functions of the C library. -/
def minilibcCalendar : Calendar where
  localtime := libcLocaltime
  mktime := libcMktime
  zone := 0
  onClock := libcLocaltime_onClock
  daysec := alarmMkdaysec_libcLocaltime
  mktime_sameClock _ := libcMktime_sameClock
  mktime_localtime := libcMktime_libcLocaltime

end RtThread.RtcAlarm
