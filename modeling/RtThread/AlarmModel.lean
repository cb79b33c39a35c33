import RtThread.GuardedRun
import RtThread.KeyedList
import RtThread.WordArith

/-!
# The RTC alarm service

One alarm of the RTC serves any number of alarms: `_container.current` is the one which has been
set.  The C library is a parameter, with what is relied on: the time of day goes on with the
clock, and `mktime` leaves the time of day of its argument.
-/

namespace RtThread.RtcAlarm

open Word

def RT_RTC_YEARS_MAX : ℤ := 137

def RT_ALARM_DELAY : ℕ := 2

def RT_ALARM_TM_NOW : ℤ := -1

def RT_ALARM_ONESHOT : ℕ := 0x000

def RT_ALARM_DAILY : ℕ := 0x100

def RT_ALARM_WEEKLY : ℕ := 0x200

def RT_ALARM_MONTHLY : ℕ := 0x400

def RT_ALARM_YAERLY : ℕ := 0x800

def RT_EOK : ℤ := 0

def RT_ERROR : ℤ := 1

structure Tm where
  tmSec : ℤ
  tmMin : ℤ
  tmHour : ℤ
  tmMday : ℤ
  tmMon : ℤ
  tmYear : ℤ
  tmWday : ℤ
  deriving DecidableEq

def alarmMkdaysec (time : Tm) : ℕ :=
  ((time.tmSec + time.tmMin * 60 + time.tmHour * 3600) % 4294967296).toNat

structure Tm.OnClock (time : Tm) : Prop where
  sec : 0 ≤ time.tmSec ∧ time.tmSec < 60
  min : 0 ≤ time.tmMin ∧ time.tmMin < 60
  hour : 0 ≤ time.tmHour ∧ time.tmHour < 24

structure Tm.SameClock (time time' : Tm) : Prop where
  sec : time'.tmSec = time.tmSec
  min : time'.tmMin = time.tmMin
  hour : time'.tmHour = time.tmHour

structure Calendar where
  localtime : ℕ → Tm
  mktime : Tm → ℕ × Tm
  zone : ℕ
  onClock : ∀ t, (localtime t).OnClock
  daysec : ∀ t, alarmMkdaysec (localtime t) = (t + zone) % 86400
  mktime_sameClock : ∀ time : Tm, time.OnClock → time.SameClock (mktime time).2
  mktime_localtime : ∀ t, (mktime (localtime t)).2 = localtime t

/-- `struct rt_alarm` at an address; `kind` is `flag & 0xFF00`. -/
structure Alarm where
  addr : ℕ
  kind : ℕ
  inited : Bool
  started : Bool
  callback : Bool
  wktime : Tm
  deriving DecidableEq

/-- `struct rt_rtc_wkalarm` -/
structure Wkalarm where
  enable : Bool
  tmSec : ℤ
  tmMin : ℤ
  tmHour : ℤ
  deriving DecidableEq

/-- The container, the RTC and its clock.  As history, `event` says that the time of the RTC alarm
has come and `alarm_update` has not run for it, and `due` that it has not run at all in that
second; `called` are the callbacks which have been called. -/
structure State where
  alarms : List Alarm
  current : Option ℕ
  rtc : Wkalarm
  now : ℕ
  event : Bool
  due : Bool
  called : List ℕ

/-- The alarm as `rt_device_control` gets it; the RTC keeps the time exactly, so that nothing
changes when it is read back. -/
def alarmSet (alarm : Alarm) : Wkalarm :=
  ⟨alarm.started, alarm.wktime.tmSec, alarm.wktime.tmMin, alarm.wktime.tmHour⟩

def overtime (secNow secAlarm : ℕ) : Bool := sub32 secNow secAlarm ≤ RT_ALARM_DELAY

/-- The alarm, the RTC, `now` behind the call, and whether the callback is called. -/
def alarmWakeup (cal : Calendar) (alarm : Alarm) (rtc : Wkalarm) (now : Tm) :
    Alarm × Wkalarm × Tm × Bool :=
  let secAlarm := alarmMkdaysec alarm.wktime
  let secNow := alarmMkdaysec now
  if alarm.started then
    if alarm.kind = RT_ALARM_ONESHOT then
      let (secAlarm, wktime) := cal.mktime alarm.wktime
      let (secNow, now) := cal.mktime now
      let alarm := { alarm with wktime := wktime }
      if overtime (secNow % 4294967296) (secAlarm % 4294967296) = true ∧
          secNow % 4294967296 ≥ secAlarm % 4294967296 then
        let alarm := { alarm with started := false }
        (alarm, alarmSet alarm, now, alarm.callback)
      else (alarm, rtc, now, false)
    else
      let wakeup :=
        if alarm.kind = RT_ALARM_DAILY then
          overtime secNow secAlarm && decide (secNow ≥ secAlarm)
        else if alarm.kind = RT_ALARM_WEEKLY then
          let secAlarm := (secAlarm + alarm.wktime.tmWday.toNat * 24 * 3600) % 4294967296
          let secNow := (secNow + now.tmWday.toNat * 24 * 3600) % 4294967296
          overtime secNow secAlarm && decide (secNow ≥ secAlarm)
        else if alarm.kind = RT_ALARM_MONTHLY then
          decide (alarm.wktime.tmMday = now.tmMday) && overtime secNow secAlarm
        else if alarm.kind = RT_ALARM_YAERLY then
          decide (alarm.wktime.tmMday = now.tmMday ∧ alarm.wktime.tmMon = now.tmMon) &&
            overtime secNow secAlarm
        else false
      (alarm, rtc, now, wakeup && alarm.callback)
  else (alarm, rtc, now, false)

def wakeupAll (cal : Calendar) : List Alarm → Wkalarm → Tm → List Alarm × Wkalarm × List ℕ
  | [], rtc, _ => ([], rtc, [])
  | alarm :: rest, rtc, now =>
    let (alarm, rtc, now, called) := alarmWakeup cal alarm rtc now
    let (alarms, rtc, calls) := wakeupAll cal rest rtc now
    (alarm :: alarms, rtc, if called then alarm.addr :: calls else calls)

structure Scan where
  secNext : ℤ
  almNext : Option Alarm
  secPrev : ℤ
  almPrev : Option Alarm

def scanStep (secNow : ℕ) (current : Option ℕ) (scan : Scan) (alarm : Alarm) : Scan :=
  let secAlarm := alarmMkdaysec alarm.wktime
  if alarm.started = true ∧ some alarm.addr ≠ current then
    let secTmp : ℤ := secAlarm - secNow
    if secTmp > 0 then
      if secTmp < scan.secNext then { scan with secNext := secTmp, almNext := some alarm }
      else scan
    else if secTmp < scan.secPrev then { scan with secPrev := secTmp, almPrev := some alarm }
    else scan
  else scan

def nextAlarm (secNow : ℕ) (current : Option ℕ) (alarms : List Alarm) : Option Alarm :=
  let scan := alarms.foldl (scanStep secNow current) ⟨24 * 3600, none, 0, none⟩
  if scan.secNext < 24 * 3600 then scan.almNext
  else if scan.secPrev < 0 then scan.almPrev
  else none

def alarmUpdate (cal : Calendar) (s : State) : State :=
  let now := cal.localtime s.now
  let (alarms, rtc, calls) := wakeupAll cal s.alarms s.rtc now
  let s := { s with alarms := alarms, rtc := rtc, called := s.called ++ calls, due := false }
  match nextAlarm (alarmMkdaysec now) s.current alarms with
  | some alarm => { s with rtc := alarmSet alarm, current := some alarm.addr }
  | none => s

def daysOfYearMonth (tmYear tmMon : ℤ) : ℤ :=
  let year := tmYear + 1900
  if tmMon = 1 then if (year % 4 = 0 ∧ year % 100 ≠ 0) ∨ year % 400 = 0 then 29 else 28
  else if (tmMon ≤ 6 ∧ tmMon % 2 = 0) ∨ (tmMon > 6 ∧ tmMon % 2 = 1) then 31
  else 30

def isValidDate (date : Tm) : Bool :=
  if date.tmYear < 0 ∨ date.tmYear > RT_RTC_YEARS_MAX then false
  else if date.tmMon < 0 ∨ date.tmMon > 11 then false
  else if date.tmMday < 1 ∨ date.tmMday > daysOfYearMonth date.tmYear date.tmMon then false
  else true

def orNow (low high value now : ℤ) : ℤ := if value > high ∨ value < low then now else value

def setupDate (kind : ℕ) (setup now : Tm) : Bool × Tm :=
  if kind = RT_ALARM_DAILY then (true, setup)
  else if kind = RT_ALARM_ONESHOT then
    let setup : Tm := { setup with
      tmYear := if setup.tmYear = RT_ALARM_TM_NOW then now.tmYear else setup.tmYear
      tmMon := if setup.tmMon = RT_ALARM_TM_NOW then now.tmMon else setup.tmMon
      tmMday := if setup.tmMday = RT_ALARM_TM_NOW then now.tmMday else setup.tmMday }
    (isValidDate setup, setup)
  else if kind = RT_ALARM_WEEKLY then
    (true, { setup with tmWday := orNow 0 6 setup.tmWday now.tmWday })
  else if kind = RT_ALARM_MONTHLY then
    (true, { setup with tmMday := orNow 1 31 setup.tmMday now.tmMday })
  else if kind = RT_ALARM_YAERLY then
    let setup : Tm := { setup with tmMon := orNow 0 11 setup.tmMon now.tmMon }
    let last : ℤ := if setup.tmMon = 1 then 29
      else if (setup.tmMon ≤ 6 ∧ setup.tmMon % 2 = 0) ∨
          (setup.tmMon > 6 ∧ setup.tmMon % 2 = 1) then 31
      else 30
    (true, { setup with tmMday := orNow 1 last setup.tmMday now.tmMday })
  else (false, setup)

def alarmSetup (cal : Calendar) (t : ℕ) (alarm : Alarm) : Bool × Alarm :=
  let now := cal.localtime t
  let (done, setup) := setupDate alarm.kind { alarm.wktime with
    tmSec := orNow 0 59 alarm.wktime.tmSec now.tmSec
    tmMin := orNow 0 59 alarm.wktime.tmMin now.tmMin
    tmHour := orNow 0 23 alarm.wktime.tmHour now.tmHour } now
  if done then
    let setup :=
      if setup.tmHour = 23 ∧ setup.tmMin = 59 ∧ setup.tmSec = 59 then
        { setup with tmSec := 60 - RT_ALARM_DELAY }
      else setup
    (true, { alarm with wktime := setup, inited := true })
  else (false, { alarm with wktime := setup })

namespace State

def find (s : State) (addr : ℕ) : Option Alarm := s.alarms.find? fun a => a.addr = addr

def put (s : State) (alarm : Alarm) : State :=
  { s with alarms := replaceKeyed Alarm.addr alarm s.alarms }

def comesBefore (secNow secOld secNew : ℕ) : Bool :=
  if secNew < secOld ∧ secNew > secNow then true
  else if secNew > secNow ∧ secOld < secNow then true
  else if secNew < secOld ∧ secOld < secNow then true
  else false

def startSetUp (cal : Calendar) (s : State) (alarm : Alarm) : ℤ × State :=
  if alarm.started then (RT_ERROR, s)
  else
    let alarm := { alarm with started := true }
    let s := s.put alarm
    match s.current.bind s.find with
    | none => (RT_EOK, { s with rtc := alarmSet alarm, current := some alarm.addr })
    | some old =>
      if comesBefore (alarmMkdaysec (cal.localtime s.now)) (alarmMkdaysec old.wktime)
          (alarmMkdaysec alarm.wktime) then
        (RT_EOK, { s with rtc := alarmSet alarm, current := some alarm.addr })
      else (RT_EOK, s)

end State

def rtAlarmStart (cal : Calendar) (s : State) (addr : ℕ) : ℤ × State :=
  match s.find addr with
  | none => (RT_ERROR, s)
  | some alarm =>
    if alarm.inited then s.startSetUp cal alarm
    else
      let (done, alarm) := alarmSetup cal s.now alarm
      if done then (s.put alarm).startSetUp cal alarm else (RT_ERROR, s.put alarm)

def rtAlarmStop (cal : Calendar) (s : State) (addr : ℕ) : ℤ × State :=
  match s.find addr with
  | none => (RT_ERROR, s)
  | some alarm =>
    if alarm.started then
      let alarm := { alarm with started := false }
      let s := s.put alarm
      if s.current = some addr then
        (RT_EOK, alarmUpdate cal { s with rtc := alarmSet alarm, current := none })
      else (RT_ERROR, s)
    else (RT_ERROR, s)

def rtAlarmDelete (cal : Calendar) (s : State) (addr : ℕ) : ℤ × State :=
  match s.find addr with
  | none => (RT_ERROR, s)
  | some alarm =>
    let alarm := { alarm with started := false }
    let s := s.put alarm
    let (ret, s) :=
      if s.current = some addr then
        (RT_EOK, alarmUpdate cal { s with rtc := alarmSet alarm, current := none })
      else (RT_ERROR, s)
    (ret, { s with alarms := s.alarms.eraseP fun a => a.addr = addr })

def rtAlarmCreate (s : State) (addr kind : ℕ) (callback : Bool) (wktime : Tm) : State :=
  { s with alarms := ⟨addr, kind, false, false, callback, wktime⟩ :: s.alarms }

inductive Action where
  | create (addr kind : ℕ) (callback : Bool) (wktime : Tm)
  | start (addr : ℕ)
  | stop (addr : ℕ)
  | delete (addr : ℕ)
  | update
  | advance (seconds : ℕ)

/-- The seconds up to a time of day; up to the present one it is a day, unless the alarms of this
second are still due. -/
def untilNext (secNow : ℕ) (due : Bool) (sec : ℕ) : ℕ :=
  if sec = secNow then if due then 0 else 86400 else (sec + 86400 - secNow) % 86400

def Wkalarm.daysec (rtc : Wkalarm) : ℕ :=
  alarmMkdaysec ⟨rtc.tmSec, rtc.tmMin, rtc.tmHour, 0, 0, 0, 0⟩

def State.untilAlarm (cal : Calendar) (s : State) : ℕ :=
  untilNext (alarmMkdaysec (cal.localtime s.now)) false s.rtc.daysec

/-- The service runs when the alarm has been reached, and the clock does not pass the alarm
before that. -/
def Action.Enabled (cal : Calendar) (s : State) : Action → Prop
  | .create addr _ _ _ => s.find addr = none
  | .start addr => (s.find addr).isSome
  | .stop addr => (s.find addr).isSome
  | .delete addr => (s.find addr).isSome
  | .update => s.event = true
  | .advance seconds => 0 < seconds ∧ s.event = false ∧
      (s.rtc.enable = true → seconds ≤ s.untilAlarm cal)

def execute (cal : Calendar) (s : State) : Action → State
  | .create addr kind callback wktime => rtAlarmCreate s addr kind callback wktime
  | .start addr => (rtAlarmStart cal s addr).2
  | .stop addr => (rtAlarmStop cal s addr).2
  | .delete addr => (rtAlarmDelete cal s addr).2
  | .update => { alarmUpdate cal s with event := false }
  | .advance seconds =>
    let reached := s.rtc.enable && decide (seconds = s.untilAlarm cal)
    { s with now := s.now + seconds, event := reached, due := reached }

def alarmSystem (cal : Calendar) : TransitionSystem State Action where
  init s := s.alarms = [] ∧ s.current = none ∧ s.rtc.enable = false ∧ s.event = false ∧
    s.due = false
  step s action s' := action.Enabled cal s ∧ s' = execute cal s action

end RtThread.RtcAlarm
