import RtThread.AlarmModel

/-!
# What one run of `alarm_update` finds

The wake-ups stop the one-shot alarms whose time has come, and the scan finds the alarm which
comes first behind the present second.
-/

namespace RtThread.RtcAlarm

open List Option Word

variable {cal : Calendar} {t : ℕ} {a x : Alarm} {alarms seen : List Alarm} {rtc : Wkalarm}
  {secNow : ℕ} {current : Option ℕ}

theorem alarmMkdaysec_of_onClock {time : Tm} (hclock : time.OnClock) :
    (alarmMkdaysec time : ℤ) = time.tmSec + time.tmMin * 60 + time.tmHour * 3600 ∧
      alarmMkdaysec time < 86400 := by
  have hsec := hclock.sec
  have hmin := hclock.min
  have hhour := hclock.hour
  have hmod : (time.tmSec + time.tmMin * 60 + time.tmHour * 3600) % 4294967296 =
      time.tmSec + time.tmMin * 60 + time.tmHour * 3600 := Int.emod_eq_of_lt (by lia) (by lia)
  unfold alarmMkdaysec
  rw [hmod]
  lia

theorem Tm.SameClock.daysec {time time' : Tm} (hsame : time.SameClock time') :
    alarmMkdaysec time' = alarmMkdaysec time := by
  unfold alarmMkdaysec
  rw [hsame.sec, hsame.min, hsame.hour]

theorem Tm.SameClock.onClock {time time' : Tm} (hsame : time.SameClock time')
    (hclock : time.OnClock) : time'.OnClock where
  sec := by
    rw [hsame.sec]
    exact hclock.sec
  min := by
    rw [hsame.min]
    exact hclock.min
  hour := by
    rw [hsame.hour]
    exact hclock.hour

theorem untilNext_le (secNow : ℕ) (due : Bool) (sec : ℕ) : untilNext secNow due sec ≤ 86400 := by
  unfold untilNext
  split_ifs <;> omega

def fires (cal : Calendar) (t : ℕ) (alarm : Alarm) : Bool :=
  alarm.started && decide (alarm.kind = RT_ALARM_ONESHOT ∧
    overtime ((cal.mktime (cal.localtime t)).1 % 4294967296)
      ((cal.mktime alarm.wktime).1 % 4294967296) = true ∧
    (cal.mktime (cal.localtime t)).1 % 4294967296 ≥ (cal.mktime alarm.wktime).1 % 4294967296)

def awoken (cal : Calendar) (t : ℕ) (alarm : Alarm) : Alarm :=
  if alarm.started = true ∧ alarm.kind = RT_ALARM_ONESHOT then
    { alarm with wktime := (cal.mktime alarm.wktime).2, started := !fires cal t alarm }
  else alarm

theorem awoken_addr (cal : Calendar) (t : ℕ) (a : Alarm) : (awoken cal t a).addr = a.addr := by
  unfold awoken
  split_ifs <;> rfl

theorem awoken_inited (cal : Calendar) (t : ℕ) (a : Alarm) :
    (awoken cal t a).inited = a.inited := by
  unfold awoken
  split_ifs <;> rfl

theorem awoken_started (cal : Calendar) (t : ℕ) (a : Alarm) :
    (awoken cal t a).started = (a.started && !fires cal t a) := by
  unfold awoken
  split_ifs with honeshot
  · rw [honeshot.1, Bool.true_and]
  · have hkept : fires cal t a = false := by
      unfold fires
      rw [Bool.and_eq_false_iff, decide_eq_false_iff_not]
      by_cases hstarted : a.started = true
      · exact .inr fun h => honeshot ⟨hstarted, h.1⟩
      · exact .inl (by simpa using hstarted)
    rw [hkept, Bool.not_false, Bool.and_true]

theorem awoken_sameClock (t : ℕ) (hclock : a.wktime.OnClock) :
    a.wktime.SameClock (awoken cal t a).wktime := by
  unfold awoken
  split_ifs
  · exact cal.mktime_sameClock _ hclock
  · exact ⟨rfl, rfl, rfl⟩

theorem alarmWakeup_eq (cal : Calendar) (t : ℕ) (a : Alarm) (rtc : Wkalarm) :
    ∃ called, alarmWakeup cal a rtc (cal.localtime t) =
      (awoken cal t a, if fires cal t a then alarmSet (awoken cal t a) else rtc,
        cal.localtime t, called) := by
  unfold alarmWakeup awoken
  by_cases hstarted : a.started = true
  · by_cases honeshot : a.kind = RT_ALARM_ONESHOT
    · rw [if_pos hstarted, if_pos honeshot, if_pos ⟨hstarted, honeshot⟩]
      dsimp only
      rw [cal.mktime_localtime]
      by_cases hover : overtime ((cal.mktime (cal.localtime t)).1 % 4294967296)
          ((cal.mktime a.wktime).1 % 4294967296) = true ∧
          (cal.mktime (cal.localtime t)).1 % 4294967296 ≥ (cal.mktime a.wktime).1 % 4294967296
      · have hfires : fires cal t a = true := by
          unfold fires
          rw [hstarted, decide_eq_true ⟨honeshot, hover⟩]
          rfl
        rw [if_pos hover, hfires]
        exact ⟨_, rfl⟩
      · have hkept : fires cal t a = false := by
          unfold fires
          rw [decide_eq_false fun h => hover h.2, Bool.and_false]
        rw [if_neg hover, hkept]
        exact ⟨false, by simp [hstarted]⟩
    · have hkept : fires cal t a = false := by
        unfold fires
        rw [decide_eq_false fun h => honeshot h.1, Bool.and_false]
      have hsame : ¬(a.started = true ∧ a.kind = RT_ALARM_ONESHOT) := fun h => honeshot h.2
      rw [if_neg hsame, if_pos hstarted, if_neg honeshot, hkept]
      exact ⟨_, rfl⟩
  · have hkept : fires cal t a = false := by
      unfold fires
      rw [Bool.and_eq_false_iff]
      exact .inl (by simpa using hstarted)
    have hsame : ¬(a.started = true ∧ a.kind = RT_ALARM_ONESHOT) := fun h => hstarted h.1
    rw [if_neg hsame, if_neg hstarted, hkept]
    exact ⟨_, rfl⟩

/-- All alarms are awoken, and the RTC is off when one of them fires. -/
theorem wakeupAll_spec (cal : Calendar) (t : ℕ) (alarms : List Alarm) (rtc : Wkalarm) :
    (wakeupAll cal alarms rtc (cal.localtime t)).1 = alarms.map (awoken cal t) ∧
      ((∀ a ∈ alarms, fires cal t a = false) →
        (wakeupAll cal alarms rtc (cal.localtime t)).2.1 = rtc) ∧
      ((∃ a ∈ alarms, fires cal t a = true) →
        (wakeupAll cal alarms rtc (cal.localtime t)).2.1.enable = false) := by
  induction alarms generalizing rtc with
  | nil =>
    refine ⟨rfl, fun _ => rfl, ?_⟩
    rintro ⟨a, ha, -⟩
    cases ha
  | cons a rest ih =>
    obtain ⟨called, hwakeup⟩ := alarmWakeup_eq cal t a rtc
    rw [wakeupAll, hwakeup]
    obtain ⟨hmap, hkeep, hoff⟩ := ih (if fires cal t a then alarmSet (awoken cal t a) else rtc)
    refine ⟨congrArg (awoken cal t a :: ·) hmap, fun hnone => ?_, fun hsome => ?_⟩
    · rw [hkeep fun b hb => hnone b (mem_cons_of_mem _ hb), hnone a mem_cons_self]
      rfl
    · by_cases hrest : ∃ b ∈ rest, fires cal t b = true
      · exact hoff hrest
      · obtain ⟨b, hb, hfires⟩ := hsome
        have hab : b = a := by
          rcases mem_cons.mp hb with rfl | hb
          · rfl
          · exact absurd ⟨b, hb, hfires⟩ hrest
        subst hab
        rw [hkeep fun c hc => by
          by_contra hfc
          exact hrest ⟨c, hc, by simpa using hfc⟩, if_pos hfires]
        change (awoken cal t b).started = false
        rw [awoken_started, hfires, Bool.not_true, Bool.and_false]

def Candidate (current : Option ℕ) (a : Alarm) : Prop :=
  a.started = true ∧ some a.addr ≠ current

/-- The scan of the alarms seen so far: the nearest one later today and the earliest one
before now. -/
structure ScanInv (secNow : ℕ) (current : Option ℕ) (seen : List Alarm) (scan : Scan) : Prop where
  noNext : scan.almNext = none → scan.secNext = 86400 ∧
    ∀ a ∈ seen, Candidate current a → alarmMkdaysec a.wktime ≤ secNow
  next : ∀ x, scan.almNext = some x → x ∈ seen ∧ Candidate current x ∧
    scan.secNext = (alarmMkdaysec x.wktime : ℤ) - secNow ∧ 0 < scan.secNext ∧
    scan.secNext < 86400 ∧ ∀ a ∈ seen, Candidate current a → secNow < alarmMkdaysec a.wktime →
      alarmMkdaysec x.wktime ≤ alarmMkdaysec a.wktime
  noPrev : scan.almPrev = none → scan.secPrev = 0 ∧
    ∀ a ∈ seen, Candidate current a → secNow ≤ alarmMkdaysec a.wktime
  prev : ∀ x, scan.almPrev = some x → x ∈ seen ∧ Candidate current x ∧
    scan.secPrev = (alarmMkdaysec x.wktime : ℤ) - secNow ∧ scan.secPrev < 0 ∧
    ∀ a ∈ seen, Candidate current a → alarmMkdaysec x.wktime ≤ alarmMkdaysec a.wktime

theorem scanInv_nil (secNow : ℕ) (current : Option ℕ) :
    ScanInv secNow current [] ⟨24 * 3600, none, 0, none⟩ where
  noNext _ := ⟨by norm_num, by simp⟩
  next x := nofun
  noPrev _ := ⟨rfl, by simp⟩
  prev x := nofun

theorem ScanInv.skip {scan : Scan} (hscan : ScanInv secNow current seen scan)
    (hskip : ¬Candidate current a) : ScanInv secNow current (seen ++ [a]) scan := by
  have hold : ∀ b ∈ seen ++ [a], Candidate current b → b ∈ seen := by
    intro b hb hcand
    rcases mem_append.mp hb with hb | hb
    · exact hb
    · rw [mem_singleton.mp hb] at hcand
      contradiction
  constructor
  · intro hnone
    obtain ⟨hsec, hseen⟩ := hscan.noNext hnone
    exact ⟨hsec, fun b hb hcand => hseen b (hold b hb hcand) hcand⟩
  · intro x hx
    obtain ⟨hmem, hcand, hsec, hpos, hless, hseen⟩ := hscan.next x hx
    exact ⟨mem_append_left _ hmem, hcand, hsec, hpos, hless,
      fun b hb hb' => hseen b (hold b hb hb') hb'⟩
  · intro hnone
    obtain ⟨hsec, hseen⟩ := hscan.noPrev hnone
    exact ⟨hsec, fun b hb hcand => hseen b (hold b hb hcand) hcand⟩
  · intro x hx
    obtain ⟨hmem, hcand, hsec, hneg, hseen⟩ := hscan.prev x hx
    exact ⟨mem_append_left _ hmem, hcand, hsec, hneg,
      fun b hb hb' => hseen b (hold b hb hb') hb'⟩

theorem forall_seen_append {P : Alarm → Prop}
    (hseen : ∀ b ∈ seen, Candidate current b → P b) (ha : P a) :
    ∀ b ∈ seen ++ [a], Candidate current b → P b := by
  intro b hb hcand
  rcases mem_append.mp hb with hb | hb
  · exact hseen b hb hcand
  · rw [mem_singleton.mp hb]
    exact ha

theorem ScanInv.step {scan : Scan} (hscan : ScanInv secNow current seen scan)
    (hday : Candidate current a → alarmMkdaysec a.wktime < 86400) :
    ScanInv secNow current (seen ++ [a]) (scanStep secNow current scan a) := by
  by_cases hcand : Candidate current a
  · have hsec := hday hcand
    have hlast : a ∈ seen ++ [a] := mem_append_right _ (mem_singleton_self a)
    unfold scanStep
    dsimp only
    rw [if_pos (show a.started = true ∧ some a.addr ≠ current from hcand)]
    split_ifs with hbehind hnearer hfurther
    · -- the alarm comes later today, before the one found
      have hfound : ∀ x, scan.almNext = some x →
          alarmMkdaysec a.wktime < alarmMkdaysec x.wktime := by
        intro x hx
        have hnext := (hscan.next x hx).2.2.1
        lia
      refine ⟨nofun, fun x hx => ?_, fun hnone => ?_, fun x hx => ?_⟩
      · obtain rfl := some.inj hx
        refine ⟨hlast, hcand, rfl, hbehind, by dsimp only; lia, fun b hb hb' hlate => ?_⟩
        rcases mem_append.mp hb with hb | hb
        · cases hnext : scan.almNext with
          | none =>
            have hnone := (hscan.noNext hnext).2 b hb hb'
            lia
          | some x =>
            have hx := (hscan.next x hnext).2.2.2.2.2 b hb hb' hlate
            exact (hfound x hnext).le.trans hx
        · rw [mem_singleton.mp hb]
      · obtain ⟨hzero, hseen⟩ := hscan.noPrev hnone
        exact ⟨hzero, forall_seen_append hseen (by lia)⟩
      · obtain ⟨hmem, hx', hprev, hneg, hseen⟩ := hscan.prev x hx
        exact ⟨mem_append_left _ hmem, hx', hprev, hneg, forall_seen_append hseen (by lia)⟩
    · refine ⟨fun hnone => ?_, fun x hx => ?_, fun hnone => ?_, fun x hx => ?_⟩
      · obtain ⟨hday, -⟩ := hscan.noNext hnone
        lia
      · obtain ⟨hmem, hx', hnext, hpos, hless, hseen⟩ := hscan.next x hx
        refine ⟨mem_append_left _ hmem, hx', hnext, hpos, hless, ?_⟩
        exact forall_seen_append hseen fun _ => by lia
      · obtain ⟨hzero, hseen⟩ := hscan.noPrev hnone
        exact ⟨hzero, forall_seen_append hseen (by lia)⟩
      · obtain ⟨hmem, hx', hprev, hneg, hseen⟩ := hscan.prev x hx
        exact ⟨mem_append_left _ hmem, hx', hprev, hneg, forall_seen_append hseen (by lia)⟩
    · -- the alarm comes tomorrow, before the one found
      refine ⟨fun hnone => ?_, fun x hx => ?_, nofun, fun x hx => ?_⟩
      · obtain ⟨hday, hseen⟩ := hscan.noNext hnone
        exact ⟨hday, forall_seen_append hseen (by lia)⟩
      · obtain ⟨hmem, hx', hnext, hpos, hless, hseen⟩ := hscan.next x hx
        refine ⟨mem_append_left _ hmem, hx', hnext, hpos, hless, ?_⟩
        exact forall_seen_append hseen fun _ => by lia
      · obtain rfl := some.inj hx
        refine ⟨hlast, hcand, rfl, ?_, ?_⟩
        · cases hprev : scan.almPrev with
          | none =>
            have hzero := (hscan.noPrev hprev).1
            lia
          | some x =>
            have hneg := (hscan.prev x hprev).2.2.2.1
            lia
        · refine forall_seen_append (fun b hb hb' => ?_) le_rfl
          cases hprev : scan.almPrev with
          | none =>
            have hlate := (hscan.noPrev hprev).2 b hb hb'
            lia
          | some x =>
            obtain ⟨-, -, hx, -, hseen⟩ := hscan.prev x hprev
            have hxb := hseen b hb hb'
            lia
    · refine ⟨fun hnone => ?_, fun x hx => ?_, fun hnone => ?_, fun x hx => ?_⟩
      · obtain ⟨hday, hseen⟩ := hscan.noNext hnone
        exact ⟨hday, forall_seen_append hseen (by lia)⟩
      · obtain ⟨hmem, hx', hnext, hpos, hless, hseen⟩ := hscan.next x hx
        refine ⟨mem_append_left _ hmem, hx', hnext, hpos, hless, ?_⟩
        exact forall_seen_append hseen fun _ => by lia
      · obtain ⟨hzero, hseen⟩ := hscan.noPrev hnone
        exact ⟨hzero, forall_seen_append hseen (by lia)⟩
      · obtain ⟨hmem, hx', hprev, hneg, hseen⟩ := hscan.prev x hx
        exact ⟨mem_append_left _ hmem, hx', hprev, hneg, forall_seen_append hseen (by lia)⟩
  · have hskip : scanStep secNow current scan a = scan := if_neg hcand
    rw [hskip]
    exact hscan.skip hcand

theorem ScanInv.foldl {scan : Scan} (hscan : ScanInv secNow current seen scan)
    (hday : ∀ a ∈ alarms, Candidate current a → alarmMkdaysec a.wktime < 86400) :
    ScanInv secNow current (seen ++ alarms) (alarms.foldl (scanStep secNow current) scan) := by
  induction alarms generalizing seen scan with
  | nil => rwa [append_nil]
  | cons a rest ih =>
    have hstep := hscan.step (hday a mem_cons_self)
    have hrest := ih hstep fun b hb => hday b (mem_cons_of_mem _ hb)
    rwa [append_assoc] at hrest

/-- The scan finds the candidate which comes next, today or tomorrow. -/
theorem nextAlarm_spec (hnow : secNow < 86400)
    (hday : ∀ a ∈ alarms, Candidate current a → alarmMkdaysec a.wktime < 86400) :
    (nextAlarm secNow current alarms = none →
      ∀ a ∈ alarms, Candidate current a → alarmMkdaysec a.wktime = secNow) ∧
    ∀ x, nextAlarm secNow current alarms = some x →
      x ∈ alarms ∧ Candidate current x ∧ alarmMkdaysec x.wktime ≠ secNow ∧
        ∀ a ∈ alarms, Candidate current a → untilNext secNow false (alarmMkdaysec x.wktime) ≤
            untilNext secNow false (alarmMkdaysec a.wktime) := by
  have hscan := (scanInv_nil secNow current).foldl hday
  rw [nil_append] at hscan
  unfold nextAlarm
  generalize alarms.foldl (scanStep secNow current) ⟨24 * 3600, none, 0, none⟩ = scan at hscan
  dsimp only
  split_ifs with hnext hprev
  · refine ⟨fun hnone => ?_, fun x hx => ?_⟩
    · have hday := (hscan.noNext hnone).1
      lia
    · obtain ⟨hmem, hcand, hsec, hpos, hless, hseen⟩ := hscan.next x hx
      refine ⟨hmem, hcand, by lia, fun a ha hacand => ?_⟩
      have hxday := hday x hmem hcand
      have hafter := hseen a ha hacand
      have haday := hday a ha hacand
      unfold untilNext
      split_ifs <;> lia
  · have hnone : scan.almNext = none := by
      by_contra hsome
      obtain ⟨x, hx⟩ := ne_none_iff_exists'.mp hsome
      have hless := (hscan.next x hx).2.2.2.2.1
      lia
    have hbefore := (hscan.noNext hnone).2
    refine ⟨fun hnone' => ?_, fun x hx => ?_⟩
    · have hzero := (hscan.noPrev hnone').1
      lia
    · obtain ⟨hmem, hcand, hsec, hneg, hseen⟩ := hscan.prev x hx
      refine ⟨hmem, hcand, by lia, fun a ha hacand => ?_⟩
      have hxa := hseen a ha hacand
      have habefore := hbefore a ha hacand
      unfold untilNext
      split_ifs <;> lia
  · have hnone : scan.almNext = none := by
      by_contra hsome
      obtain ⟨x, hx⟩ := ne_none_iff_exists'.mp hsome
      have hless := (hscan.next x hx).2.2.2.2.1
      lia
    have hnone' : scan.almPrev = none := by
      by_contra hsome
      obtain ⟨x, hx⟩ := ne_none_iff_exists'.mp hsome
      have hneg := (hscan.prev x hx).2.2.2.1
      lia
    refine ⟨fun _ a ha hcand => ?_, fun x hx => absurd hx (by simp)⟩
    exact Nat.le_antisymm ((hscan.noNext hnone).2 a ha hcand) ((hscan.noPrev hnone').2 a ha hcand)

end RtThread.RtcAlarm
