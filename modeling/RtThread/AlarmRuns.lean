import RtThread.AlarmUpdates

/-!
# The right alarm is armed

The clock goes on up to the RTC alarm, and a start compares the new alarm with the current one
only.  Each call keeps the right alarm armed exactly when it does not meet an alarm of the present
second, or one which has been stopped, where it matters.
-/

namespace RtThread.RtcAlarm

open List Option TransitionSystem State

variable {cal : Calendar} {s s' : State} {a b x : Alarm} {addr : ℕ} {action : Action}

theorem untilNext_spec {n sec : ℕ} (hn : n < 86400) (hsec : sec < 86400) :
    0 < untilNext n false sec ∧ (n + untilNext n false sec) % 86400 = sec := by
  unfold untilNext
  rw [if_neg Bool.false_ne_true]
  split_ifs with heq <;> omega

theorem untilNext_advance {n sec δ : ℕ} (hn : n < 86400) (hsec : sec < 86400)
    (hpos : 0 < δ) (hle : δ ≤ untilNext n false sec) {reached : Bool}
    (hreached : δ = untilNext n false sec → reached = true) :
    untilNext ((n + δ) % 86400) reached sec = untilNext n false sec - δ := by
  have hnext := (untilNext_spec hn hsec).2
  have hday := untilNext_le n false sec
  generalize untilNext n false sec = d at *
  unfold untilNext
  rcases hle.eq_or_lt with heq | hlt
  · rw [if_pos (by rw [heq, hnext]), if_pos (hreached heq)]
    omega
  · have hne : sec ≠ (n + δ) % 86400 := by omega
    rw [if_neg hne]
    omega

theorem secNow_advance (cal : Calendar) (s : State) (δ : ℕ) (event due : Bool) :
    { s with now := s.now + δ, event := event, due := due }.secNow cal =
      (s.secNow cal + δ) % 86400 := by
  unfold secNow
  rw [cal.daysec, cal.daysec]
  dsimp only
  omega

theorem AlarmInv.advance {δ : ℕ} (hinv : AlarmInv cal s)
    (henabled : (Action.advance δ).Enabled cal s) : AlarmInv cal (execute cal s (.advance δ)) ∧
      (RightAlarm cal s → RightAlarm cal (execute cal s (.advance δ))) := by
  obtain ⟨hpos, hevent, hpass⟩ := henabled
  have hnow := secNow_lt cal s
  have hdue : s.due = false := by
    by_contra hdue
    nomatch hevent.symm.trans (hinv.due (by simpa using hdue)).1
  unfold execute
  dsimp only
  generalize hreached : (s.rtc.enable && decide (δ = s.untilAlarm cal)) = reached
  refine ⟨{ hinv.toAlarmBase with due := fun h => ⟨h, ?_⟩ }, fun hright => ?_⟩
  · have hr : reached = true := h
    rw [← hreached, Bool.and_eq_true, decide_eq_true_iff] at hr
    obtain ⟨a, ha, hca, hstarted, hrtc⟩ := hinv.enabled hr.1
    refine ⟨a, ha, hca, hstarted, ?_⟩
    have hsec := hinv.daysec_lt ha hstarted
    have hδ : δ = untilNext (s.secNow cal) false (alarmMkdaysec a.wktime) := by
      rw [hr.2, untilAlarm, hrtc]
      rfl
    rw [secNow_advance]
    unfold untilNext at hδ
    split_ifs at hδ <;> lia
  · rintro ⟨a₀, ha₀, hstarted₀⟩
    obtain ⟨a, ha, hstarted, hca, hrtc, hfirst⟩ := hright ⟨a₀, ha₀, hstarted₀⟩
    have hon : s.rtc.enable = true := by
      rw [hrtc]
      exact hstarted
    have halarm : s.untilAlarm cal = s.untilDue cal a := by
      unfold untilAlarm untilDue
      rw [hrtc, hdue]
      rfl
    have huntil : ∀ b ∈ s.alarms, b.started = true →
        { s with now := s.now + δ, event := reached, due := reached }.untilDue cal b =
          s.untilDue cal b - δ := by
      intro b hb hb'
      have hab := hfirst b hb hb'
      have hδ := hpass hon
      rw [halarm] at hδ
      have hbdue : s.untilDue cal b = untilNext (s.secNow cal) false (alarmMkdaysec b.wktime) := by
        rw [untilDue, hdue]
      rw [untilDue, secNow_advance, hbdue]
      refine untilNext_advance hnow (hinv.daysec_lt hb hb') hpos (by lia) fun heq => ?_
      rw [← hreached, hon, Bool.true_and, decide_eq_true_iff, halarm]
      lia
    refine ⟨a, ha, hstarted, hca, hrtc, fun b hb hb' => ?_⟩
    rw [huntil a ha hstarted, huntil b hb hb']
    exact Nat.sub_le_sub_right (hfirst b hb hb') δ

theorem AlarmInv.create (hinv : AlarmInv cal s) (kind : ℕ) (callback : Bool) (wktime : Tm)
    (hnew : s.find addr = none) : AlarmInv cal (rtAlarmCreate s addr kind callback wktime) ∧
      (RightAlarm cal s → RightAlarm cal (rtAlarmCreate s addr kind callback wktime)) := by
  have hold : ∀ a ∈ (rtAlarmCreate s addr kind callback wktime).alarms,
      a.inited = true ∨ a.started = true → a ∈ s.alarms := by
    intro a ha hset
    rcases mem_cons.mp ha with rfl | ha
    · simp at hset
    · exact ha
  refine ⟨⟨⟨?_, fun a ha hinit => ?_, fun a ha hstarted => ?_, fun c hc => ?_, fun hon => ?_⟩,
    fun hdue => ?_⟩, fun hright => ?_⟩
  · change ((⟨addr, kind, false, false, callback, wktime⟩ :: s.alarms).map Alarm.addr).Nodup
    rw [map_cons, nodup_cons]
    refine ⟨fun hmem => ?_, hinv.nodup⟩
    obtain ⟨a, ha, haddr⟩ := mem_map.mp hmem
    exact absurd haddr (by simpa using find?_eq_none.mp hnew a ha)
  · exact hinv.onClock a (hold a ha (.inl hinit)) hinit
  · exact hinv.inited a (hold a ha (.inr hstarted)) hstarted
  · obtain ⟨a, ha, hac⟩ := hinv.current c hc
    exact ⟨a, mem_cons_of_mem _ ha, hac⟩
  · obtain ⟨a, ha, hac⟩ := hinv.enabled hon
    exact ⟨a, mem_cons_of_mem _ ha, hac⟩
  · obtain ⟨hevent, a, ha, hac⟩ := hinv.due hdue
    exact ⟨hevent, a, mem_cons_of_mem _ ha, hac⟩
  · exact hright.congr rfl rfl rfl rfl fun a hstarted =>
      ⟨fun ha => hold a ha (.inr hstarted), fun ha => mem_cons_of_mem _ ha⟩

theorem orNow_mem {low high now : ℤ} (value : ℤ) (hnow : low ≤ now ∧ now ≤ high) :
    low ≤ orNow low high value now ∧ orNow low high value now ≤ high := by
  unfold orNow
  split_ifs <;> omega

theorem setupDate_sameClock (kind : ℕ) (setup now : Tm) :
    setup.SameClock (setupDate kind setup now).2 := by
  unfold setupDate
  split_ifs <;> exact ⟨rfl, rfl, rfl⟩

theorem alarmSetup_spec (cal : Calendar) (t : ℕ) (a : Alarm) :
    (alarmSetup cal t a).2.addr = a.addr ∧ (alarmSetup cal t a).2.started = a.started ∧
      ((alarmSetup cal t a).1 = true → (alarmSetup cal t a).2.inited = true ∧
        (alarmSetup cal t a).2.wktime.OnClock) ∧
      ((alarmSetup cal t a).1 = false → (alarmSetup cal t a).2.inited = a.inited) := by
  have hnow := cal.onClock t
  have hclock : Tm.OnClock { a.wktime with
      tmSec := orNow 0 59 a.wktime.tmSec (cal.localtime t).tmSec
      tmMin := orNow 0 59 a.wktime.tmMin (cal.localtime t).tmMin
      tmHour := orNow 0 23 a.wktime.tmHour (cal.localtime t).tmHour } := by
    obtain ⟨⟨hsec₀, hsec₁⟩, ⟨hmin₀, hmin₁⟩, ⟨hhour₀, hhour₁⟩⟩ := hnow
    have hsec := orNow_mem a.wktime.tmSec ⟨hsec₀, (by lia : (cal.localtime t).tmSec ≤ 59)⟩
    have hmin := orNow_mem a.wktime.tmMin ⟨hmin₀, (by lia : (cal.localtime t).tmMin ≤ 59)⟩
    have hhour := orNow_mem a.wktime.tmHour ⟨hhour₀, (by lia : (cal.localtime t).tmHour ≤ 23)⟩
    exact ⟨⟨hsec.1, by dsimp only; lia⟩, ⟨hmin.1, by dsimp only; lia⟩,
      ⟨hhour.1, by dsimp only; lia⟩⟩
  have hdate := (setupDate_sameClock a.kind _ (cal.localtime t)).onClock hclock
  unfold alarmSetup
  dsimp only
  split_ifs with hdone hlast
  · refine ⟨rfl, rfl, fun _ => ⟨rfl, ⟨?_, hdate.min, hdate.hour⟩⟩, nofun⟩
    change (0 : ℤ) ≤ 60 - RT_ALARM_DELAY ∧ (60 : ℤ) - RT_ALARM_DELAY < 60
    decide
  · exact ⟨rfl, rfl, fun _ => ⟨rfl, hdate⟩, nofun⟩
  · exact ⟨rfl, rfl, nofun, fun _ => rfl⟩

theorem comesBefore_iff {n old new : ℕ} (hn : n < 86400) (hold : old < 86400) (hnew : new < 86400) :
    State.comesBefore n old new = true ↔
      old ≠ n ∧ untilNext n false new < untilNext n false old := by
  unfold comesBefore untilNext
  split_ifs <;> simp <;> lia

variable (cal) in
theorem AlarmBase.setUp_spec (hbase : AlarmBase s) (ha : a ∈ s.alarms) :
    (setUp cal s a).2.addr = a.addr ∧ (setUp cal s a).2.started = a.started ∧
      ((setUp cal s a).1 = true → (setUp cal s a).2.inited = true ∧
        (setUp cal s a).2.wktime.OnClock) ∧
      ((setUp cal s a).1 = false → a.inited = false ∧ (setUp cal s a).2.inited = false) ∧
      (a.inited = true → (setUp cal s a).2 = a) := by
  unfold setUp
  split_ifs with hinit
  · exact ⟨rfl, rfl, fun _ => ⟨hinit, hbase.onClock a ha hinit⟩, nofun,
      fun _ => rfl⟩
  · obtain ⟨haddr, hstarted, hdone, hnot⟩ := alarmSetup_spec cal s.now a
    have hfalse : a.inited = false := by simpa using hinit
    exact ⟨haddr, hstarted, hdone, fun h => ⟨hfalse, (hnot h).trans hfalse⟩,
      fun h => absurd h hinit⟩

theorem put_put (s : State) (haddr : a.addr = b.addr) : (s.put a).put b = s.put b :=
  congrArg (fun alarms => { s with alarms := alarms }) (replaceKeyed_replaceKeyed haddr s.alarms)

def armed (s : State) (a : Alarm) : State :=
  { s with rtc := alarmSet a, current := some a.addr }

def compared (cal : Calendar) (s : State) (a : Alarm) : State :=
  match s.current.bind s.find with
  | none => armed s a
  | some old =>
    if State.comesBefore (s.secNow cal) (alarmMkdaysec old.wktime) (alarmMkdaysec a.wktime) then
      armed s a
    else s

theorem startSetUp_eq (cal : Calendar) (s : State) (hstopped : a.started = false) :
    (s.startSetUp cal a).2 =
      compared cal (s.put { a with started := true }) { a with started := true } := by
  unfold startSetUp compared
  rw [if_neg (by rw [hstopped]; exact Bool.false_ne_true)]
  dsimp only
  cases (s.put { a with started := true }).current.bind (s.put { a with started := true }).find with
  | none => rfl
  | some old =>
    dsimp only
    unfold secNow
    split_ifs <;> rfl

theorem AlarmBase.rtAlarmStart_eq (hbase : AlarmBase s) (ha : a ∈ s.alarms) :
    (rtAlarmStart cal s a.addr).2 =
      if (setUp cal s a).1 = true then
        if a.started then s
        else compared cal (s.put { (setUp cal s a).2 with started := true })
          { (setUp cal s a).2 with started := true }
      else s.put (setUp cal s a).2 := by
  obtain ⟨haddr, hstarted, -, -, -⟩ := hbase.setUp_spec cal ha
  unfold rtAlarmStart
  rw [hbase.find_eq ha]
  dsimp only
  by_cases hinit : a.inited = true
  · have hset : setUp cal s a = (true, a) := if_pos hinit
    rw [if_pos hinit, hset, if_pos rfl]
    by_cases hon : a.started = true
    · rw [if_pos hon, startSetUp, if_pos hon]
    · rw [if_neg hon]
      exact startSetUp_eq cal s (by simpa using hon)
  · have hset : setUp cal s a = alarmSetup cal s.now a := if_neg hinit
    have hoff : a.started = false := by
      by_contra hon
      exact hinit (hbase.inited a ha (by simpa using hon))
    have hnot : ¬a.started = true := by
      rw [hoff]
      exact Bool.false_ne_true
    have hput : (s.put (setUp cal s a).2).put { (setUp cal s a).2 with started := true } =
        s.put { (setUp cal s a).2 with started := true } := put_put s rfl
    rw [if_neg hinit, ← hset]
    by_cases hdone : (setUp cal s a).1 = true
    · rw [if_pos hdone, if_pos hdone, if_neg hnot, startSetUp_eq cal _ (hstarted.trans hoff), hput]
    · rw [if_neg hdone, if_neg hdone]

structure WrittenStarted (s : State) (a b : Alarm) : Prop where
  mem : a ∈ s.alarms
  stopped : a.started = false
  addr : b.addr = a.addr
  started : b.started = true
  inited : b.inited = true
  onClock : b.wktime.OnClock

theorem WrittenStarted.mem_put (hb : WrittenStarted s a b) (y : Alarm) :
    y ∈ (s.put b).alarms ↔ y = b ∨ y ∈ s.alarms ∧ y.addr ≠ a.addr :=
  RtcAlarm.mem_put hb.mem hb.addr

theorem WrittenStarted.mem_of_started (hb : WrittenStarted s a b) (hinv : AlarmInv cal s)
    (hx : x ∈ s.alarms) (hstarted : x.started = true) : x ∈ (s.put b).alarms := by
  refine (hb.mem_put x).mpr (.inr ⟨hx, fun h => ?_⟩)
  rw [eq_of_key hinv.nodup hx hb.mem h, hb.stopped] at hstarted
  exact Bool.false_ne_true hstarted

theorem WrittenStarted.inv (hb : WrittenStarted s a b) (hinv : AlarmInv cal s) :
    AlarmInv cal (s.put b) := by
  refine ⟨⟨?_, fun y hy hinit' => ?_, fun y hy hstarted => ?_, fun c hc => ?_, fun hon => ?_⟩,
    fun hdue => ?_⟩
  · change ((replaceKeyed Alarm.addr _ s.alarms).map Alarm.addr).Nodup
    rw [map_replaceKeyed]
    exact hinv.nodup
  · rcases (hb.mem_put y).mp hy with rfl | ⟨hy, -⟩
    · exact hb.onClock
    · exact hinv.onClock y hy hinit'
  · rcases (hb.mem_put y).mp hy with rfl | ⟨hy, -⟩
    · exact hb.inited
    · exact hinv.inited y hy hstarted
  · obtain ⟨y, hy, hyc, hyinit⟩ := hinv.current c hc
    by_cases hya : y.addr = a.addr
    · exact ⟨b, (hb.mem_put b).mpr (.inl rfl), hb.addr.trans (hya.symm.trans hyc), hb.inited⟩
    · exact ⟨y, (hb.mem_put y).mpr (.inr ⟨hy, hya⟩), hyc, hyinit⟩
  · obtain ⟨y, hy, hcy, hstarted, hrtc⟩ := hinv.enabled hon
    exact ⟨y, hb.mem_of_started hinv hy hstarted, hcy, hstarted, hrtc⟩
  · obtain ⟨hevent, y, hy, hcy, hstarted, hsec⟩ := hinv.due hdue
    exact ⟨hevent, y, hb.mem_of_started hinv hy hstarted, hcy, hstarted, hsec⟩

theorem AlarmInv.armed (hinv : AlarmInv cal s) (hb : b ∈ s.alarms) (hstarted : b.started = true)
    (hdue : s.due = false) : AlarmInv cal (armed s b) :=
  { hinv with
    current c hc := ⟨b, hb, some.inj hc, hinv.inited b hb hstarted⟩
    enabled _ := ⟨b, hb, rfl, hstarted, rfl⟩
    due h := absurd (hdue.symm.trans h) (by simp) }

theorem rightAlarm_armed (hb : b ∈ s.alarms) (hstarted : b.started = true)
    (hfirst : ∀ x ∈ s.alarms, x.started = true → s.untilDue cal b ≤ s.untilDue cal x) :
    RightAlarm cal (armed s b) := fun _ => ⟨b, hb, hstarted, rfl, rfl, hfirst⟩

theorem AlarmBase.find_put (hbase : AlarmBase s) (ha : a ∈ s.alarms) (haddr : b.addr = a.addr)
    (hsame : a.inited = true → b.wktime = a.wktime) {old : Alarm} (hold : old ∈ s.alarms)
    (hinit : old.inited = true) :
    ∃ old', (s.put b).find old.addr = some old' ∧ old'.wktime = old.wktime := by
  have hnodup : ((s.put b).alarms.map Alarm.addr).Nodup := by
    change ((replaceKeyed Alarm.addr _ s.alarms).map Alarm.addr).Nodup
    rw [map_replaceKeyed]
    exact hbase.nodup
  by_cases hoa : old.addr = a.addr
  · obtain rfl : old = a := eq_of_key hbase.nodup hold ha hoa
    exact ⟨b, (find?_keyed_eq_some hnodup).mpr ⟨(mem_put ha haddr).mpr (.inl rfl), haddr⟩,
      hsame hinit⟩
  · exact ⟨old, (find?_keyed_eq_some hnodup).mpr
      ⟨(mem_put ha haddr).mpr (.inr ⟨hold, hoa⟩), rfl⟩, rfl⟩

theorem compared_of_none (hcurrent : s.current = none) : compared cal s b = armed s b := by
  unfold compared
  rw [hcurrent]
  rfl

theorem compared_of_some {old : Alarm} (hcurrent : s.current = some old.addr)
    {old' : Alarm} (hfind : s.find old.addr = some old') (hsame : old'.wktime = old.wktime) :
    compared cal s b = if State.comesBefore (s.secNow cal) (alarmMkdaysec old.wktime)
      (alarmMkdaysec b.wktime) then armed s b else s := by
  unfold compared
  rw [hcurrent, bind_some, hfind]
  dsimp only
  rw [hsame]

/-- When a second started alarm reaches the RTC. -/
theorem startServed_iff (hinv : AlarmInv cal s) (ha : a ∈ s.alarms) (hstopped : a.started = false)
    (hdone : (setUp cal s a).1 = true) {old : Alarm} (hold : old ∈ s.alarms)
    (hcurrent : s.current = some old.addr) : StartServed cal s a.addr ↔
      if old.started then
        s.due = true ∨ alarmMkdaysec old.wktime ≠ s.secNow cal ∨
          alarmMkdaysec (setUp cal s a).2.wktime = s.secNow cal
      else
        alarmMkdaysec old.wktime ≠ s.secNow cal ∧
          untilNext (s.secNow cal) false (alarmMkdaysec (setUp cal s a).2.wktime) <
            untilNext (s.secNow cal) false (alarmMkdaysec old.wktime) := by
  constructor
  · exact fun hserved => hserved a ha rfl hstopped hdone old hold hcurrent
  · intro h a' ha' haddr _ _ old' hold' hcurrent'
    obtain rfl : a' = a := eq_of_key hinv.nodup ha' ha haddr
    have hsame : old' = old := eq_of_key hinv.nodup hold' hold
      (some.inj (hcurrent'.symm.trans hcurrent))
    rwa [hsame]

theorem AlarmInv.due_current {old : Alarm} (hinv : AlarmInv cal s) (hold : old ∈ s.alarms)
    (hcurrent : s.current = some old.addr) (hdue : s.due = true) :
    alarmMkdaysec old.wktime = s.secNow cal := by
  obtain ⟨-, y, hy, hcy, -, hysec⟩ := hinv.due hdue
  rwa [eq_of_key hinv.nodup hold hy (some.inj (hcurrent.symm.trans hcy))]

variable (cal) in
theorem untilDue_of_not_due (hdue : s.due = false) (a : Alarm) :
    s.untilDue cal a = untilNext (s.secNow cal) false (alarmMkdaysec a.wktime) := by
  unfold untilDue
  rw [hdue]

theorem WrittenStarted.rightAlarm_of_none (hb : WrittenStarted s a b)
    (hright : RightAlarm cal s) (hcurrent : s.current = none) :
    RightAlarm cal (armed (s.put b) b) := by
  refine rightAlarm_armed ((hb.mem_put b).mpr (.inl rfl)) hb.started fun x hx hx' => ?_
  rcases (hb.mem_put x).mp hx with rfl | ⟨hx, -⟩
  · exact le_rfl
  · obtain ⟨y, -, -, hcy, -⟩ := hright ⟨x, hx, hx'⟩
    nomatch hcurrent.symm.trans hcy

theorem WrittenStarted.rightAlarm_of_lt {old : Alarm} (hb : WrittenStarted s a b)
    (hinv : AlarmInv cal s) (hright : RightAlarm cal s) (hold : old ∈ s.alarms)
    (hcurrent : s.current = some old.addr) (hdue : s.due = false)
    (hless : untilNext (s.secNow cal) false (alarmMkdaysec b.wktime) <
      untilNext (s.secNow cal) false (alarmMkdaysec old.wktime)) :
    RightAlarm cal (armed (s.put b) b) := by
  have huntil := untilDue_of_not_due cal (s := s.put b) hdue
  refine rightAlarm_armed ((hb.mem_put b).mpr (.inl rfl)) hb.started fun x hx hx' => ?_
  rcases (hb.mem_put x).mp hx with rfl | ⟨hx, -⟩
  · exact le_rfl
  · obtain ⟨y, hy, -, hcy, -, hfirst⟩ := hright ⟨x, hx, hx'⟩
    obtain rfl : y = old := eq_of_key hinv.nodup hy hold (some.inj (hcy.symm.trans hcurrent))
    have hyx : (s.put b).untilDue cal y ≤ (s.put b).untilDue cal x := hfirst x hx hx'
    rw [huntil] at hyx ⊢
    exact hless.le.trans hyx

theorem WrittenStarted.rightAlarm_iff {old : Alarm} (hb : WrittenStarted s a b)
    (hinv : AlarmInv cal s) (hright : RightAlarm cal s) (hold : old ∈ s.alarms)
    (hcurrent : s.current = some old.addr) (hstarted : old.started = true)
    (hnot : ¬(alarmMkdaysec old.wktime ≠ s.secNow cal ∧
      untilNext (s.secNow cal) false (alarmMkdaysec b.wktime) <
        untilNext (s.secNow cal) false (alarmMkdaysec old.wktime))) :
    RightAlarm cal (s.put b) ↔ s.due = true ∨ alarmMkdaysec old.wktime ≠ s.secNow cal ∨
      alarmMkdaysec b.wktime = s.secNow cal := by
  have hbmem : b ∈ (s.put b).alarms := (hb.mem_put b).mpr (.inl rfl)
  have holdmem : old ∈ (s.put b).alarms := hb.mem_of_started hinv hold hstarted
  constructor
  · intro hright₁
    obtain ⟨z, hz, -, hcz, -, hzfirst⟩ := hright₁ ⟨b, hbmem, hb.started⟩
    obtain rfl : z = old := eq_of_key (hb.inv hinv).nodup hz holdmem
      (some.inj (hcz.symm.trans hcurrent))
    by_contra hserved
    push Not at hserved
    obtain ⟨hdue, hznow, hbnow⟩ := hserved
    have hzb := hzfirst b hbmem hb.started
    have huntil := untilDue_of_not_due cal (s := s.put b) (show s.due = false by simpa using hdue)
    have hsec : (s.put b).secNow cal = s.secNow cal := rfl
    rw [huntil, huntil, hsec, hznow] at hzb
    unfold untilNext at hzb
    simp only [Bool.false_eq_true, if_false, if_true, if_neg hbnow] at hzb
    omega
  · intro hserved _
    obtain ⟨y, hy, -, hcy, hrtc, hfirst⟩ := hright ⟨old, hold, hstarted⟩
    obtain rfl : y = old := eq_of_key hinv.nodup hy hold (some.inj (hcy.symm.trans hcurrent))
    refine ⟨y, holdmem, hstarted, hcurrent, hrtc, fun x hx hx' => ?_⟩
    rcases (hb.mem_put x).mp hx with rfl | ⟨hx, -⟩
    · cases hdue : s.due with
      | true =>
        have hzero : (s.put x).untilDue cal y = 0 := by
          change untilNext (s.secNow cal) s.due _ = 0
          rw [hdue, hinv.due_current hold hcurrent hdue]
          simp [untilNext]
        rw [hzero]
        exact Nat.zero_le _
      | false =>
        have huntil := untilDue_of_not_due cal (s := s.put x) hdue
        have hsec : (s.put x).secNow cal = s.secNow cal := rfl
        rw [huntil, huntil, hsec]
        by_cases hynow : alarmMkdaysec y.wktime = s.secNow cal
        · have hxnow : alarmMkdaysec x.wktime = s.secNow cal := by
            rcases hserved with h | h | h
            · cases hdue.symm.trans h
            · contradiction
            · exact h
          rw [hynow, hxnow]
        · by_contra hless
          exact hnot ⟨hynow, by omega⟩
    · exact hfirst x hx hx'

theorem WrittenStarted.not_rightAlarm {old : Alarm} (hb : WrittenStarted s a b)
    (hinv : AlarmInv cal s) (hold : old ∈ s.alarms) (hcurrent : s.current = some old.addr)
    (hstopped : ¬old.started = true) : ¬RightAlarm cal (s.put b) := by
  intro hright₁
  obtain ⟨z, -, hzon, -, hrtc, -⟩ := hright₁ ⟨b, (hb.mem_put b).mpr (.inl rfl), hb.started⟩
  have hon : s.rtc.enable = true := by
    rw [show s.rtc = alarmSet z from hrtc]
    exact hzon
  obtain ⟨y, hy, hcy, hyon, -⟩ := hinv.enabled hon
  rw [eq_of_key hinv.nodup hy hold (some.inj (hcy.symm.trans hcurrent))] at hyon
  exact hstopped hyon

theorem WrittenStarted.compared (hb : WrittenStarted s a b) (hinv : AlarmInv cal s)
    (hdone : (setUp cal s a).1 = true) (htime : b.wktime = (setUp cal s a).2.wktime) :
    AlarmInv cal (compared cal (s.put b) b) ∧ (RightAlarm cal s →
      (RightAlarm cal (compared cal (s.put b) b) ↔ StartServed cal s a.addr)) := by
  have hinv₁ := hb.inv hinv
  have hbmem : b ∈ (s.put b).alarms := (hb.mem_put b).mpr (.inl rfl)
  cases hcurrent : s.current with
  | none =>
    have hdue : s.due = false := by
      by_contra hdue
      obtain ⟨-, y, -, hcy, -⟩ := hinv.due (by simpa using hdue)
      nomatch hcurrent.symm.trans hcy
    rw [compared_of_none (s := s.put b) hcurrent]
    refine ⟨hinv₁.armed hbmem hb.started hdue, fun hright =>
      iff_of_true (hb.rightAlarm_of_none hright hcurrent) ?_⟩
    intro a' _ _ _ _ old _ hcold
    nomatch hcurrent.symm.trans hcold
  | some c =>
    obtain ⟨old, hold, rfl, holdinit⟩ := hinv.current c hcurrent
    obtain ⟨old', hfind, hclock'⟩ := hinv.find_put hb.mem hb.addr
      (fun h => htime.trans (congrArg Alarm.wktime ((hinv.setUp_spec cal hb.mem).2.2.2.2 h)))
      hold holdinit
    have holdday : alarmMkdaysec old.wktime < 86400 :=
      (alarmMkdaysec_of_onClock (hinv.onClock old hold holdinit)).2
    have hsec : (s.put b).secNow cal = s.secNow cal := rfl
    have hiff := comesBefore_iff (secNow_lt cal s) holdday (hinv₁.daysec_lt hbmem hb.started)
    rw [compared_of_some (s := s.put b) hcurrent hfind hclock',
      startServed_iff hinv hb.mem hb.stopped hdone hold hcurrent, ← htime, hsec]
    by_cases hbefore : comesBefore (s.secNow cal) (alarmMkdaysec old.wktime)
        (alarmMkdaysec b.wktime) = true
    · rw [if_pos hbefore]
      obtain ⟨hne, hless⟩ := hiff.mp hbefore
      have hdue : s.due = false := by
        by_contra h
        exact hne (hinv.due_current hold hcurrent (by simpa using h))
      refine ⟨hinv₁.armed hbmem hb.started hdue, fun hright =>
        iff_of_true (hb.rightAlarm_of_lt hinv hright hold hcurrent hdue hless) ?_⟩
      split_ifs
      · exact .inr (.inl hne)
      · exact ⟨hne, hless⟩
    · rw [if_neg hbefore]
      refine ⟨hinv₁, fun hright => ?_⟩
      by_cases hstarted : old.started = true
      · rw [if_pos hstarted]
        exact hb.rightAlarm_iff hinv hright hold hcurrent hstarted (mt hiff.mpr hbefore)
      · rw [if_neg hstarted]
        exact iff_of_false (hb.not_rightAlarm hinv hold hcurrent hstarted) (mt hiff.mpr hbefore)

theorem AlarmInv.start (hinv : AlarmInv cal s) (ha : a ∈ s.alarms) :
    AlarmInv cal (rtAlarmStart cal s a.addr).2 ∧ (RightAlarm cal s →
      (RightAlarm cal (rtAlarmStart cal s a.addr).2 ↔ StartServed cal s a.addr)) := by
  obtain ⟨haddr, hstarted, hdone, hfailed, -⟩ := hinv.setUp_spec cal ha
  rw [hinv.rtAlarmStart_eq ha]
  split_ifs with hok hon
  · -- it is started already
    refine ⟨hinv, fun hright => iff_of_true hright fun a' ha' haddr' hoff => ?_⟩
    rw [eq_of_key hinv.nodup ha' ha haddr', hon] at hoff
    cases hoff
  · obtain ⟨hinit, hclock⟩ := hdone hok
    have hb : WrittenStarted s a { (setUp cal s a).2 with started := true } :=
      ⟨ha, by simpa using hon, haddr, rfl, hinit, hclock⟩
    exact hb.compared hinv hok rfl
  · -- it cannot be set up
    obtain ⟨hnot, hnot'⟩ := hfailed (by simpa using hok)
    have hoff : a.started = false := by
      by_contra h
      nomatch hnot.symm.trans (hinv.inited a ha (by simpa using h))
    have hother : s.current ≠ some a.addr := by
      intro h
      obtain ⟨y, hy, hya, hyinit⟩ := hinv.current _ h
      rw [eq_of_key hinv.nodup hy ha hya, hnot] at hyinit
      exact Bool.false_ne_true hyinit
    have hput := hinv.put_stopped (b := (setUp cal s a).2) ha hother haddr (hstarted.trans hoff)
      fun h => absurd (hnot'.symm.trans h) (by simp)
    refine ⟨hput.1, fun hright => iff_of_true (hput.2 hright) fun a' ha' haddr' _ hdone' => ?_⟩
    rw [eq_of_key hinv.nodup ha' ha haddr'] at hdone'
    contradiction

/-- The RTC is right behind a step exactly when the step serves its alarm. -/
theorem AlarmInv.step (hinv : AlarmInv cal s) (hstep : (alarmSystem cal).step s action s') :
    AlarmInv cal s' ∧ (RightAlarm cal s → (RightAlarm cal s' ↔ Served cal s action)) := by
  obtain ⟨henabled, rfl⟩ := hstep
  have hfind : ∀ addr, (s.find addr).isSome = true → ∃ a ∈ s.alarms, a.addr = addr := by
    intro addr hsome
    obtain ⟨a, ha⟩ := isSome_iff_exists.mp hsome
    obtain ⟨hmem, haddr⟩ := hinv.mem_of_find ha
    exact ⟨a, hmem, haddr⟩
  cases action with
  | create addr kind callback wktime =>
    have hnew := hinv.create kind callback wktime henabled
    exact ⟨hnew.1, fun hright => iff_of_true (hnew.2 hright) trivial⟩
  | start addr =>
    obtain ⟨a, ha, rfl⟩ := hfind addr henabled
    exact hinv.start ha
  | stop addr =>
    obtain ⟨a, ha, rfl⟩ := hfind addr henabled
    exact hinv.stop ha
  | delete addr =>
    obtain ⟨a, ha, rfl⟩ := hfind addr henabled
    exact hinv.delete ha
  | update =>
    have hinv' : AlarmInv cal (alarmUpdate cal s) := hinv.inv_alarmUpdate
    have hdue := (alarmUpdate_spec cal s).2.2.1
    refine ⟨{ hinv'.toAlarmBase with due := fun h => ?_ }, fun hright => ?_⟩
    · nomatch hdue.symm.trans h
    · exact hinv.rightAlarm_update hright
  | advance seconds =>
    have hlater := hinv.advance henabled
    exact ⟨hlater.1, fun hright => iff_of_true (hlater.2 hright) trivial⟩

theorem alarmInv_init (hinit : (alarmSystem cal).init s) : AlarmInv cal s ∧ RightAlarm cal s := by
  obtain ⟨halarms, hcurrent, hrtc, hevent, hdue⟩ := hinit
  have hnone : ∀ a : Alarm, a ∉ s.alarms := fun a => by simp [halarms]
  refine ⟨⟨⟨by simp [halarms], fun a ha => absurd ha (hnone a), fun a ha => absurd ha (hnone a),
    fun c hc => ?_, fun hon => ?_⟩, fun h => ?_⟩, fun ⟨a, ha, _⟩ => absurd ha (hnone a)⟩
  · nomatch hcurrent.symm.trans hc
  · nomatch hrtc.symm.trans hon
  · nomatch hdue.symm.trans h

/-- In every run whose calls meet the condition the right alarm is armed, and the next call keeps it
armed exactly when it meets the condition too. -/
theorem rightAlarm_iff_served (cal : Calendar) (s : State)
    (hreach : (alarmSystem cal).Reachable (Served cal) s) :
    RightAlarm cal s ∧ ∀ action s', (alarmSystem cal).step s action s' →
      (RightAlarm cal s' ↔ Served cal s action) := by
  have hinv : AlarmInv cal s ∧ RightAlarm cal s := by
    refine hreach.invariant (fun _ => alarmInv_init) fun s action s' hinv hserved hstep => ?_
    have hnext := hinv.1.step hstep
    exact ⟨hnext.1, (hnext.2 hinv.2).mpr hserved⟩
  exact ⟨hinv.2, fun action s' hstep => (hinv.1.step hstep).2 hinv.2⟩

def january (t : ℕ) : Tm :=
  ⟨t % 60, t / 60 % 60, t / 3600 % 24, 1 + t / 86400, 0, 70, (4 + t / 86400) % 7⟩

def januaryCalendar : Calendar where
  localtime := january
  mktime time := (((((time.tmMday - 1) * 24 + time.tmHour) * 60 + time.tmMin) * 60 +
    time.tmSec).toNat, time)
  zone := 0
  onClock t := by
    constructor <;> simp only [january] <;> lia
  daysec t := by
    have hsum : (t : ℤ) % 60 + t / 60 % 60 * 60 + t / 3600 % 24 * 3600 = t % 86400 := by lia
    unfold alarmMkdaysec january
    rw [hsum]
    lia
  mktime_sameClock _ _ := ⟨rfl, rfl, rfl⟩
  mktime_localtime _ := rfl

instance (cal : Calendar) (s : State) (action : Action) : Decidable (action.Enabled cal s) :=
  match action with
  | .create _ _ _ _ => inferInstanceAs (Decidable (_ = _))
  | .start _ => inferInstanceAs (Decidable (_ = _))
  | .stop _ => inferInstanceAs (Decidable (_ = _))
  | .delete _ => inferInstanceAs (Decidable (_ = _))
  | .update => inferInstanceAs (Decidable (_ = _))
  | .advance _ => inferInstanceAs (Decidable (_ ∧ _))

def sampleState : State := ⟨[], none, ⟨false, 0, 0, 0⟩, 0, false, false, []⟩

theorem init_sampleState (cal : Calendar) : (alarmSystem cal).init sampleState :=
  ⟨rfl, rfl, rfl, rfl, rfl⟩

def atSecond (second : ℤ) : Tm := ⟨second, 0, 0, 1, 0, 70, 4⟩

def plainlyServed (cal : Calendar) (s : State) : Action → Bool
  | .create _ _ _ _ => true
  | .start _ => decide (∀ old ∈ s.alarms, s.current = some old.addr →
      old.started = true ∧ alarmMkdaysec old.wktime ≠ s.secNow cal)
  | .stop addr => decide (∃ a ∈ s.alarms, a.started = true ∧ fires cal s.now a = false ∧
      a.addr ≠ addr ∧ alarmMkdaysec a.wktime ≠ s.secNow cal)
  | .delete _ => false
  | .update => decide (∃ a ∈ s.alarms, a.started = true ∧ fires cal s.now a = false ∧
      some a.addr ≠ s.current ∧ alarmMkdaysec a.wktime ≠ s.secNow cal ∧
      ∀ b ∈ s.alarms, b.started = true → fires cal s.now b = false →
        untilNext (s.secNow cal) false (alarmMkdaysec a.wktime) ≤
          untilNext (s.secNow cal) false (alarmMkdaysec b.wktime))
  | .advance _ => true

theorem served_of_plainlyServed (hserved : plainlyServed cal s action = true) :
    Served cal s action := by
  cases action with
  | create addr kind callback wktime => trivial
  | start addr =>
    intro a _ _ _ _ old hold hcurrent
    obtain ⟨hstarted, hne⟩ := of_decide_eq_true hserved old hold hcurrent
    rw [if_pos hstarted]
    exact .inr (.inl hne)
  | stop addr =>
    obtain ⟨a, ha, hstarted, hkept, haddr, hne⟩ := of_decide_eq_true hserved
    exact fun _ => .inr ⟨a, ⟨ha, hstarted, hkept⟩, haddr, hne⟩
  | delete addr => cases hserved
  | update =>
    obtain ⟨a, ha, hstarted, hkept, hother, hne, hfirst⟩ := of_decide_eq_true hserved
    exact .inr (.inl ⟨a, ⟨ha, hstarted, hkept⟩, hother, hne,
      fun b hb => hfirst b hb.1 hb.2.1 hb.2.2⟩)
  | advance seconds => trivial

theorem rightAlarm_of_twoDaily :
    ∃ s, (alarmSystem januaryCalendar).Reachable (Served januaryCalendar) s ∧
      (s.now, s.current, s.rtc) = (10, some 2, ⟨true, 20, 0, 0⟩) ∧ RightAlarm januaryCalendar s ∧
      ∀ action s', (alarmSystem januaryCalendar).step s action s' →
        (RightAlarm januaryCalendar s' ↔ Served januaryCalendar s action) := by
  have hrun : (tryRun
      (fun s action => decide (action.Enabled januaryCalendar s) &&
        plainlyServed januaryCalendar s action) (execute januaryCalendar)
      [.create 1 RT_ALARM_DAILY true (atSecond 10), .create 2 RT_ALARM_DAILY true (atSecond 20),
        .start 2, .start 1, .advance 10, .update] sampleState).map
      (fun s => (s.now, s.current, s.rtc)) = some (10, some 2, ⟨true, 20, 0, 0⟩) := by
    decide
  obtain ⟨s, hreach, hview⟩ := exists_tryRun (Served januaryCalendar)
    (init_sampleState januaryCalendar) hrun (by
      intro s action htest
      rw [Bool.and_eq_true] at htest
      exact ⟨served_of_plainlyServed htest.2, of_decide_eq_true htest.1, rfl⟩)
  exact ⟨s, hreach, hview, rightAlarm_iff_served januaryCalendar s hreach⟩

theorem not_rightAlarm_of_disabled (hoff : s.rtc.enable = false)
    (hstarted : ∃ a ∈ s.alarms, a.started = true) : ¬RightAlarm cal s := by
  intro hright
  obtain ⟨a, -, ha, -, hrtc, -⟩ := hright hstarted
  rw [hrtc] at hoff
  nomatch hoff.symm.trans ha

/-- An alarm is started in the second in which the current one has come, one behind a one-shot alarm
which has come, and a one-shot alarm comes with a daily one. -/
theorem not_rightAlarm :
    (∃ s, (alarmSystem januaryCalendar).Reachable (fun _ _ => True) s ∧
      s.rtc.enable = true ∧ ¬RightAlarm januaryCalendar s) ∧
    (∃ s, (alarmSystem januaryCalendar).Reachable (fun _ _ => True) s ∧
      s.now = 20 ∧ ¬RightAlarm januaryCalendar s) ∧
    ∃ s, (alarmSystem januaryCalendar).Reachable (fun _ _ => True) s ∧
      s.now = 10 ∧ ¬RightAlarm januaryCalendar s := by
  have hsound : ∀ (s : State) (action : Action), decide (action.Enabled januaryCalendar s) = true →
      True ∧ (alarmSystem januaryCalendar).step s action (execute januaryCalendar s action) :=
    fun _ _ htest => ⟨trivial, of_decide_eq_true htest, rfl⟩
  refine ⟨?_, ?_, ?_⟩
  · have hrun : (tryRun
        (fun s action => decide (action.Enabled januaryCalendar s)) (execute januaryCalendar)
        [.create 1 RT_ALARM_DAILY true (atSecond 10), .start 1, .advance 10, .update,
          .create 2 RT_ALARM_DAILY true (atSecond 20), .start 2] sampleState).map
        (fun s => (s.now, s.due, s.rtc, s.current, s.alarms)) =
          some (10, false, ⟨true, 10, 0, 0⟩, some 1,
            [⟨2, RT_ALARM_DAILY, true, true, true, atSecond 20⟩,
              ⟨1, RT_ALARM_DAILY, true, true, true, atSecond 10⟩]) := by
      decide
    obtain ⟨s, hreach, hview⟩ := exists_tryRun (fun _ _ => True)
      (init_sampleState januaryCalendar) hrun hsound
    simp only [Prod.mk.injEq] at hview
    obtain ⟨hnow, hdue, hrtc, hcurrent, halarms⟩ := hview
    refine ⟨s, hreach, by rw [hrtc], fun hright => ?_⟩
    obtain ⟨a, ha, -, hca, -, hfirst⟩ := hright ⟨⟨2, RT_ALARM_DAILY, true, true, true,
      atSecond 20⟩, by simp [halarms], rfl⟩
    have hmin := hfirst ⟨2, RT_ALARM_DAILY, true, true, true, atSecond 20⟩ (by simp [halarms]) rfl
    have haddr : a.addr = 1 := (some.inj (hcurrent.symm.trans hca)).symm
    rw [halarms] at ha
    simp only [mem_cons, not_mem_nil, or_false] at ha
    rcases ha with rfl | rfl
    · cases haddr
    · unfold untilDue secNow at hmin
      rw [hnow, hdue] at hmin
      exact absurd hmin (by decide)
  · have hrun : (tryRun
        (fun s action => decide (action.Enabled januaryCalendar s)) (execute januaryCalendar)
        [.create 1 RT_ALARM_ONESHOT true (atSecond 10), .start 1, .advance 10, .update, .advance 10,
          .create 2 RT_ALARM_DAILY true (atSecond 15), .start 2] sampleState).map
        (fun s => (s.now, s.rtc.enable, s.alarms.map Alarm.started)) =
          some (20, false, [true, false]) := by
      decide +kernel
    obtain ⟨s, hreach, hview⟩ := exists_tryRun (fun _ _ => True)
      (init_sampleState januaryCalendar) hrun hsound
    simp only [Prod.mk.injEq] at hview
    obtain ⟨hnow, hoff, hlist⟩ := hview
    refine ⟨s, hreach, hnow, not_rightAlarm_of_disabled hoff ?_⟩
    exact mem_map.mp (hlist ▸ mem_cons_self)
  · have hrun : (tryRun
        (fun s action => decide (action.Enabled januaryCalendar s)) (execute januaryCalendar)
        [.create 1 RT_ALARM_DAILY true (atSecond 10), .start 1,
          .create 2 RT_ALARM_ONESHOT true (atSecond 10), .start 2, .advance 10, .update]
        sampleState).map
        (fun s => (s.now, s.rtc.enable, s.alarms.map Alarm.started)) =
          some (10, false, [false, true]) := by
      decide +kernel
    obtain ⟨s, hreach, hview⟩ := exists_tryRun (fun _ _ => True)
      (init_sampleState januaryCalendar) hrun hsound
    simp only [Prod.mk.injEq] at hview
    obtain ⟨hnow, hoff, hlist⟩ := hview
    refine ⟨s, hreach, hnow, not_rightAlarm_of_disabled hoff ?_⟩
    exact mem_map.mp (hlist ▸ mem_cons_of_mem _ mem_cons_self)

end RtThread.RtcAlarm
