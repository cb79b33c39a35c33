import RtThread.AlarmScan

/-!
# The right alarm

The alarm which comes first is the one the RTC has been set to.  An update, also the one with which
a stop ends, arms it exactly when the alarms of the present second do not hide it.
-/

namespace RtThread.RtcAlarm

open List

def State.secNow (cal : Calendar) (s : State) : ℕ := alarmMkdaysec (cal.localtime s.now)

def State.untilDue (cal : Calendar) (s : State) (a : Alarm) : ℕ :=
  untilNext (s.secNow cal) s.due (alarmMkdaysec a.wktime)

/-- If an alarm is started, then the RTC alarm is enabled and set to one which comes first, and
that is `_container.current`. -/
def RightAlarm (cal : Calendar) (s : State) : Prop :=
  (∃ a ∈ s.alarms, a.started = true) →
    ∃ a ∈ s.alarms, a.started = true ∧ s.current = some a.addr ∧ s.rtc = alarmSet a ∧
      ∀ b ∈ s.alarms, b.started = true → s.untilDue cal a ≤ s.untilDue cal b

def Still (cal : Calendar) (s : State) (a : Alarm) : Prop :=
  a ∈ s.alarms ∧ a.started = true ∧ fires cal s.now a = false

def setUp (cal : Calendar) (s : State) (a : Alarm) : Bool × Alarm :=
  if a.inited then (true, a) else alarmSetup cal s.now a

/-- A current alarm which is started is not at the present second, unless it is still due there or
the new one is there too; one which is stopped comes behind the new one. -/
def StartServed (cal : Calendar) (s : State) (addr : ℕ) : Prop :=
  ∀ a ∈ s.alarms, a.addr = addr → a.started = false → (setUp cal s a).1 = true →
    ∀ old ∈ s.alarms, s.current = some old.addr →
      if old.started then
        s.due = true ∨ alarmMkdaysec old.wktime ≠ s.secNow cal ∨
          alarmMkdaysec (setUp cal s a).2.wktime = s.secNow cal
      else
        alarmMkdaysec old.wktime ≠ s.secNow cal ∧
          untilNext (s.secNow cal) false (alarmMkdaysec (setUp cal s a).2.wktime) <
            untilNext (s.secNow cal) false (alarmMkdaysec old.wktime)

def StopServed (cal : Calendar) (s : State) (addr : ℕ) : Prop :=
  (∀ a, Still cal s a → a.addr = addr) ∨
    ∃ a, Still cal s a ∧ a.addr ≠ addr ∧ alarmMkdaysec a.wktime ≠ s.secNow cal

/-- No alarm stays started, or one of the others is not at the present second and comes first, or
the others are all there and no one-shot alarm fires. -/
def UpdateServed (cal : Calendar) (s : State) : Prop :=
  (∀ a, ¬Still cal s a) ∨
    (∃ a, Still cal s a ∧ some a.addr ≠ s.current ∧ alarmMkdaysec a.wktime ≠ s.secNow cal ∧
      ∀ b, Still cal s b → untilNext (s.secNow cal) false (alarmMkdaysec a.wktime) ≤
        untilNext (s.secNow cal) false (alarmMkdaysec b.wktime)) ∨
    (∀ a, Still cal s a → some a.addr ≠ s.current → alarmMkdaysec a.wktime = s.secNow cal) ∧
      ∀ a ∈ s.alarms, fires cal s.now a = false

def Served (cal : Calendar) (s : State) : Action → Prop
  | .create _ _ _ _ => True
  | .start addr => StartServed cal s addr
  | .stop addr => s.current = some addr → StopServed cal s addr
  | .delete addr => s.current = some addr → StopServed cal s addr
  | .update => UpdateServed cal s
  | .advance _ => True

variable {cal : Calendar} {s s' : State} {a b x : Alarm} {addr : ℕ}

/-- The RTC is armed with a started alarm only, the current one. -/
structure AlarmBase (s : State) : Prop where
  nodup : (s.alarms.map Alarm.addr).Nodup
  onClock : ∀ a ∈ s.alarms, a.inited = true → a.wktime.OnClock
  inited : ∀ a ∈ s.alarms, a.started = true → a.inited = true
  current : ∀ c, s.current = some c → ∃ a ∈ s.alarms, a.addr = c ∧ a.inited = true
  enabled : s.rtc.enable = true →
    ∃ a ∈ s.alarms, s.current = some a.addr ∧ a.started = true ∧ s.rtc = alarmSet a

/-- An event on its way is that of the current alarm. -/
structure AlarmInv (cal : Calendar) (s : State) : Prop extends AlarmBase s where
  due : s.due = true → s.event = true ∧ ∃ a ∈ s.alarms, s.current = some a.addr ∧
    a.started = true ∧ alarmMkdaysec a.wktime = s.secNow cal

theorem secNow_lt (cal : Calendar) (s : State) : s.secNow cal < 86400 :=
  (alarmMkdaysec_of_onClock (cal.onClock s.now)).2

theorem AlarmBase.daysec_lt (hbase : AlarmBase s) (ha : a ∈ s.alarms)
    (hstarted : a.started = true) : alarmMkdaysec a.wktime < 86400 :=
  (alarmMkdaysec_of_onClock (hbase.onClock a ha (hbase.inited a ha hstarted))).2

theorem AlarmBase.find_eq (hbase : AlarmBase s) (ha : a ∈ s.alarms) : s.find a.addr = some a :=
  (find?_keyed_eq_some hbase.nodup).mpr ⟨ha, rfl⟩

theorem AlarmBase.mem_of_find (hbase : AlarmBase s) (hfind : s.find addr = some a) :
    a ∈ s.alarms ∧ a.addr = addr :=
  (find?_keyed_eq_some hbase.nodup).mp hfind

variable (cal) in
theorem AlarmBase.sameClock (hbase : AlarmBase s) (ha : a ∈ s.alarms)
    (hstarted : a.started = true) : a.wktime.SameClock (awoken cal s.now a).wktime :=
  awoken_sameClock s.now (hbase.onClock a ha (hbase.inited a ha hstarted))

theorem AlarmBase.alarmSet_awoken (hbase : AlarmBase s) (ha : a ∈ s.alarms)
    (hstarted : a.started = true) (hkept : fires cal s.now a = false) :
    alarmSet (awoken cal s.now a) = alarmSet a := by
  have hsame := hbase.sameClock cal ha hstarted
  have hflag : (awoken cal s.now a).started = a.started := by
    rw [awoken_started, hkept, Bool.not_false, Bool.and_true]
  unfold alarmSet
  rw [hflag, hsame.sec, hsame.min, hsame.hour]

theorem started_awoken_iff (cal : Calendar) (t : ℕ) (a : Alarm) :
    (awoken cal t a).started = true ↔ a.started = true ∧ fires cal t a = false := by
  rw [awoken_started, Bool.and_eq_true, Bool.not_eq_true']

/-- An update wakes what is due and sets the RTC to the next alarm. -/
theorem alarmUpdate_spec (cal : Calendar) (s : State) :
    (alarmUpdate cal s).alarms = s.alarms.map (awoken cal s.now) ∧
      (alarmUpdate cal s).now = s.now ∧ (alarmUpdate cal s).due = false ∧
      (alarmUpdate cal s).event = s.event ∧
      (∀ x, nextAlarm (s.secNow cal) s.current (s.alarms.map (awoken cal s.now)) = some x →
        (alarmUpdate cal s).rtc = alarmSet x ∧ (alarmUpdate cal s).current = some x.addr) ∧
      (nextAlarm (s.secNow cal) s.current (s.alarms.map (awoken cal s.now)) = none →
        (alarmUpdate cal s).current = s.current ∧
          ((∀ a ∈ s.alarms, fires cal s.now a = false) → (alarmUpdate cal s).rtc = s.rtc) ∧
          ((∃ a ∈ s.alarms, fires cal s.now a = true) →
            (alarmUpdate cal s).rtc.enable = false)) := by
  obtain ⟨hmap, hkeep, hoff⟩ := wakeupAll_spec cal s.now s.alarms s.rtc
  unfold alarmUpdate State.secNow
  dsimp only
  rw [hmap]
  cases nextAlarm (alarmMkdaysec (cal.localtime s.now)) s.current
      (s.alarms.map (awoken cal s.now)) with
  | none =>
    exact ⟨rfl, rfl, rfl, rfl, fun x hx => absurd hx (by simp), fun _ => ⟨rfl, hkeep, hoff⟩⟩
  | some x =>
    refine ⟨rfl, rfl, rfl, rfl, fun y hy => ?_, nofun⟩
    obtain rfl := Option.some.inj hy
    exact ⟨rfl, rfl⟩

theorem mem_alarmUpdate {y : Alarm} (cal : Calendar) (s : State) :
    y ∈ (alarmUpdate cal s).alarms ∧ y.started = true ↔
      ∃ a, Still cal s a ∧ awoken cal s.now a = y := by
  rw [(alarmUpdate_spec cal s).1, mem_map]
  constructor
  · rintro ⟨⟨a, ha, rfl⟩, hstarted⟩
    exact ⟨a, ⟨ha, (started_awoken_iff cal s.now a).mp hstarted⟩, rfl⟩
  · rintro ⟨a, ⟨ha, hstarted⟩, rfl⟩
    exact ⟨⟨a, ha, rfl⟩, (started_awoken_iff cal s.now a).mpr hstarted⟩

variable (cal) in
theorem AlarmBase.next_spec (hbase : AlarmBase s) :
    (nextAlarm (s.secNow cal) s.current (s.alarms.map (awoken cal s.now)) = none →
      ∀ a, Still cal s a → some a.addr ≠ s.current → alarmMkdaysec a.wktime = s.secNow cal) ∧
    ∀ y, nextAlarm (s.secNow cal) s.current (s.alarms.map (awoken cal s.now)) = some y →
      ∃ a, Still cal s a ∧ awoken cal s.now a = y ∧ some a.addr ≠ s.current ∧
        alarmMkdaysec a.wktime ≠ s.secNow cal ∧ ∀ b, Still cal s b → some b.addr ≠ s.current →
          untilNext (s.secNow cal) false (alarmMkdaysec a.wktime) ≤
            untilNext (s.secNow cal) false (alarmMkdaysec b.wktime) := by
  have hcand : ∀ a, Still cal s a → some a.addr ≠ s.current →
      awoken cal s.now a ∈ s.alarms.map (awoken cal s.now) ∧
        Candidate s.current (awoken cal s.now a) := by
    intro a ha hne
    refine ⟨mem_map_of_mem ha.1, (started_awoken_iff cal s.now a).mpr ha.2, ?_⟩
    rwa [awoken_addr]
  have hdaysec : ∀ a, Still cal s a →
      alarmMkdaysec (awoken cal s.now a).wktime = alarmMkdaysec a.wktime :=
    fun a ha => (hbase.sameClock cal ha.1 ha.2.1).daysec
  have hday : ∀ y ∈ s.alarms.map (awoken cal s.now), Candidate s.current y →
      alarmMkdaysec y.wktime < 86400 := by
    intro y hy hy'
    obtain ⟨a, ha, rfl⟩ := mem_map.mp hy
    have hstill : Still cal s a := ⟨ha, (started_awoken_iff cal s.now a).mp hy'.1⟩
    rw [hdaysec a hstill]
    exact hbase.daysec_lt ha hstill.2.1
  obtain ⟨hnone, hsome⟩ := nextAlarm_spec (secNow_lt cal s) hday
  refine ⟨fun h a ha hne => ?_, fun y hy => ?_⟩
  · rw [← hdaysec a ha]
    exact hnone h _ (hcand a ha hne).1 (hcand a ha hne).2
  · obtain ⟨hmem, hy', hne, hfirst⟩ := hsome y hy
    obtain ⟨a, ha, rfl⟩ := mem_map.mp hmem
    have hstill : Still cal s a := ⟨ha, (started_awoken_iff cal s.now a).mp hy'.1⟩
    refine ⟨a, hstill, rfl, ?_, ?_, fun b hb hb' => ?_⟩
    · rw [← awoken_addr cal s.now a]
      exact hy'.2
    · rwa [hdaysec a hstill] at hne
    · rw [← hdaysec a hstill, ← hdaysec b hb]
      exact hfirst _ (hcand b hb hb').1 (hcand b hb hb').2

section

variable (hbase : AlarmBase s)
include hbase

theorem AlarmBase.inv_alarmUpdate : AlarmInv cal (alarmUpdate cal s) := by
  obtain ⟨halarms, hnow, hdue, hevent, hsome, hnone⟩ := alarmUpdate_spec cal s
  refine ⟨⟨?_, fun y hy hinit => ?_, fun y hy hstarted => ?_, fun c hc => ?_, fun hon => ?_⟩,
    fun h => absurd (hdue.symm.trans h) (by simp)⟩
  · rw [halarms, map_map]
    have haddr : Alarm.addr ∘ awoken cal s.now = Alarm.addr := funext (awoken_addr cal s.now)
    rw [haddr]
    exact hbase.nodup
  · rw [halarms] at hy
    obtain ⟨a, ha, rfl⟩ := mem_map.mp hy
    rw [awoken_inited] at hinit
    have hclock := hbase.onClock a ha hinit
    exact (awoken_sameClock s.now hclock).onClock hclock
  · obtain ⟨a, ha, rfl⟩ := (mem_alarmUpdate cal s).mp ⟨hy, hstarted⟩
    rw [awoken_inited]
    exact hbase.inited a ha.1 ha.2.1
  · cases hnext : nextAlarm (s.secNow cal) s.current (s.alarms.map (awoken cal s.now)) with
    | some y =>
      obtain ⟨a, ha, rfl, -⟩ := (hbase.next_spec cal).2 y hnext
      rw [(hsome _ hnext).2] at hc
      refine ⟨_, ((mem_alarmUpdate cal s).mpr ⟨a, ha, rfl⟩).1, Option.some.inj hc, ?_⟩
      rw [awoken_inited]
      exact hbase.inited a ha.1 ha.2.1
    | none =>
      rw [(hnone hnext).1] at hc
      obtain ⟨a, ha, haddr, hinit⟩ := hbase.current c hc
      refine ⟨awoken cal s.now a, ?_, ?_, ?_⟩
      · rw [halarms]
        exact mem_map_of_mem ha
      · rwa [awoken_addr]
      · rwa [awoken_inited]
  · cases hnext : nextAlarm (s.secNow cal) s.current (s.alarms.map (awoken cal s.now)) with
    | some y =>
      obtain ⟨a, ha, rfl, -⟩ := (hbase.next_spec cal).2 y hnext
      obtain ⟨hmem, hstarted⟩ := (mem_alarmUpdate cal s).mpr ⟨a, ha, rfl⟩
      exact ⟨_, hmem, (hsome _ hnext).2, hstarted, (hsome _ hnext).1⟩
    | none =>
      obtain ⟨hcurrent, hkeep, hoff⟩ := hnone hnext
      have hkept : ∀ a ∈ s.alarms, fires cal s.now a = false := by
        by_contra hfires
        push Not at hfires
        obtain ⟨a, ha, hfa⟩ := hfires
        nomatch (hoff ⟨a, ha, by simpa using hfa⟩).symm.trans hon
      rw [hkeep hkept] at hon ⊢
      obtain ⟨a, ha, hca, hstarted, hrtc⟩ := hbase.enabled hon
      obtain ⟨hmem, hstarted'⟩ := (mem_alarmUpdate cal s).mpr ⟨a, ⟨ha, hstarted, hkept a ha⟩, rfl⟩
      refine ⟨_, hmem, ?_, hstarted', ?_⟩
      · rw [hcurrent, awoken_addr]
        exact hca
      · rw [hbase.alarmSet_awoken ha hstarted (hkept a ha)]
        exact hrtc

theorem AlarmBase.untilDue_awoken (ha : Still cal s a) :
    (alarmUpdate cal s).untilDue cal (awoken cal s.now a) =
      untilNext (s.secNow cal) false (alarmMkdaysec a.wktime) := by
  obtain ⟨-, hnow, hdue, -⟩ := alarmUpdate_spec cal s
  unfold State.untilDue State.secNow
  rw [hnow, hdue, (hbase.sameClock cal ha.1 ha.2.1).daysec]

theorem AlarmBase.rightAlarm_alarmUpdate :
    RightAlarm cal (alarmUpdate cal s) ↔ (∀ a, ¬Still cal s a) ∨
      (∃ a, Still cal s a ∧ some a.addr ≠ s.current ∧ alarmMkdaysec a.wktime ≠ s.secNow cal ∧
        ∀ b, Still cal s b → untilNext (s.secNow cal) false (alarmMkdaysec a.wktime) ≤
          untilNext (s.secNow cal) false (alarmMkdaysec b.wktime)) ∨
      (∀ a, Still cal s a → some a.addr ≠ s.current → alarmMkdaysec a.wktime = s.secNow cal) ∧
        (∀ a ∈ s.alarms, fires cal s.now a = false) ∧ s.rtc.enable = true := by
  obtain ⟨halarms, -, -, -, hsome, hnone⟩ := alarmUpdate_spec cal s
  obtain ⟨hatNow, hfound⟩ := hbase.next_spec cal
  constructor
  · intro hright
    by_cases hstill : ∃ a, Still cal s a
    · right
      obtain ⟨a₀, ha₀⟩ := hstill
      obtain ⟨y, hy, hstarted, hcurrent, hrtc, hfirst⟩ :=
        hright ⟨_, (mem_alarmUpdate cal s).mpr ⟨a₀, ha₀, rfl⟩⟩
      obtain ⟨a, ha, rfl⟩ := (mem_alarmUpdate cal s).mp ⟨hy, hstarted⟩
      cases hnext : nextAlarm (s.secNow cal) s.current (s.alarms.map (awoken cal s.now)) with
      | some z =>
        left
        obtain ⟨a', ha', rfl, hother, hne, -⟩ := hfound z hnext
        have haddr := (hsome _ hnext).2.symm.trans hcurrent
        rw [awoken_addr, awoken_addr] at haddr
        obtain rfl : a' = a := eq_of_key hbase.nodup ha'.1 ha.1 (Option.some.inj haddr)
        refine ⟨a', ha', hother, hne, fun b hb => ?_⟩
        obtain ⟨hbmem, hbstarted⟩ := (mem_alarmUpdate cal s).mpr ⟨b, hb, rfl⟩
        rw [← hbase.untilDue_awoken ha', ← hbase.untilDue_awoken hb]
        exact hfirst _ hbmem hbstarted
      | none =>
        right
        obtain ⟨-, hkeep, hoff⟩ := hnone hnext
        have hon : (alarmUpdate cal s).rtc.enable = true := by
          rw [hrtc]
          exact hstarted
        have hkept : ∀ b ∈ s.alarms, fires cal s.now b = false := by
          by_contra hfires
          push Not at hfires
          obtain ⟨b, hb, hfb⟩ := hfires
          nomatch (hoff ⟨b, hb, by simpa using hfb⟩).symm.trans hon
        exact ⟨hatNow hnext, hkept, hkeep hkept ▸ hon⟩
    · exact .inl fun a ha => hstill ⟨a, ha⟩
  · rintro (hnostill | ⟨a, ha, hother, hne, hfirst⟩ | ⟨hothers, hkept, hon⟩)
    · rintro ⟨y, hy⟩
      obtain ⟨a, ha, -⟩ := (mem_alarmUpdate cal s).mp hy
      exact absurd ha (hnostill a)
    · intro _
      cases hnext : nextAlarm (s.secNow cal) s.current (s.alarms.map (awoken cal s.now)) with
      | none => exact absurd (hatNow hnext a ha hother) hne
      | some z =>
        obtain ⟨a', ha', rfl, -, -, hmin⟩ := hfound z hnext
        obtain ⟨hmem, hstarted⟩ := (mem_alarmUpdate cal s).mpr ⟨a', ha', rfl⟩
        refine ⟨_, hmem, hstarted, (hsome _ hnext).2, (hsome _ hnext).1, fun y hy hy' => ?_⟩
        obtain ⟨b, hb, rfl⟩ := (mem_alarmUpdate cal s).mp ⟨hy, hy'⟩
        rw [hbase.untilDue_awoken ha', hbase.untilDue_awoken hb]
        exact (hmin a ha hother).trans (hfirst b hb)
    · intro _
      cases hnext : nextAlarm (s.secNow cal) s.current (s.alarms.map (awoken cal s.now)) with
      | some z =>
        obtain ⟨a', ha', -, hother, hne, -⟩ := hfound z hnext
        exact absurd (hothers a' ha' hother) hne
      | none =>
        obtain ⟨hcurrent, hkeep, -⟩ := hnone hnext
        obtain ⟨c, hc, hcc, hcstarted, hrtc⟩ := hbase.enabled hon
        have hcstill : Still cal s c := ⟨hc, hcstarted, hkept c hc⟩
        obtain ⟨hmem, hstarted⟩ := (mem_alarmUpdate cal s).mpr ⟨c, hcstill, rfl⟩
        refine ⟨_, hmem, hstarted, ?_, ?_, fun y hy hy' => ?_⟩
        · rw [hcurrent, awoken_addr]
          exact hcc
        · rw [hkeep hkept, hbase.alarmSet_awoken hc hcstarted (hkept c hc)]
          exact hrtc
        · obtain ⟨b, hb, rfl⟩ := (mem_alarmUpdate cal s).mp ⟨hy, hy'⟩
          rw [hbase.untilDue_awoken hcstill, hbase.untilDue_awoken hb]
          by_cases hbc : b = c
          · rw [hbc]
          · have hother : some b.addr ≠ s.current := fun h =>
              hbc (eq_of_key hbase.nodup hb.1 hc (Option.some.inj (h.trans hcc)))
            have hbnow : untilNext (s.secNow cal) false (alarmMkdaysec b.wktime) = 86400 := by
              rw [hothers b hb hother]
              simp [untilNext]
            rw [hbnow]
            exact untilNext_le _ _ _

theorem AlarmBase.rightAlarm_update (hright : RightAlarm cal s) :
    RightAlarm cal (alarmUpdate cal s) ↔ UpdateServed cal s := by
  rw [hbase.rightAlarm_alarmUpdate]
  constructor
  · rintro (hnone | hfirst | ⟨hothers, hkept, -⟩)
    · exact .inl hnone
    · exact .inr (.inl hfirst)
    · exact .inr (.inr ⟨hothers, hkept⟩)
  · rintro (hnone | hfirst | ⟨hothers, hkept⟩)
    · exact .inl hnone
    · exact .inr (.inl hfirst)
    · by_cases hstarted : ∃ a ∈ s.alarms, a.started = true
      · obtain ⟨a, -, ha, -, hrtc, -⟩ := hright hstarted
        refine .inr (.inr ⟨hothers, hkept, ?_⟩)
        rw [hrtc]
        exact ha
      · exact .inl fun a ha => hstarted ⟨a, ha.1, ha.2.1⟩

end

theorem mem_put (ha : a ∈ s.alarms) (haddr : b.addr = a.addr) :
    x ∈ (s.put b).alarms ↔ x = b ∨ x ∈ s.alarms ∧ x.addr ≠ a.addr :=
  mem_replaceKeyed ha haddr

def stopped (s : State) (a : Alarm) : State :=
  { s.put { a with started := false } with
    rtc := alarmSet { a with started := false }
    current := none }

theorem AlarmBase.stopped (hbase : AlarmBase s) (ha : a ∈ s.alarms) : AlarmBase (stopped s a) := by
  have hmem : ∀ y, y ∈ (RtcAlarm.stopped s a).alarms ↔
      y = { a with started := false } ∨ y ∈ s.alarms ∧ y.addr ≠ a.addr :=
    fun y => mem_put (b := { a with started := false }) ha rfl
  refine ⟨?_, fun y hy hinit => ?_, fun y hy hstarted => ?_, fun c hc => absurd hc (by simp
    [RtcAlarm.stopped]), fun hon => absurd hon (by simp [RtcAlarm.stopped, alarmSet])⟩
  · change ((replaceKeyed Alarm.addr _ s.alarms).map Alarm.addr).Nodup
    rw [map_replaceKeyed]
    exact hbase.nodup
  · rcases (hmem y).mp hy with rfl | ⟨hy, -⟩
    · exact hbase.onClock a ha hinit
    · exact hbase.onClock y hy hinit
  · rcases (hmem y).mp hy with rfl | ⟨hy, -⟩
    · cases hstarted
    · exact hbase.inited y hy hstarted

theorem still_stopped (ha : a ∈ s.alarms) :
    Still cal (RtcAlarm.stopped s a) x ↔ Still cal s x ∧ x.addr ≠ a.addr := by
  have hmem : x ∈ (RtcAlarm.stopped s a).alarms ↔
      x = { a with started := false } ∨ x ∈ s.alarms ∧ x.addr ≠ a.addr :=
    mem_put (b := { a with started := false }) ha rfl
  unfold Still
  rw [hmem]
  constructor
  · rintro ⟨rfl | ⟨hx, hne⟩, hstarted, hkept⟩
    · cases hstarted
    · exact ⟨⟨hx, hstarted, hkept⟩, hne⟩
  · rintro ⟨⟨hx, hstarted, hkept⟩, hne⟩
    exact ⟨.inr ⟨hx, hne⟩, hstarted, hkept⟩

theorem AlarmBase.rightAlarm_stopped (hbase : AlarmBase s) (ha : a ∈ s.alarms) :
    RightAlarm cal (alarmUpdate cal (RtcAlarm.stopped s a)) ↔ StopServed cal s a.addr := by
  have hbase' := hbase.stopped ha
  have hstill : ∀ x, Still cal (RtcAlarm.stopped s a) x ↔ Still cal s x ∧ x.addr ≠ a.addr :=
    fun x => still_stopped ha
  have hnow : (RtcAlarm.stopped s a).secNow cal = s.secNow cal := rfl
  have hother : ∀ x : Alarm, some x.addr ≠ (RtcAlarm.stopped s a).current := fun x => by
    simp [RtcAlarm.stopped]
  rw [hbase'.rightAlarm_alarmUpdate, StopServed, hnow]
  constructor
  · rintro (hnone | ⟨x, hx, -, hne, -⟩ | ⟨-, -, hon⟩)
    · refine .inl fun x hx => ?_
      by_contra hne
      exact hnone x ((hstill x).mpr ⟨hx, hne⟩)
    · exact .inr ⟨x, ((hstill x).mp hx).1, ((hstill x).mp hx).2, hne⟩
    · exact absurd hon (by simp [RtcAlarm.stopped, alarmSet])
  · rintro (hnone | ⟨x, hx, hxa, hne⟩)
    · refine .inl fun x hx => ?_
      exact ((hstill x).mp hx).2 (hnone x ((hstill x).mp hx).1)
    · right
      left
      obtain ⟨hatNow, hfound⟩ := hbase'.next_spec cal
      cases hnext : nextAlarm ((RtcAlarm.stopped s a).secNow cal) (RtcAlarm.stopped s a).current
          ((RtcAlarm.stopped s a).alarms.map (awoken cal (RtcAlarm.stopped s a).now)) with
      | none => exact absurd (hatNow hnext x ((hstill x).mpr ⟨hx, hxa⟩) (hother x)) hne
      | some y =>
        obtain ⟨z, hz, -, -, hzne, hfirst⟩ := hfound y hnext
        exact ⟨z, hz, hother z, hzne, fun b hb => hfirst b hb (hother b)⟩

theorem RightAlarm.congr (hright : RightAlarm cal s) (hcurrent : s'.current = s.current)
    (hrtc : s'.rtc = s.rtc) (hnow : s'.now = s.now) (hdue : s'.due = s.due)
    (hmem : ∀ a, a.started = true → (a ∈ s'.alarms ↔ a ∈ s.alarms)) : RightAlarm cal s' := by
  have huntil : ∀ a, s'.untilDue cal a = s.untilDue cal a := by
    intro a
    unfold State.untilDue State.secNow
    rw [hnow, hdue]
  rintro ⟨a₀, ha₀, hstarted₀⟩
  obtain ⟨a, ha, hstarted, hca, hra, hfirst⟩ := hright ⟨a₀, (hmem a₀ hstarted₀).mp ha₀, hstarted₀⟩
  refine ⟨a, (hmem a hstarted).mpr ha, hstarted, hcurrent.trans hca, hrtc.trans hra,
    fun b hb hb' => ?_⟩
  rw [huntil, huntil]
  exact hfirst b ((hmem b hb').mp hb) hb'

theorem AlarmInv.put_stopped (hinv : AlarmInv cal s) (ha : a ∈ s.alarms)
    (hother : s.current ≠ some a.addr) (haddr : b.addr = a.addr) (hoff : b.started = false)
    (hclock : b.inited = true → b.wktime.OnClock) :
    AlarmInv cal (s.put b) ∧ (RightAlarm cal s → RightAlarm cal (s.put b)) := by
  have hmem : ∀ y, y ∈ (s.put b).alarms ↔ y = b ∨ y ∈ s.alarms ∧ y.addr ≠ a.addr :=
    fun y => mem_put ha haddr
  have hkept : ∀ y, y ∈ s.alarms → s.current = some y.addr → y ∈ (s.put b).alarms :=
    fun y hy hcy => (hmem y).mpr (.inr ⟨hy, fun h => hother (hcy.trans (congrArg some h))⟩)
  refine ⟨⟨⟨?_, fun y hy hinit => ?_, fun y hy hstarted => ?_, fun c hc => ?_, fun hon => ?_⟩,
    fun hdue => ?_⟩, fun hright => ?_⟩
  · change ((replaceKeyed Alarm.addr _ s.alarms).map Alarm.addr).Nodup
    rw [map_replaceKeyed]
    exact hinv.nodup
  · rcases (hmem y).mp hy with rfl | ⟨hy, -⟩
    · exact hclock hinit
    · exact hinv.onClock y hy hinit
  · rcases (hmem y).mp hy with rfl | ⟨hy, -⟩
    · nomatch hoff.symm.trans hstarted
    · exact hinv.inited y hy hstarted
  · obtain ⟨y, hy, rfl, hinit⟩ := hinv.current c hc
    exact ⟨y, hkept y hy hc, rfl, hinit⟩
  · obtain ⟨y, hy, hcy, hy'⟩ := hinv.enabled hon
    exact ⟨y, hkept y hy hcy, hcy, hy'⟩
  · obtain ⟨hevent, y, hy, hcy, hy'⟩ := hinv.due hdue
    exact ⟨hevent, y, hkept y hy hcy, hcy, hy'⟩
  · rintro ⟨y₀, hy₀, hstarted₀⟩
    have hold : ∀ y ∈ (s.put b).alarms, y.started = true → y ∈ s.alarms := by
      intro y hy hstarted
      rcases (hmem y).mp hy with rfl | ⟨hy, -⟩
      · nomatch hoff.symm.trans hstarted
      · exact hy
    obtain ⟨y, hy, hstarted, hcy, hrtc, hfirst⟩ := hright ⟨y₀, hold y₀ hy₀ hstarted₀, hstarted₀⟩
    exact ⟨y, hkept y hy hcy, hstarted, hcy, hrtc, fun b hb hb' => hfirst b (hold b hb hb') hb'⟩

variable (addr) in
theorem AlarmInv.erase (hinv : AlarmInv cal s) (hother : s.current ≠ some addr)
    (hstopped : ∀ a ∈ s.alarms, a.addr = addr → a.started = false) :
    AlarmInv cal { s with alarms := s.alarms.eraseP fun a => a.addr = addr } ∧
      (RightAlarm cal { s with alarms := s.alarms.eraseP fun a => a.addr = addr } ↔
        RightAlarm cal s) := by
  have hmem : ∀ y, y ∈ s.alarms.eraseP (fun a => a.addr = addr) ↔ y ∈ s.alarms ∧ y.addr ≠ addr :=
    fun y => mem_eraseP_keyed hinv.nodup
  have hkept : ∀ y, y ∈ s.alarms → s.current = some y.addr →
      y ∈ s.alarms.eraseP (fun a => a.addr = addr) := fun y hy hcy =>
    (hmem y).mpr ⟨hy, fun h => hother (hcy.trans (congrArg some h))⟩
  have hsame : ∀ y, y.started = true →
      (y ∈ s.alarms.eraseP (fun a => a.addr = addr) ↔ y ∈ s.alarms) := by
    intro y hstarted
    rw [hmem]
    refine ⟨fun h => h.1, fun hy => ⟨hy, fun haddr => ?_⟩⟩
    nomatch hstarted.symm.trans (hstopped y hy haddr)
  refine ⟨⟨⟨?_, fun y hy hinit => ?_, fun y hy hstarted => ?_, fun c hc => ?_, fun hon => ?_⟩,
    fun hdue => ?_⟩, fun hright => ?_, fun hright => ?_⟩
  · exact hinv.nodup.sublist (eraseP_sublist.map _)
  · exact hinv.onClock y ((hmem y).mp hy).1 hinit
  · exact hinv.inited y ((hmem y).mp hy).1 hstarted
  · obtain ⟨y, hy, rfl, hinit⟩ := hinv.current c hc
    exact ⟨y, hkept y hy hc, rfl, hinit⟩
  · obtain ⟨y, hy, hcy, hy'⟩ := hinv.enabled hon
    exact ⟨y, hkept y hy hcy, hcy, hy'⟩
  · obtain ⟨hevent, y, hy, hcy, hy'⟩ := hinv.due hdue
    exact ⟨hevent, y, hkept y hy hcy, hcy, hy'⟩
  · exact hright.congr rfl rfl rfl rfl fun y hy => (hsame y hy).symm
  · exact hright.congr rfl rfl rfl rfl hsame

theorem AlarmInv.stop (hinv : AlarmInv cal s) (ha : a ∈ s.alarms) :
    AlarmInv cal (rtAlarmStop cal s a.addr).2 ∧ (RightAlarm cal s →
      (RightAlarm cal (rtAlarmStop cal s a.addr).2 ↔
        (s.current = some a.addr → StopServed cal s a.addr))) := by
  unfold rtAlarmStop
  rw [hinv.find_eq ha]
  dsimp only
  by_cases hstarted : a.started = true
  · rw [if_pos hstarted]
    by_cases hcurrent : s.current = some a.addr
    · rw [if_pos (show (s.put { a with started := false }).current = some a.addr from hcurrent)]
      refine ⟨(hinv.stopped ha).inv_alarmUpdate, fun _ => ?_⟩
      rw [forall_prop_of_true hcurrent]
      exact hinv.rightAlarm_stopped ha
    · rw [if_neg (show ¬(s.put { a with started := false }).current = some a.addr from hcurrent)]
      have hput := hinv.put_stopped (b := { a with started := false }) ha hcurrent rfl rfl
        (hinv.onClock a ha)
      exact ⟨hput.1, fun hright => iff_of_true (hput.2 hright) fun h => absurd h hcurrent⟩
  · rw [if_neg hstarted]
    refine ⟨hinv, fun hright => iff_of_true hright fun hcurrent => .inl fun b hb => ?_⟩
    -- the current alarm is stopped, so that no alarm is started
    obtain ⟨c, hc, hcstarted, hcc, -⟩ := hright ⟨b, hb.1, hb.2.1⟩
    have hac : a = c := eq_of_key hinv.nodup ha hc (Option.some.inj (hcurrent.symm.trans hcc))
    exact absurd (hac ▸ hcstarted) hstarted

theorem AlarmInv.delete (hinv : AlarmInv cal s) (ha : a ∈ s.alarms) :
    AlarmInv cal (rtAlarmDelete cal s a.addr).2 ∧ (RightAlarm cal s →
      (RightAlarm cal (rtAlarmDelete cal s a.addr).2 ↔
        (s.current = some a.addr → StopServed cal s a.addr))) := by
  unfold rtAlarmDelete
  rw [hinv.find_eq ha]
  dsimp only
  have hmem : ∀ y, y ∈ (s.put { a with started := false }).alarms ↔
      y = { a with started := false } ∨ y ∈ s.alarms ∧ y.addr ≠ a.addr :=
    fun y => mem_put (b := { a with started := false }) ha rfl
  by_cases hcurrent : s.current = some a.addr
  · rw [if_pos (show (s.put { a with started := false }).current = some a.addr from hcurrent)]
    have hbase := hinv.stopped ha
    have hinv' : AlarmInv cal (alarmUpdate cal (stopped s a)) := hbase.inv_alarmUpdate
    have hgone : ∀ y ∈ (alarmUpdate cal (stopped s a)).alarms, y.addr = a.addr →
        y.started = false := by
      intro y hy haddr
      by_contra hstarted
      obtain ⟨b, hb, rfl⟩ := (mem_alarmUpdate cal _).mp ⟨hy, by simpa using hstarted⟩
      rw [awoken_addr] at haddr
      exact ((still_stopped ha).mp hb).2 haddr
    have hother : (alarmUpdate cal (stopped s a)).current ≠ some a.addr := by
      intro hca
      obtain ⟨-, -, -, -, hsome, hnone⟩ := alarmUpdate_spec cal (stopped s a)
      cases hnext : nextAlarm ((stopped s a).secNow cal) (stopped s a).current
          ((stopped s a).alarms.map (awoken cal (stopped s a).now)) with
      | none => exact absurd ((hnone hnext).1.symm.trans hca) (by simp [stopped])
      | some y =>
        obtain ⟨b, hb, rfl, -⟩ := (hbase.next_spec cal).2 y hnext
        have haddr := Option.some.inj ((hsome _ hnext).2.symm.trans hca)
        rw [awoken_addr] at haddr
        exact ((still_stopped ha).mp hb).2 haddr
    have herase := hinv'.erase _ hother hgone
    refine ⟨herase.1, fun _ => ?_⟩
    rw [forall_prop_of_true hcurrent]
    exact herase.2.trans (hinv.rightAlarm_stopped ha)
  · rw [if_neg (show ¬(s.put { a with started := false }).current = some a.addr from hcurrent)]
    have hput := hinv.put_stopped (b := { a with started := false }) ha hcurrent rfl rfl
      (hinv.onClock a ha)
    have herase := hput.1.erase a.addr hcurrent (by
      intro y hy haddr
      rcases (hmem y).mp hy with rfl | ⟨-, hne⟩
      · rfl
      · exact absurd haddr hne)
    exact ⟨herase.1, fun hright =>
      iff_of_true (herase.2.mpr (hput.2 hright)) fun h => absurd h hcurrent⟩

end RtThread.RtcAlarm
