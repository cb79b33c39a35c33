import RtThread.HardTimerRounds

/-!
# Hard timers fire on time

Starts, stops and increments of the tick in any order.  A timer which has been started at a
tick is called at the ticks which its delay demands.  Among the timers which are called with
one tick those which were started with delay zero come first, and then the others in the
order of their starts.
-/

namespace RtThread.Timer.HardTimer

open Function Option Word

variable {τ : Type} [DecidableEq τ] {cfg : SkipConfig} {s s' : ClockState τ} {t u v : τ}
  {low : ℕ}

def callTicks (timer : RtTimer) (startedAt now : ℕ) : List ℕ :=
  if timer.periodic then
    (List.range ((now - startedAt) / timer.initTick)).map fun k =>
      startedAt + (k + 1) * timer.initTick
  else
    if startedAt + max timer.initTick 1 ≤ now then [startedAt + max timer.initTick 1] else []

/-- Every timer has been called at the ticks it asked for, and in their order. -/
structure OnTime (s : ClockState τ) : Prop where
  tick : s.core.tick = s.now % 4294967296
  called : ∀ t, (s.core.timers t).softTimer = false → s.called t = match s.startedAt t with
    | none => []
    | some startedAt => callTicks (s.core.timers t) startedAt s.now
  timeout : ∀ call ∈ s.log, call.tick =
    call.timeout + if (s.core.timers call.timer).initTick = 0 then 1 else 0
  inOrder : s.log.Pairwise Call.Before

structure OnlyTimer (s s' : ClockState τ) (t : τ) : Prop where
  initTick : ∀ u, (s'.core.timers u).initTick = (s.core.timers u).initTick
  periodic : ∀ u, (s'.core.timers u).periodic = (s.core.timers u).periodic
  list : ∀ u, (s'.core.timers u).list = (s.core.timers u).list
  timer : ∀ u ≠ t, s'.core.timers u = s.core.timers u
  startedAt : ∀ u ≠ t, s'.startedAt u = s.startedAt u
  order : ∀ u ≠ t, s'.order u = s.order u
  mark : s'.mark = update s.mark t s.log.length
  now : s'.now = s.now
  log : s'.log = s.log

namespace OnlyTimer

section

variable (honly : OnlyTimer s s' t)
include honly

theorem called_self : s'.called t = [] := by
  unfold ClockState.called
  rw [honly.mark, honly.log]
  simp

theorem called (hne : u ≠ t) : s'.called u = s.called u := by
  apply called_congr
  rw [honly.mark, honly.log, update_of_ne hne]

theorem timeout (hne : u ≠ t) : s'.timeout u = s.timeout u :=
  timeout_congr (honly.startedAt u hne) (honly.called hne) (honly.initTick u)

theorem earlier (hu : u ≠ t) (hv : v ≠ t)
    (hearlier : Earlier s.timeout s.order u v) : Earlier s'.timeout s'.order u v := by
  unfold Earlier
  rw [honly.timeout hu, honly.timeout hv, honly.order u hu, honly.order v hv]
  exact hearlier

theorem pending {startedAt : ℕ} (hne : u ≠ t)
    (hpending : Pending s low u startedAt) : Pending s' low u startedAt :=
  hpending.congr (honly.timer u hne) (honly.startedAt u hne) (honly.called hne) honly.now.ge

theorem idle (hne : u ≠ t) (hidle : Idle s u) : Idle s' u :=
  hidle.congr (honly.periodic u) (honly.initTick u) (honly.startedAt u hne) (honly.called hne)
    honly.now.ge

theorem properTicks (hticks : ProperTicks s) : ProperTicks s' := by
  intro u
  rw [honly.initTick u, honly.periodic u]
  exact hticks u

theorem clockInv (hinv : ClockInv cfg s.now s)
    (hrows : RowsInv cfg s'.core) (htick : s'.core.tick = s.core.tick)
    (hlinked : ∀ u, (s'.core.timers u).activated = true →
      u ∈ s'.core.bottom cfg (s'.core.timers u).list)
    (hpending : ∀ u ∈ s'.core.bottom cfg .hard, ∃ startedAt, Pending s' s.now u startedAt)
    (hidle : ∀ u, (s'.core.timers u).list = .hard → (s'.core.timers u).activated = false →
      Idle s' u) (hsorted : (s'.core.bottom cfg .hard).Pairwise (Earlier s'.timeout s'.order))
    (horder : ∀ u ∈ s'.core.bottom cfg .hard, s'.order u < s'.starts) : ClockInv cfg s.now s' := by
  constructor
  · exact hrows
  · rw [htick, honly.now]
    exact hinv.tick
  · exact honly.properTicks hinv.ticks
  · exact hlinked
  · exact hpending
  · exact hidle
  · exact hsorted
  · exact horder
  · intro u
    rw [honly.mark, honly.log]
    by_cases hut : u = t
    · simp [hut]
    · simpa [hut] using hinv.marks u
  · rw [honly.log]
    intro call hcall
    rw [honly.initTick]
    exact hinv.timeouts call hcall
  · rw [honly.log]
    exact hinv.inOrder
  · rw [honly.log]
    intro call hcall
    obtain hpast | ⟨hsame, -⟩ := hinv.past call hcall
    · exact .inl hpast
    · exact .inl hsame.le

end

end OnlyTimer

theorem start_eq {core : TimerState τ} (hstart : rtTimerStart cfg s.core t = some core) :
    start cfg s t =
      { s with
        core := core
        startedAt := update s.startedAt t (some s.now)
        order := update s.order t s.starts
        starts := s.starts + 1
        mark := update s.mark t s.log.length } := by
  simp only [start, hstart]

theorem onlyTimer_start {core : TimerState τ} (hstart : rtTimerStart cfg s.core t = some core) :
    OnlyTimer s (start cfg s t) t := by
  have htimers : core.timers = update s.core.timers t (startedTimer s.core t) :=
    (rtTimerStart_eq_some hstart).2.2.1
  rw [start_eq hstart]
  constructor
  · intro u
    by_cases hut : u = t <;> simp [htimers, hut, startedTimer]
  · intro u
    by_cases hut : u = t <;> simp [htimers, hut, startedTimer]
  · intro u
    by_cases hut : u = t <;> simp [htimers, hut, startedTimer, RtTimer.list]
  · intro u hne
    simp [htimers, hne]
  · intro u hne
    simp [hne]
  · intro u hne
    simp [hne]
  · rfl
  · rfl
  · rfl

theorem start_self {core : TimerState τ} (hstart : rtTimerStart cfg s.core t = some core) :
    (start cfg s t).core.timers t = startedTimer s.core t ∧
      (start cfg s t).startedAt t = some s.now ∧
      (start cfg s t).timeout t = s.now + (s.core.timers t).initTick := by
  have htimer : core.timers t = startedTimer s.core t := by
    rw [(rtTimerStart_eq_some hstart).2.2.1, update_self]
  refine ⟨?_, ?_, ?_⟩
  · rw [start_eq hstart]
    exact htimer
  · rw [start_eq hstart]
    exact update_self _ _ _
  · unfold ClockState.timeout
    rw [(onlyTimer_start hstart).called_self, start_eq hstart]
    simp [htimer, startedTimer]

namespace ClockInv

section

variable (hinv : ClockInv cfg s.now s)
include hinv

theorem pending_start {core : TimerState τ} (hstart : rtTimerStart cfg s.core t = some core) :
    Pending (HardTimer.start cfg s t) s.now t s.now := by
  obtain ⟨htimer, hstarted, htimeout⟩ := start_self hstart
  have hcalled := (onlyTimer_start hstart).called_self
  constructor
  · exact hstarted
  · exact le_rfl
  · rw [hcalled]
    rfl
  · exact fun hne => absurd hcalled hne
  · rw [htimer, htimeout]
    simp only [startedTimer, hinv.tick, add32, Nat.mod_add_mod]
  · rw [htimer, htimeout]
    obtain hzero | hpos := Nat.eq_zero_or_pos (s.core.timers t).initTick
    · right
      simp [startedTimer, hzero]
    · left
      omega
  · rw [htimer, htimeout, (onlyTimer_start hstart).now]
    exact le_rfl

theorem pending_of_start {core : TimerState τ}
    (hstart : rtTimerStart cfg s.core t = some core) (hu : u ∈ core.bottom cfg .hard) :
    ∃ startedAt, Pending (HardTimer.start cfg s t) s.now u startedAt := by
  have hinactive := (rtTimerStart_eq_some hstart).1
  rw [hinv.rows.mem_rtTimerStart hstart] at hu
  obtain ⟨rfl, -⟩ | hold := hu
  · exact ⟨s.now, hinv.pending_start hstart⟩
  · have hne : u ≠ t := hinv.rows.ne_of_inactive hinactive hold
    obtain ⟨startedAt, hpending⟩ := hinv.pending u hold
    exact ⟨startedAt, (onlyTimer_start hstart).pending hne hpending⟩

theorem sorted_start {core : TimerState τ}
    (hstart : rtTimerStart cfg s.core t = some core) : (core.bottom cfg .hard).Pairwise
      (Earlier (HardTimer.start cfg s t).timeout (HardTimer.start cfg s t).order) := by
  obtain ⟨hinactive, -, -, hlists, -⟩ := rtTimerStart_eq_some hstart
  have honly := onlyTimer_start hstart
  have hne : ∀ u ∈ s.core.bottom cfg .hard, u ≠ t :=
    fun u hu => hinv.rows.ne_of_inactive hinactive hu
  have hold : (s.core.bottom cfg .hard).Pairwise
      (Earlier (HardTimer.start cfg s t).timeout (HardTimer.start cfg s t).order) := by
    apply hinv.sorted.imp_of_mem
    intro x y hx hy hearlier
    exact honly.earlier (hne x hx) (hne y hy) hearlier
  by_cases hlist : (s.core.timers t).list = .hard
  · apply pairwise_started s.now hinv.rows hstart hlist hold
    · intro u hu
      obtain ⟨startedAt, hwaits⟩ := hinv.pending_of_start hstart hu
      have htimeoutTick := hwaits.timeoutTick
      have hahead := hwaits.ahead
      have hnear := hwaits.near
      have hhalf := (honly.properTicks hinv.ticks u).1
      have hnow := honly.now
      have hcore : (HardTimer.start cfg s t).core = core := by rw [start_eq hstart]
      rw [hcore] at htimeoutTick
      exact ⟨htimeoutTick, by omega, by omega⟩
    · intro u hu
      rw [honly.order u (hne u hu), start_eq hstart]
      simpa using hinv.order u hu
  · have hsame : core.bottom cfg .hard = s.core.bottom cfg .hard :=
      congrFun (hlists .hard (Ne.symm hlist)) _
    rw [hsame]
    exact hold

theorem start (t : τ) : ClockInv cfg s.now (HardTimer.start cfg s t) := by
  cases hstart : rtTimerStart cfg s.core t with
  | none =>
    simp only [HardTimer.start, hstart]
    exact hinv
  | some core =>
    obtain ⟨hinactive, htick, -⟩ := rtTimerStart_eq_some hstart
    have honly := onlyTimer_start hstart
    have hcore : (HardTimer.start cfg s t).core = core := by rw [start_eq hstart]
    apply honly.clockInv hinv
    · rw [hcore]
      exact hinv.rows.rtTimerStart hstart
    · rw [hcore, htick]
    · intro u hactive
      rw [honly.list u, hcore, hinv.rows.mem_rtTimerStart hstart]
      by_cases hut : u = t
      · subst hut
        exact .inl ⟨rfl, rfl⟩
      · rw [honly.timer u hut] at hactive
        exact .inr (hinv.linked u hactive)
    · rw [hcore]
      exact fun u hu => hinv.pending_of_start hstart hu
    · intro u hlist hidle
      by_cases hut : u = t
      · subst hut
        rw [(start_self hstart).1] at hidle
        cases hidle
      · rw [honly.timer u hut] at hlist hidle
        exact honly.idle hut (hinv.idle u hlist hidle)
    · rw [hcore]
      exact hinv.sorted_start hstart
    · intro u hu
      rw [hcore, hinv.rows.mem_rtTimerStart hstart] at hu
      obtain ⟨rfl, -⟩ | hold := hu
      · rw [start_eq hstart]
        simp
      · have hne : u ≠ t := hinv.rows.ne_of_inactive hinactive hold
        rw [honly.order u hne, start_eq hstart]
        exact (hinv.order u hold).trans (Nat.lt_succ_self _)

end

end ClockInv

section

variable (hactive : (s.core.timers t).activated = true)
include hactive

theorem stop_eq : stop s t =
      { s with
        core := setActivated (rtTimerRemove s.core t) t false
        startedAt := update s.startedAt t none
        mark := update s.mark t s.log.length } := by
  simp only [stop, rtTimerStop, hactive, if_true]

theorem stop_self : (stop s t).core.timers t = { s.core.timers t with activated := false } := by
  rw [stop_eq hactive]
  exact update_self _ _ _

theorem onlyTimer_stop : OnlyTimer s (stop s t) t := by
  have htimers : ∀ u, u ≠ t → (stop s t).core.timers u = s.core.timers u := by
    intro u hne
    rw [stop_eq hactive]
    exact update_of_ne hne _ _
  constructor
  · intro u
    by_cases hut : u = t
    · rw [hut, stop_self hactive]
    · rw [htimers u hut]
  · intro u
    by_cases hut : u = t
    · rw [hut, stop_self hactive]
    · rw [htimers u hut]
  · intro u
    by_cases hut : u = t
    · rw [hut, stop_self hactive]
      rfl
    · rw [htimers u hut]
  · exact htimers
  · intro u hne
    rw [stop_eq hactive]
    exact update_of_ne hne _ _
  · intro u _
    rw [stop_eq hactive]
  · rw [stop_eq hactive]
  · rw [stop_eq hactive]
  · rw [stop_eq hactive]

end

namespace ClockInv

theorem stop (hinv : ClockInv cfg s.now s) (t : τ) : ClockInv cfg s.now (HardTimer.stop s t) := by
  cases hactive : (s.core.timers t).activated with
  | false =>
    simp only [HardTimer.stop, rtTimerStop, hactive, Bool.false_eq_true, if_false]
    exact hinv
  | true =>
    have honly := onlyTimer_stop hactive
    have hbottom : ∀ k, (HardTimer.stop s t).core.bottom cfg k = (s.core.bottom cfg k).erase t := by
      intro k
      rw [stop_eq hactive]
      rfl
    have hmem : ∀ k u, u ∈ (HardTimer.stop s t).core.bottom cfg k ↔
        u ≠ t ∧ u ∈ s.core.bottom cfg k := by
      intro k u
      rw [hbottom]
      exact hinv.rows.mem_rtTimerRemove
    apply honly.clockInv hinv
    · rw [stop_eq hactive]
      exact hinv.rows.rtTimerStop (if_pos hactive)
    · rw [stop_eq hactive]
      rfl
    · intro u hlinked
      rw [honly.list u, hmem]
      by_cases hut : u = t
      · subst hut
        rw [stop_self hactive] at hlinked
        cases hlinked
      · rw [honly.timer u hut] at hlinked
        exact ⟨hut, hinv.linked u hlinked⟩
    · intro u hu
      obtain ⟨hut, hold⟩ := (hmem _ u).mp hu
      obtain ⟨startedAt, hpending⟩ := hinv.pending u hold
      exact ⟨startedAt, honly.pending hut hpending⟩
    · intro u hlist hidle
      by_cases hut : u = t
      · subst hut
        have hstarted : (HardTimer.stop s u).startedAt u = none := by
          rw [stop_eq hactive]
          exact update_self _ _ _
        unfold Idle
        rw [hstarted]
        exact honly.called_self
      · rw [honly.timer u hut] at hlist hidle
        exact honly.idle hut (hinv.idle u hlist hidle)
    · rw [hbottom]
      apply (hinv.sorted.sublist List.erase_sublist).imp_of_mem
      intro x y hx hy hearlier
      have hxt := (hinv.rows.mem_rtTimerRemove.mp hx).1
      have hyt := (hinv.rows.mem_rtTimerRemove.mp hy).1
      exact honly.earlier hxt hyt hearlier
    · intro u hu
      obtain ⟨hut, hold⟩ := (hmem _ u).mp hu
      rw [honly.order u hut, stop_eq hactive]
      exact hinv.order u hold

theorem of_init (hinit : (clockSystem cfg).init s) : ClockInv cfg s.now s := by
  obtain ⟨hlists, hinactive, hticks, htick, hnow, hstarted, hlog⟩ := hinit
  have hbottom : s.core.bottom cfg .hard = [] := hlists .hard _
  constructor
  · exact .of_empty hlists
  · rw [htick, Nat.mod_eq_of_lt hnow]
  · exact hticks
  · intro t hactive
    rw [hinactive] at hactive
    cases hactive
  · simp [hbottom]
  · intro t _ _
    unfold Idle
    rw [(hstarted t).1]
    unfold ClockState.called
    simp [hlog]
  · simp [hbottom]
  · simp [hbottom]
  · intro t
    rw [(hstarted t).2]
    exact Nat.zero_le _
  · simp [hlog]
  · simp [hlog]
  · simp [hlog]

theorem of_reachable {guard : ClockState τ → Action τ → Prop}
    (hreach : (clockSystem cfg).Reachable guard s) : ClockInv cfg s.now s := by
  apply hreach.invariant (P := fun s => ClockInv cfg s.now s)
  · exact fun s hinit => of_init hinit
  · intro s action s' hinv _ hstep
    cases action with
    | start t =>
      have heq : s' = HardTimer.start cfg s t := hstep
      have hnow : (HardTimer.start cfg s t).now = s.now := by
        unfold HardTimer.start
        split <;> rfl
      rw [heq, hnow]
      exact hinv.start t
    | stop t =>
      have heq : s' = HardTimer.stop s t := hstep
      have hnow : (HardTimer.stop s t).now = s.now := by
        unfold HardTimer.stop
        split <;> rfl
      rw [heq, hnow]
      exact hinv.stop t
    | tickIncrease =>
      obtain ⟨fuel, hfuel⟩ := hstep
      exact hinv.incrementTick.check rfl hfuel

theorem called_of_pending {startedAt : ℕ} (hinv : ClockInv cfg s.now s)
    (hpending : Pending s s.now t startedAt) :
    s.called t = callTicks (s.core.timers t) startedAt s.now := by
  have hvalue : s.timeout t = startedAt +
      ((s.called t).length + 1) * (s.core.timers t).initTick := by
    unfold ClockState.timeout
    rw [hpending.started, getD_some]
  have hahead := hpending.ahead
  have hnear := hpending.near
  unfold callTicks
  cases hperiodic : (s.core.timers t).periodic with
  | true =>
    have hpositive := (hinv.ticks t).2 hperiodic
    have hrounds : (s.now - startedAt) / (s.core.timers t).initTick = (s.called t).length := by
      rw [Nat.add_mul, Nat.one_mul] at hvalue
      apply Nat.div_eq_of_lt_le
      · lia
      · rw [Nat.add_mul, Nat.one_mul]
        lia
    rw [if_pos rfl, hrounds]
    exact hpending.called
  | false =>
    have hnil : s.called t = [] := by
      by_contra hne
      have hagain := hpending.again hne
      rw [hperiodic] at hagain
      exact Bool.false_ne_true hagain
    rw [hnil, List.length_nil, Nat.zero_add, Nat.one_mul] at hvalue
    have hnot : ¬startedAt + max (s.core.timers t).initTick 1 ≤ s.now := by lia
    simp only [Bool.false_eq_true, if_false, if_neg hnot, hnil]

theorem called_eq (hinv : ClockInv cfg s.now s) (hlist : (s.core.timers t).list = .hard) :
    s.called t = match s.startedAt t with
      | none => []
      | some startedAt => callTicks (s.core.timers t) startedAt s.now := by
  cases hactive : (s.core.timers t).activated with
  | true =>
    obtain ⟨startedAt, hpending⟩ := hinv.pending t (hlist ▸ hinv.linked t hactive)
    rw [hpending.started]
    exact hinv.called_of_pending hpending
  | false =>
    have hidle := hinv.idle t hlist hactive
    unfold Idle at hidle
    cases hstarted : s.startedAt t with
    | none =>
      rw [hstarted] at hidle
      exact hidle
    | some startedAt =>
      rw [hstarted] at hidle
      obtain ⟨honce, hcalled, hpast⟩ := hidle
      simp only [callTicks, honce, Bool.false_eq_true, if_false, if_pos hpast, hcalled]

theorem onTime (hinv : ClockInv cfg s.now s) : OnTime s :=
  { hinv with
    called t hhard := hinv.called_eq (by simp [RtTimer.list, hhard])
    timeout := hinv.timeouts }

end ClockInv

/-- In every run every hard timer is called on time, with the calls of one tick in the order
of the timeouts and the starts, and `rt_tick_increase` returns. -/
theorem onTime_of_reachable (cfg : SkipConfig) (s : ClockState τ)
    (hreach : (clockSystem cfg).Reachable (fun _ _ => True) s) :
    OnTime s ∧ ∃ fuel s', rtTickIncrease cfg fuel s = some s' := by
  have hinv := ClockInv.of_reachable hreach
  refine ⟨hinv.onTime, ?_⟩
  obtain ⟨s', hs'⟩ := hinv.incrementTick.exists_check rfl rfl
  exact ⟨_, s', hs'⟩

def sampleTimer : Fin 4 → RtTimer
  | 0 => ⟨0, 1, true, false, false⟩
  | 1 => ⟨0, 1, false, false, false⟩
  | 2 => ⟨0, 2, false, false, false⟩
  | 3 => ⟨0, 0, false, false, false⟩

def sampleInit : ClockState (Fin 4) where
  core := ⟨4294967294, 0, sampleTimer, fun _ _ => []⟩
  now := 4294967294
  startedAt := fun _ => none
  order := fun _ => 0
  starts := 0
  log := []
  mark := fun _ => 0

theorem init_sampleInit : (clockSystem defaultConfig).init sampleInit := by
  refine ⟨fun _ _ => rfl, ?_, ?_, rfl, by norm_num [sampleInit], fun _ => ⟨rfl, rfl⟩, rfl⟩
  · intro t
    fin_cases t <;> rfl
  · intro t
    fin_cases t <;> decide

def sampleStep (s : ClockState (Fin 4)) : Action (Fin 4) → Option (ClockState (Fin 4))
  | .start t => some (start defaultConfig s t)
  | .stop t => some (stop s t)
  | .tickIncrease => rtTickIncrease defaultConfig 5 s

theorem reachable_sampleStep {actions : List (Action (Fin 4))} {s : ClockState (Fin 4)}
    (hrun : actions.foldlM sampleStep sampleInit = some s) :
    (clockSystem defaultConfig).Reachable (fun _ _ => True) s := by
  apply TransitionSystem.Reachable.foldlM _ (.start init_sampleInit) hrun
  intro s action s' hstep
  cases action with
  | start t | stop t => exact ⟨trivial, (some.inj hstep).symm⟩
  | tickIncrease => exact ⟨trivial, 5, hstep⟩

theorem onTime_in_sample :
    ∃ s : ClockState (Fin 4), (clockSystem defaultConfig).Reachable (fun _ _ => True) s ∧
      s.core.tick = 0 ∧ s.log = [⟨0, 4294967295, 4294967295, 0⟩, ⟨2, 4294967296, 4294967296, 1⟩,
        ⟨0, 4294967296, 4294967296, 3⟩] ∧
      (OnTime s ∧ ∃ fuel s', rtTickIncrease defaultConfig fuel s = some s') := by
  have hrun : ([.start 0, .start 2, .start 1, .stop 1, .tickIncrease,
      .tickIncrease].foldlM sampleStep sampleInit).map (fun s => (s.core.tick, s.log)) =
      some (0, [⟨0, 4294967295, 4294967295, 0⟩, ⟨2, 4294967296, 4294967296, 1⟩,
        ⟨0, 4294967296, 4294967296, 3⟩]) := by
    decide +kernel
  obtain ⟨s, hs, hvalue⟩ := map_eq_some_iff.mp hrun
  rw [Prod.mk.injEq] at hvalue
  have hreach := reachable_sampleStep hs
  exact ⟨s, hreach, hvalue.1, hvalue.2, onTime_of_reachable defaultConfig s hreach⟩

/-- A timer with delay one is started before one with no delay; both have to be called with
the next tick, and the second one is called first. -/
theorem second_timer_called_first :
    ∃ s : ClockState (Fin 4), (clockSystem defaultConfig).Reachable (fun _ _ => True) s ∧
      s.log = [⟨3, 4294967295, 4294967294, 1⟩, ⟨1, 4294967295, 4294967295, 0⟩] := by
  have hrun : ([.start 1, .start 3, .tickIncrease].foldlM sampleStep sampleInit).map
      (fun s => s.log) =
      some [⟨3, 4294967295, 4294967294, 1⟩, ⟨1, 4294967295, 4294967295, 0⟩] := by
    decide +kernel
  obtain ⟨s, hs, hvalue⟩ := map_eq_some_iff.mp hrun
  exact ⟨s, reachable_sampleStep hs, hvalue⟩

end RtThread.Timer.HardTimer
