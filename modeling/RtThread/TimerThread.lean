import RtThread.SoftTimerScan

/-!
# The timer thread

The timer thread reads the first timeout of the soft timer list, sleeps until then,
or without a time limit if it reads `RT_TICK_MAX`, and scans the list.  A call of
`rt_timer_start` links its timer with interrupts disabled and wakes up the thread
afterwards, in the sections of `rt_thread_resume`.
-/

namespace RtThread.Timer.TimerThread

open Option Word

variable {τ : Type} [DecidableEq τ] {cfg : SkipConfig} {t : τ}

/-- Where the loop of `rt_thread_timer_entry` is: in front of the read of the next
timeout; behind it; in front of `rt_thread_delay`; behind `rt_schedule` with the
thread switched off; and in the scan. -/
inductive Point (τ : Type) where
  | loop
  | read (nextTimeout : ℕ)
  | delay (ticks : ℕ)
  | switched
  | scan (phase : ScanPhase τ)

/-- The timers, `timer_thread.stat`, the activation of its own thread timer, and the
calls of `rt_timer_start` in progress: those which have linked their timer and not
tested `timer_thread.stat` yet, and those in front of the test, the first section and
the second section of `rt_thread_resume`. -/
structure ThreadState (τ : Type) where
  core : TimerState τ
  point : Point τ
  stat : ThreadStat
  armed : Bool
  waking : ℕ
  resuming : ℕ
  unlinking : ℕ
  inserting : ℕ

/-- `rt_timer_list_next_timeout(rt_soft_timer_list)`. -/
def nextTimeout (cfg : SkipConfig) (s : TimerState τ) : ℕ :=
  match s.bottom cfg .soft with
  | [] => rtTickMax
  | t :: _ => (s.timers t).timeoutTick

/-- The steps of the timer thread are `readNext`, `suspendSelf`, `readTick`, `sleep`,
`switchOn` and `scan`; `link`, `wakeTest`, `resumeTest`, `resumeUnlink` and
`resumeInsert` are the sections of a call of `rt_timer_start`; `threadTimeout` is the
timeout of the thread timer. -/
inductive Action (τ : Type) where
  | readNext
  | suspendSelf
  | readTick
  | sleep
  | switchOn
  | scan
  | link (t : τ)
  | wakeTest
  | resumeTest
  | resumeUnlink
  | resumeInsert
  | stop (t : τ)
  | control (t : τ) (command : TimerControl)
  | tick
  | threadTimeout

def Action.Enabled (s : ThreadState τ) : Action τ → Prop
  | .readNext => s.point = .loop
  | .suspendSelf => s.point = .read rtTickMax
  | .readTick => ∃ next, s.point = .read next ∧ next ≠ rtTickMax
  | .sleep => ∃ ticks, s.point = .delay ticks
  | .switchOn => s.point = .switched ∧ s.stat = .ready
  | .scan => ∃ phase, s.point = .scan phase
  | .link t => (s.core.timers t).activated = false ∧ (s.core.timers t).softTimer = true
  | .wakeTest => 0 < s.waking
  | .resumeTest => 0 < s.resuming
  | .resumeUnlink => 0 < s.unlinking
  | .resumeInsert => 0 < s.inserting
  | .stop _ => True
  | .control _ _ => True
  | .tick => True
  | .threadTimeout => s.armed = true

def execute (cfg : SkipConfig) (s : ThreadState τ) : Action τ → ThreadState τ
  | .readNext => { s with point := .read (nextTimeout cfg s.core) }
  | .suspendSelf =>
    -- `rt_thread_suspend` and `rt_schedule`
    { s with point := .switched, stat := .suspend }
  | .readTick =>
    match s.point with
    | .read next =>
      if sub32 next s.core.tick < rtTickMax / 2 then
        { s with point := .delay (sub32 next s.core.tick) }
      else { s with point := .scan (scanBegin cfg s.core) }
    | _ => s
  | .sleep =>
    -- `rt_thread_sleep` suspends the thread and starts its timer in one section
    { s with point := .switched, stat := .suspend, armed := true }
  | .switchOn => { s with point := .scan (scanBegin cfg s.core) }
  | .scan =>
    match s.point with
    | .scan .idle => { s with point := .loop }
    | .scan phase =>
      { s with
        core := (scanStep cfg s.core phase).1
        point := .scan (scanStep cfg s.core phase).2 }
    | _ => s
  | .link t =>
    { s with core := (rtTimerStart cfg s.core t).getD s.core, waking := s.waking + 1 }
  | .wakeTest =>
    if s.stat = .ready then { s with waking := s.waking - 1 }
    else { s with waking := s.waking - 1, resuming := s.resuming + 1 }
  | .resumeTest =>
    if s.stat = .suspend then
      { s with resuming := s.resuming - 1, unlinking := s.unlinking + 1 }
    else { s with resuming := s.resuming - 1 }
  | .resumeUnlink =>
    { s with unlinking := s.unlinking - 1, inserting := s.inserting + 1, armed := false }
  | .resumeInsert => { s with inserting := s.inserting - 1, stat := .ready }
  | .stop t => { s with core := (rtTimerStop s.core t).getD s.core }
  | .control t command => { s with core := rtTimerControl s.core t command }
  | .tick => { s with core := { s.core with tick := add32 s.core.tick 1 } }
  | .threadTimeout => { s with armed := false, stat := .ready }

def threadSystem (cfg : SkipConfig) : TransitionSystem (ThreadState τ) (Action τ) where
  init s := s.point = .loop ∧ s.stat = .ready ∧ s.armed = false ∧ s.waking = 0 ∧ s.resuming = 0 ∧
      s.unlinking = 0 ∧ s.inserting = 0 ∧ ∀ r, s.core.lists .soft r = []
  step s action s' := action.Enabled s ∧ s' = execute cfg s action

def ThreadState.Quiet (s : ThreadState τ) : Prop :=
  s.waking = 0 ∧ s.resuming = 0 ∧ s.unlinking = 0 ∧ s.inserting = 0

/-- The timer thread sleeps without a timeout while timers are pending. -/
def Overslept (cfg : SkipConfig) (s : ThreadState τ) : Prop :=
  s.stat = .suspend ∧ s.armed = false ∧ s.core.bottom cfg .soft ≠ [] ∧ s.Quiet

/-- The first soft timer does not time out at `RT_TICK_MAX` when the thread reads it, and
no soft timer is started between a read of `RT_TICK_MAX` and the suspension. -/
def NoMissedStart (cfg : SkipConfig) (s : ThreadState τ) : Action τ → Prop
  | .readNext => ∀ t ∈ (s.core.bottom cfg .soft).head?, (s.core.timers t).timeoutTick ≠ rtTickMax
  | .link _ => s.point ≠ .read rtTickMax
  | _ => True

/-- A suspended thread without its timer has no soft timer to wait for, or somebody is
about to resume it. -/
structure WakeInv (cfg : SkipConfig) (s : ThreadState τ) : Prop where
  running : s.point ≠ .switched → s.stat = .ready
  empty : s.point = .read rtTickMax → s.core.bottom cfg .soft = []
  wake : s.stat = .suspend → s.armed = false → s.core.bottom cfg .soft ≠ [] →
    0 < s.waking + s.resuming + s.unlinking + s.inserting

namespace WakeInv

variable {s s' : ThreadState τ}

omit [DecidableEq τ] in
theorem not_overslept (hinv : WakeInv cfg s) : ¬Overslept cfg s := by
  rintro ⟨hstat, harmed, hpending, hwaking, hresuming, hunlinking, hinserting⟩
  have hpos := hinv.wake hstat harmed hpending
  omega

omit [DecidableEq τ] in
theorem of_ready (hrunning : s'.stat = .ready)
    (hempty : s'.point = .read rtTickMax → s'.core.bottom cfg .soft = []) : WakeInv cfg s' := by
  refine ⟨fun _ => hrunning, hempty, ?_⟩
  intro hstat
  rw [hrunning] at hstat
  cases hstat

omit [DecidableEq τ] in
theorem of_kept (hinv : WakeInv cfg s) (hpoint : s'.point = s.point) (hstat : s'.stat = s.stat)
    (hbottom : s.core.bottom cfg .soft = [] → s'.core.bottom cfg .soft = [])
    (hwake : s.armed = s'.armed ∧ s.waking + s.resuming + s.unlinking + s.inserting ≤
        s'.waking + s'.resuming + s'.unlinking + s'.inserting) : WakeInv cfg s' := by
  constructor
  · rw [hpoint, hstat]
    exact hinv.running
  · intro hread
    exact hbottom (hinv.empty (hpoint ▸ hread))
  · intro hsuspend harmed hpending
    have hold := hinv.wake (hstat ▸ hsuspend) (hwake.1.trans harmed)
      (fun hnil => hpending (hbottom hnil))
    omega

section

variable (hinv : WakeInv cfg s)
include hinv

theorem readNext (hpoint : s.point = .loop)
    (hguard : NoMissedStart cfg s .readNext) : WakeInv cfg (execute cfg s .readNext) := by
  apply of_ready
  · exact hinv.running (by simp [hpoint])
  · intro hread
    cases hbottom : s.core.bottom cfg .soft with
    | nil => exact hbottom
    | cons t rest =>
      have hne := hguard t (by simp [hbottom])
      simp [execute, nextTimeout, hbottom, hne] at hread

theorem scan {phase : ScanPhase τ} (hpoint : s.point = .scan phase) :
    WakeInv cfg (execute cfg s .scan) := by
  have hready := hinv.running (by simp [hpoint])
  cases phase with
  | idle | node n currentTick | calling t n =>
    apply of_ready
    · simpa [execute, hpoint] using hready
    · simp [execute, hpoint]

theorem readTick {next : ℕ} (hpoint : s.point = .read next) :
    WakeInv cfg (execute cfg s .readTick) := by
  have hready := hinv.running (by simp [hpoint])
  by_cases hnear : sub32 next s.core.tick < rtTickMax / 2
  · apply of_ready
    · simpa [execute, hpoint, hnear] using hready
    · simp [execute, hpoint, hnear]
  · apply of_ready
    · simpa [execute, hpoint, hnear] using hready
    · simp [execute, hpoint, hnear]

theorem link (hguard : s.point ≠ .read rtTickMax) : WakeInv cfg (execute cfg s (.link t)) := by
  refine ⟨hinv.running, ?_, ?_⟩
  · intro hread
    contradiction
  · intro _ _ _
    change 0 < s.waking + 1 + s.resuming + s.unlinking + s.inserting
    omega

theorem wakeTest (hwaking : 0 < s.waking) : WakeInv cfg (execute cfg s .wakeTest) := by
  by_cases hready : s.stat = .ready
  · apply of_ready
    · simp [execute, hready]
    · simpa [execute, hready] using hinv.empty
  · apply hinv.of_kept
    · simp [execute, hready]
    · simp [execute, hready]
    · simp [execute, hready]
    · simp only [execute, hready, if_false]
      exact ⟨trivial, by omega⟩

theorem resumeTest (hresuming : 0 < s.resuming) : WakeInv cfg (execute cfg s .resumeTest) := by
  cases hstat : s.stat with
  | ready =>
    apply of_ready
    · simp [execute, hstat]
    · simpa [execute, hstat] using hinv.empty
  | suspend =>
    apply hinv.of_kept
    · simp [execute, hstat]
    · simp [execute, hstat]
    · simp [execute, hstat]
    · simp only [execute, hstat, if_true]
      exact ⟨trivial, by omega⟩

theorem execute {action : Action τ} (henabled : action.Enabled s)
    (hguard : NoMissedStart cfg s action) : WakeInv cfg (execute cfg s action) := by
  cases action with
  | readNext => exact hinv.readNext henabled hguard
  | suspendSelf =>
    have hnone := hinv.empty henabled
    refine ⟨fun hswitched => absurd rfl hswitched, fun _ => hnone, ?_⟩
    intro _ _ hpending
    contradiction
  | readTick =>
    rcases henabled with ⟨next, hpoint, -⟩
    exact hinv.readTick hpoint
  | sleep =>
    refine ⟨fun hswitched => absurd rfl hswitched, ?_, ?_⟩
    · intro hread
      exact absurd hread (by simp [TimerThread.execute])
    · intro _ harmed
      exact absurd harmed (by simp [TimerThread.execute])
  | switchOn =>
    apply of_ready
    · exact henabled.2
    · simp [TimerThread.execute]
  | scan =>
    rcases henabled with ⟨phase, hpoint⟩
    exact hinv.scan hpoint
  | link t => exact hinv.link hguard
  | wakeTest => exact hinv.wakeTest henabled
  | resumeTest => exact hinv.resumeTest henabled
  | resumeUnlink =>
    refine ⟨hinv.running, hinv.empty, ?_⟩
    intro _ _ _
    change 0 < s.waking + s.resuming + (s.unlinking - 1) + (s.inserting + 1)
    omega
  | resumeInsert =>
    apply of_ready
    · rfl
    · exact hinv.empty
  | stop t =>
    apply hinv.of_kept
    · rfl
    · rfl
    · intro hnil
      cases hactive : (s.core.timers t).activated with
      | false => simpa [TimerThread.execute, rtTimerStop, hactive] using hnil
      | true =>
        have herase : (TimerThread.execute cfg s (.stop t)).core.bottom cfg .soft =
            (s.core.bottom cfg .soft).erase t := by
          simp [TimerThread.execute, rtTimerStop, hactive, TimerState.bottom]
        rw [herase, hnil]
        rfl
    · exact ⟨rfl, le_rfl⟩
  | control t command =>
    apply hinv.of_kept
    · rfl
    · rfl
    · intro hnil
      cases command <;> exact hnil
    · exact ⟨rfl, le_rfl⟩
  | tick =>
    apply hinv.of_kept
    · rfl
    · rfl
    · exact id
    · exact ⟨rfl, le_rfl⟩
  | threadTimeout =>
    apply of_ready
    · rfl
    · exact hinv.empty

end

end WakeInv

/-- In every run in which the thread does not read the tick `RT_TICK_MAX` from a timer and
no soft timer is started while the thread is about to suspend itself, the thread
does not sleep past a pending soft timer. -/
theorem not_overslept_of_noMissedStart (cfg : SkipConfig) (s : ThreadState τ)
    (hreach : (threadSystem cfg).Reachable (NoMissedStart cfg) s) : ¬Overslept cfg s := by
  have hinv : WakeInv cfg s := by
    apply hreach.invariant
    · intro s hinit
      rcases hinit with ⟨-, hstat, -, -, -, -, -, hlists⟩
      exact WakeInv.of_ready hstat (fun _ => hlists _)
    · rintro s action s' hinv hguard ⟨henabled, rfl⟩
      exact hinv.execute henabled hguard
  exact hinv.not_overslept

def enabledTest (s : ThreadState Unit) : Action Unit → Bool
  | .readNext => match s.point with
      | .loop => true
      | _ => false
  | .suspendSelf => match s.point with
      | .read next => decide (next = rtTickMax)
      | _ => false
  | .readTick => match s.point with
      | .read next => decide (next ≠ rtTickMax)
      | _ => false
  | .sleep => match s.point with
      | .delay _ => true
      | _ => false
  | .link t => !(s.core.timers t).activated && (s.core.timers t).softTimer
  | .wakeTest => decide (0 < s.waking)
  | .resumeTest => decide (0 < s.resuming)
  | .resumeUnlink => decide (0 < s.unlinking)
  | .resumeInsert => decide (0 < s.inserting)
  | .threadTimeout => s.armed
  | _ => false

theorem enabled_of_enabledTest {s : ThreadState Unit} {action : Action Unit}
    (htest : enabledTest s action = true) : action.Enabled s := by
  cases action with
  | readNext =>
    cases hpoint : s.point with
    | loop => exact hpoint
    | _ => simp [enabledTest, hpoint] at htest
  | suspendSelf =>
    cases hpoint : s.point with
    | read next =>
      simp only [enabledTest, hpoint, decide_eq_true_eq] at htest
      rw [htest] at hpoint
      exact hpoint
    | _ => simp [enabledTest, hpoint] at htest
  | readTick =>
    cases hpoint : s.point with
    | read next =>
      simp only [enabledTest, hpoint, decide_eq_true_eq] at htest
      exact ⟨next, hpoint, htest⟩
    | _ => simp [enabledTest, hpoint] at htest
  | sleep =>
    cases hpoint : s.point with
    | delay ticks => exact ⟨ticks, hpoint⟩
    | _ => simp [enabledTest, hpoint] at htest
  | link t | wakeTest | resumeTest | resumeUnlink | resumeInsert | threadTimeout =>
    simpa [enabledTest, Action.Enabled] using htest
  | switchOn | scan | stop t | control t command | tick => cases htest

def sampleInit (tick : ℕ) : ThreadState Unit where
  core := ⟨tick, 0, fun _ => ⟨0, 5, false, true, false⟩, fun _ _ => []⟩
  point := .loop
  stat := .ready
  armed := false
  waking := 0
  resuming := 0
  unlinking := 0
  inserting := 0

def sampleRun (test : ThreadState Unit → Action Unit → Bool) (tick : ℕ)
    (actions : List (Action Unit)) : Option (ThreadState Unit) :=
  actions.foldlM
    (fun s action =>
      if enabledTest s action && test s action then some (execute defaultConfig s action)
      else none)
    (sampleInit tick)

theorem reachable_sampleRun {guard : ThreadState Unit → Action Unit → Prop}
    {test : ThreadState Unit → Action Unit → Bool}
    {tick : ℕ} {actions : List (Action Unit)} {s : ThreadState Unit}
    (hsound : ∀ s action, test s action = true → guard s action)
    (hrun : sampleRun test tick actions = some s) :
    (threadSystem defaultConfig).Reachable guard s := by
  have hstart : (threadSystem defaultConfig).init (sampleInit tick) :=
    ⟨rfl, rfl, rfl, rfl, rfl, rfl, rfl, fun _ => rfl⟩
  apply TransitionSystem.Reachable.foldlM _ (.start hstart) hrun
  intro s action s' hstep
  split_ifs at hstep with htest
  rw [Bool.and_eq_true] at htest
  rw [some.injEq] at hstep
  exact ⟨hsound s action htest.2, enabled_of_enabledTest htest.1, hstep.symm⟩

def missesNoStart (s : ThreadState Unit) : Action Unit → Bool
  | .readNext => (s.core.bottom defaultConfig .soft).head?.all fun t =>
    decide ((s.core.timers t).timeoutTick ≠ rtTickMax)
  | .link _ => match s.point with
      | .read next => decide (next ≠ rtTickMax)
      | _ => true
  | _ => true

theorem noMissedStart_of_missesNoStart (s : ThreadState Unit) (action : Action Unit)
    (htest : missesNoStart s action = true) : NoMissedStart defaultConfig s action := by
  cases action with
  | readNext =>
    intro t ht
    rw [missesNoStart, mem_def.mp ht] at htest
    simpa using htest
  | link t =>
    intro hpoint
    simp [missesNoStart, hpoint] at htest
  | _ => trivial

theorem not_overslept_in_sample : ∃ s : ThreadState Unit,
      (threadSystem defaultConfig).Reachable (NoMissedStart defaultConfig) s ∧
        s.core.bottom defaultConfig .soft = [()] ∧ s.Quiet ∧ ¬Overslept defaultConfig s := by
  have hrun : (sampleRun missesNoStart 4294967290
      [.readNext, .suspendSelf, .link (), .wakeTest, .resumeTest, .resumeUnlink, .resumeInsert]).map
      (fun s => (s.core.bottom defaultConfig .soft, s.waking, s.resuming, s.unlinking,
        s.inserting)) = some ([()], 0, 0, 0, 0) := by decide
  rcases map_eq_some_iff.mp hrun with ⟨s, hs, hvalues⟩
  simp only [Prod.mk.injEq] at hvalues
  have hreach := reachable_sampleRun noMissedStart_of_missesNoStart hs
  exact ⟨s, hreach, hvalues.1, hvalues.2, not_overslept_of_noMissedStart _ s hreach⟩

instance (s : ThreadState Unit) : Decidable (Overslept defaultConfig s) :=
  inferInstanceAs (Decidable (s.stat = .suspend ∧ s.armed = false ∧
    s.core.bottom defaultConfig .soft ≠ [] ∧
      s.waking = 0 ∧ s.resuming = 0 ∧ s.unlinking = 0 ∧ s.inserting = 0))

/-- A timer which times out at `RT_TICK_MAX` is taken for an empty list; a timer which is
started between the read and the suspension wakes up nobody. -/
theorem timer_thread_oversleeps :
    (∃ s : ThreadState Unit, (threadSystem defaultConfig).Reachable (fun _ _ => True) s ∧
      (s.core.timers ()).timeoutTick = rtTickMax ∧ Overslept defaultConfig s) ∧
    ∃ s : ThreadState Unit, (threadSystem defaultConfig).Reachable (fun _ _ => True) s ∧
      (s.core.timers ()).timeoutTick = 5 ∧ Overslept defaultConfig s := by
  have hcorner : (sampleRun (fun _ _ => true) 4294967290
      [.link (), .wakeTest, .readNext, .suspendSelf]).map
      (fun s => ((s.core.timers ()).timeoutTick, decide (Overslept defaultConfig s))) =
      some (rtTickMax, true) := by decide +kernel
  have hwindow : (sampleRun (fun _ _ => true) 0 [.readNext, .link (), .wakeTest, .suspendSelf]).map
      (fun s => ((s.core.timers ()).timeoutTick, decide (Overslept defaultConfig s))) =
      some (5, true) := by decide +kernel
  constructor
  · rcases map_eq_some_iff.mp hcorner with ⟨s, hs, hvalues⟩
    rw [Prod.mk.injEq, decide_eq_true_eq] at hvalues
    exact ⟨s, reachable_sampleRun (fun _ _ _ => trivial) hs, hvalues.1, hvalues.2⟩
  · rcases map_eq_some_iff.mp hwindow with ⟨s, hs, hvalues⟩
    rw [Prod.mk.injEq, decide_eq_true_eq] at hvalues
    exact ⟨s, reachable_sampleRun (fun _ _ _ => trivial) hs, hvalues.1, hvalues.2⟩

end RtThread.Timer.TimerThread
