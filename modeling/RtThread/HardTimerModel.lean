import RtThread.TimerRows

/-!
# The check of the hard timers

`rt_tick_increase` increments the tick and calls `rt_timer_check`, which calls the timeout
function of the first timer of the list as long as that timer has expired.  The timeout
functions touch neither the timers nor the tick.  Ticks have 32 bits; the history counts
them without wrap-around.
-/

namespace RtThread.Timer.HardTimer

open Function Word

/-- A call of a timeout function: the timer, the tick of the call, the timeout of the timer
and the number of its start or restart. -/
structure Call (τ : Type) where
  timer : τ
  tick : ℕ
  timeout : ℕ
  start : ℕ
  deriving DecidableEq

/-- The timers and the history: the tick, when a timer was started unless it has been
stopped since, the number of its last start or restart, the number of all of them, the
calls of timeout functions, and how many there were when a timer was started or stopped
last. -/
structure ClockState (τ : Type) where
  core : TimerState τ
  now : ℕ
  startedAt : τ → Option ℕ
  order : τ → ℕ
  starts : ℕ
  log : List (Call τ)
  mark : τ → ℕ

variable {τ : Type} [DecidableEq τ] (cfg : SkipConfig)

def ClockState.called (s : ClockState τ) (t : τ) : List ℕ :=
  ((s.log.drop (s.mark t)).filter fun call => call.timer = t).map Call.tick

def ClockState.timeout (s : ClockState τ) (t : τ) : ℕ :=
  (s.startedAt t).getD 0 + ((s.called t).length + 1) * (s.core.timers t).initTick

def start (s : ClockState τ) (t : τ) : ClockState τ :=
  match rtTimerStart cfg s.core t with
  | none => s
  | some core =>
    { s with
      core := core
      startedAt := update s.startedAt t (some s.now)
      order := update s.order t s.starts
      starts := s.starts + 1
      mark := update s.mark t s.log.length }

def stop (s : ClockState τ) (t : τ) : ClockState τ :=
  match rtTimerStop s.core t with
  | none => s
  | some core =>
    { s with
      core := core
      startedAt := update s.startedAt t none
      mark := update s.mark t s.log.length }

def callTimeout (s : ClockState τ) (t : τ) : ClockState τ :=
  { s with
    core := afterTimeout cfg (rtTimerRemove s.core t) t
    order := update s.order t s.starts
    starts := s.starts + 1
    log := s.log ++ [⟨t, s.now, s.timeout t, s.order t⟩] }

/-- `rt_timer_check`; `none` when its loop does not end within the given number of rounds. -/
def rtTimerCheck : ℕ → ℕ → ClockState τ → Option (ClockState τ)
  | 0, _, _ => none
  | fuel + 1, currentTick, s =>
    match expiredHead cfg s.core currentTick with
    | none => some s
    | some t => rtTimerCheck fuel (callTimeout cfg s t).core.tick (callTimeout cfg s t)

def incrementTick (s : ClockState τ) : ClockState τ :=
  { s with
    core := { s.core with tick := add32 s.core.tick 1 }
    now := s.now + 1 }

def rtTickIncrease (fuel : ℕ) (s : ClockState τ) : Option (ClockState τ) :=
  rtTimerCheck cfg fuel (incrementTick s).core.tick (incrementTick s)

inductive Action (τ : Type) where
  | start (t : τ)
  | stop (t : τ)
  | tickIncrease

def ProperTicks (s : ClockState τ) : Prop :=
  ∀ t, (s.core.timers t).initTick < rtTickMax / 2 ∧
    ((s.core.timers t).periodic = true → 0 < (s.core.timers t).initTick)

def clockSystem : TransitionSystem (ClockState τ) (Action τ) where
  init s := (∀ k r, s.core.lists k r = []) ∧ (∀ t, (s.core.timers t).activated = false) ∧
    ProperTicks s ∧ s.core.tick = s.now ∧ s.now < 4294967296 ∧
    (∀ t, s.startedAt t = none ∧ s.mark t = 0) ∧ s.log = []
  step s action s' := match action with
    | .start t => s' = start cfg s t
    | .stop t => s' = stop s t
    | .tickIncrease => ∃ fuel, rtTickIncrease cfg fuel s = some s'

end RtThread.Timer.HardTimer
