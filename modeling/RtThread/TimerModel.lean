import RtThread.KernelDefs
import RtThread.SkipList

/-!
# Timers

The functions of `timer.c`.  The timer lists are skip lists; a row is the list of
the timers which are linked into it, so that a timer which is in no row has all its
nodes linked to themselves.  Ticks are 32-bit words.  The timeout functions are not
part of this module: the systems built on it say what they may do.
-/

namespace RtThread.Timer

open Function Word

def rtTickMax : ℕ := 4294967295

structure SkipConfig where
  level : ℕ
  mask : ℕ
  level_pos : 0 < level
  mask_eq : mask = 1 ∨ mask = 3

def defaultConfig : SkipConfig := ⟨1, 3, by decide, by decide⟩

inductive TimerList where
  | hard
  | soft
  deriving DecidableEq

structure RtTimer where
  timeoutTick : ℕ
  initTick : ℕ
  periodic : Bool
  softTimer : Bool
  activated : Bool
  deriving DecidableEq

def RtTimer.list (timer : RtTimer) : TimerList :=
  if timer.softTimer then .soft else .hard

inductive TimerControl where
  | getTime
  | setTime (tick : UInt32)
  | setOneshot
  | setPeriodic
  deriving DecidableEq

structure TimerState (τ : Type) where
  tick : ℕ
  randomNr : ℕ
  timers : τ → RtTimer
  lists : TimerList → ℕ → List τ

section Functions

variable {τ : Type} [DecidableEq τ] (cfg : SkipConfig)

def TimerState.bottom (s : TimerState τ) (k : TimerList) : List τ :=
  s.lists k (cfg.level - 1)

def Linked (s : TimerState τ) (t : τ) : Prop :=
  ∃ k, t ∈ s.bottom cfg k

instance (s : TimerState τ) (t : τ) : Decidable (Linked cfg s t) :=
  decidable_of_iff (t ∈ s.bottom cfg .hard ∨ t ∈ s.bottom cfg .soft)
    ⟨fun h => h.elim (fun h => ⟨_, h⟩) fun h => ⟨_, h⟩,
      fun ⟨k, h⟩ => match k, h with
        | .hard, h => .inl h
        | .soft, h => .inr h⟩

def setTimer (s : TimerState τ) (t : τ) (timer : RtTimer) : TimerState τ :=
  { s with timers := update s.timers t timer }

def setActivated (s : TimerState τ) (t : τ) (activated : Bool) : TimerState τ :=
  setTimer s t { s.timers t with activated := activated }

def rtTimerRemove (s : TimerState τ) (t : τ) : TimerState τ :=
  { s with lists := fun k r => (s.lists k r).erase t }

def stopsAt (timers : τ → RtTimer) (t u : τ) : Bool :=
  let difference := sub32 (timers u).timeoutTick (timers t).timeoutTick
  decide (difference ≠ 0) && decide (difference < rtTickMax / 2)

/-- The loop of `rt_timer_start` which links a timer into the rows above the last
one, as long as the tested bits of `tst_nr` are clear. -/
def insertUpper (t : τ) (rowHead : ℕ → Option τ) : ℕ → ℕ → (ℕ → List τ) → ℕ → List τ
  | 0, _, rows => rows
  | r + 1, tstNr, rows =>
    if tstNr &&& cfg.mask = 0 then
      insertUpper t rowHead r (tstNr >>> ((cfg.mask + 1) >>> 1))
        (update rows r (SkipList.insertAfter t (rowHead r) (rows r)))
    else rows

def insertTimer (timers : τ → RtTimer) (randomNr : ℕ) (t : τ) (rows : ℕ → List τ) : ℕ → List τ :=
  let rowHead := SkipList.cursorAt (stopsAt timers t) rows
  let last := cfg.level - 1
  insertUpper cfg t rowHead last randomNr
    (update rows last (SkipList.insertAfter t (rowHead last) (rows last)))

def rtTimerStart (s : TimerState τ) (t : τ) : Option (TimerState τ) :=
  if (s.timers t).activated then none
  else
    let timer := { s.timers t with timeoutTick := add32 s.tick (s.timers t).initTick }
    let timers := update s.timers t timer
    let randomNr := add32 s.randomNr 1
    some
      { s with
        randomNr := randomNr
        timers := update s.timers t { timer with activated := true }
        lists := update s.lists timer.list
          (insertTimer cfg timers randomNr t (s.lists timer.list)) }

def rtTimerStop (s : TimerState τ) (t : τ) : Option (TimerState τ) :=
  if (s.timers t).activated then some (setActivated (rtTimerRemove s t) t false)
  else none

/-- `rt_timer_control`; the answer to `RT_TIMER_CTRL_GET_TIME` goes to the caller. -/
def rtTimerControl (s : TimerState τ) (t : τ) : TimerControl → TimerState τ
  | .getTime => s
  | .setTime tick => setTimer s t { s.timers t with initTick := tick.toNat }
  | .setOneshot => setTimer s t { s.timers t with periodic := false }
  | .setPeriodic => setTimer s t { s.timers t with periodic := true }

def expired (currentTick : ℕ) (timer : RtTimer) : Bool :=
  decide (sub32 currentTick timer.timeoutTick < rtTickMax / 2)

def expiredHead (s : TimerState τ) (currentTick : ℕ) : Option τ :=
  (s.bottom cfg .hard).head?.filter fun t => expired currentTick (s.timers t)

def afterTimeout (s : TimerState τ) (t : τ) : TimerState τ :=
  if (s.timers t).periodic && (s.timers t).activated then
    let stopped := setActivated s t false
    (rtTimerStart cfg stopped t).getD stopped
  else setActivated s t false

end Functions

variable {τ : Type} [DecidableEq τ] {cfg : SkipConfig} {s : TimerState τ} {t u : τ}
  {k : TimerList}

theorem level_sub_lt (cfg : SkipConfig) : cfg.level - 1 < cfg.level :=
  Nat.sub_lt cfg.level_pos Nat.one_pos

@[simp] theorem setTimer_timers (timer : RtTimer) :
    (setTimer s t timer).timers = update s.timers t timer := rfl

@[simp] theorem setTimer_lists (timer : RtTimer) : (setTimer s t timer).lists = s.lists := rfl

@[simp] theorem setTimer_tick (timer : RtTimer) : (setTimer s t timer).tick = s.tick := rfl

@[simp] theorem setActivated_timers (activated : Bool) : (setActivated s t activated).timers =
      update s.timers t { s.timers t with activated := activated } := rfl

@[simp] theorem setActivated_lists (activated : Bool) :
    (setActivated s t activated).lists = s.lists := rfl

@[simp] theorem setActivated_tick (activated : Bool) :
    (setActivated s t activated).tick = s.tick := rfl

@[simp] theorem linked_setActivated (activated : Bool) :
    Linked cfg (setActivated s t activated) u ↔ Linked cfg s u := Iff.rfl

@[simp] theorem rtTimerRemove_timers : (rtTimerRemove s t).timers = s.timers := rfl

@[simp] theorem rtTimerRemove_tick : (rtTimerRemove s t).tick = s.tick := rfl

@[simp] theorem rtTimerRemove_lists (r : ℕ) :
    (rtTimerRemove s t).lists k r = (s.lists k r).erase t := rfl

theorem exists_height (cfg : SkipConfig) (t : τ) (timers : τ → RtTimer) (randomNr : ℕ)
    (rows : ℕ → List τ) : ∃ height, 0 < height ∧ insertTimer cfg timers randomNr t rows =
      SkipList.insertRows t (SkipList.cursorAt (stopsAt timers t) rows) cfg.level height
        rows := by
  -- the rows from `r` on have the timer already
  have hloop : ∀ rowHead r tstNr (rows' : ℕ → List τ), r < cfg.level →
      (∀ q, rows' q = if r ≤ q ∧ q < cfg.level then
        SkipList.insertAfter t (rowHead q) (rows q) else rows q) →
      ∃ height, 0 < height ∧ insertUpper cfg t rowHead r tstNr rows' =
        SkipList.insertRows t rowHead cfg.level height rows := by
    intro rowHead r
    induction r with
    | zero =>
      intro tstNr rows' hr hrows
      refine ⟨cfg.level, cfg.level_pos, ?_⟩
      funext q
      simp [insertUpper, SkipList.insertRows, hrows]
    | succ r ih =>
      intro tstNr rows' hr hrows
      unfold insertUpper
      split_ifs with htest
      · apply ih _ _ (by lia)
        intro q
        by_cases hq : q = r
        · subst hq
          have hself : rows' q = rows q := by
            rw [hrows, if_neg (by lia)]
          rw [update_self, if_pos ⟨le_refl q, by lia⟩, hself]
        · rw [update_of_ne hq, hrows]
          congr 1
          exact propext ⟨fun h => ⟨by lia, h.2⟩, fun h => ⟨by lia, h.2⟩⟩
      · refine ⟨cfg.level - (r + 1), by lia, ?_⟩
        funext q
        rw [hrows]
        congr 1
        exact propext ⟨fun h => ⟨by lia, h.2⟩, fun h => ⟨by lia, h.2⟩⟩
  apply hloop _ _ _ _ (level_sub_lt cfg)
  intro q
  by_cases hq : q = cfg.level - 1
  · subst hq
    rw [update_self, if_pos ⟨le_refl _, level_sub_lt cfg⟩]
  · rw [update_of_ne hq, if_neg (by lia)]

end RtThread.Timer
