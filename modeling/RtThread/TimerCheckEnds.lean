import RtThread.HardTimerRounds

/-!
# When the check of the hard timers ends

Here the timeout functions may stop, detach and change any timer.  A round of `rt_timer_check`
takes the first timer out of the list, calls its timeout function, and puts the timer back when
it is still activated and periodic.  Put back with a delay it lies ahead of the tick, so every
such round leaves one expired timer less.  With delay zero it has expired again at once.
-/

namespace RtThread.Timer.Callbacks

open Function List Word

/-- What a timeout function calls; `rt_timer_delete` unlinks as `rt_timer_detach` does. -/
inductive TimerCall (τ : Type) where
  | stop (t : τ)
  | detach (t : τ)
  | control (t : τ) (command : TimerControl)

/-- The timeout functions of all timers: from what they remember, the timers and the timer which
is called, they make their calls and remember something else. -/
abbrev TimeoutFunc (σ τ : Type) := σ → TimerState τ → τ → List (TimerCall τ) × σ

section Functions

variable {σ τ : Type} [DecidableEq τ] (cfg : SkipConfig) (f : TimeoutFunc σ τ)

def TimerCall.timer : TimerCall τ → τ
  | .stop t => t
  | .detach t => t
  | .control t _ => t

def TimerCall.run (c : TimerState τ) : TimerCall τ → TimerState τ
  | .stop t => (rtTimerStop c t).getD c
  | .detach t => rtTimerRemove c t
  | .control t command => rtTimerControl c t command

/-- The timer is unlinked and its timeout function called. -/
def callTimeout (x : σ × TimerState τ) (t : τ) : σ × TimerState τ :=
  let c := rtTimerRemove x.2 t
  ((f x.1 c t).2, (f x.1 c t).1.foldl TimerCall.run c)

def finishRound (x : σ × TimerState τ) (t : τ) : σ × TimerState τ :=
  (x.1, afterTimeout cfg x.2 t)

/-- `rt_timer_check`; `none` when its loop does not end within the given number of rounds. -/
def rtTimerCheck : ℕ → ℕ → σ × TimerState τ → Option (σ × TimerState τ)
  | 0, _, _ => none
  | fuel + 1, currentTick, x =>
    match expiredHead cfg x.2 currentTick with
    | none => some x
    | some t => rtTimerCheck fuel (callTimeout f x t).2.tick (finishRound cfg (callTimeout f x t) t)

def incrementTick (x : σ × TimerState τ) : σ × TimerState τ :=
  (x.1, { x.2 with tick := add32 x.2.tick 1 })

def rtTickIncrease (fuel : ℕ) (x : σ × TimerState τ) : Option (σ × TimerState τ) :=
  rtTimerCheck cfg f fuel (incrementTick x).2.tick (incrementTick x)

/-- One round of the loop, which changes nothing once the loop has ended. -/
def round (x : σ × TimerState τ) : σ × TimerState τ :=
  match expiredHead cfg x.2 x.2.tick with
  | none => x
  | some t => finishRound cfg (callTimeout f x t) t

def CheckEnds (x : σ × TimerState τ) : Prop := ∃ fuel y, rtTimerCheck cfg f fuel x.2.tick x = some y

/-- The timeout function of this round leaves its timer to be put back with no delay, or with one
that `rt_timer_start` refuses. -/
def PutBackAtOnce (x : σ × TimerState τ) : Prop :=
  ∃ t, expiredHead cfg x.2 x.2.tick = some t ∧
    ((callTimeout f x t).2.timers t).periodic = true ∧
    ((callTimeout f x t).2.timers t).activated = true ∧
    ¬(0 < ((callTimeout f x t).2.timers t).initTick ∧
      ((callTimeout f x t).2.timers t).initTick < rtTickMax / 2)

end Functions

variable {σ τ : Type} [DecidableEq τ] {cfg : SkipConfig} {f : TimeoutFunc σ τ}
  {x y : σ × TimerState τ} {c c' : TimerState τ} {t u : τ} {base e : ℕ}

/-- Timeout functions that call nothing. -/
def idle (τ : Type) : TimeoutFunc Unit τ := fun m _ _ => ([], m)

/-- With idle timeout functions this is the check of the timers with their history. -/
theorem rtTimerCheck_core (fuel currentTick : ℕ) (s : HardTimer.ClockState τ) :
    (HardTimer.rtTimerCheck cfg fuel currentTick s).map HardTimer.ClockState.core =
      (rtTimerCheck cfg (idle τ) fuel currentTick ((), s.core)).map Prod.snd := by
  induction fuel generalizing currentTick s with
  | zero => rfl
  | succ fuel ih =>
    rw [HardTimer.rtTimerCheck, rtTimerCheck]
    dsimp only
    cases expiredHead cfg s.core currentTick with
    | none => rfl
    | some t =>
      have htick : (HardTimer.callTimeout cfg s t).core.tick = s.core.tick := afterTimeout_tick
      dsimp only
      rw [ih, htick]
      rfl

def isDue (c : TimerState τ) (t : τ) : Bool := expired c.tick (c.timers t)

/-- What the calls of a timeout function leave as it was. -/
structure CallsKeep (cfg : SkipConfig) (c c' : TimerState τ) : Prop where
  rows : RowsInv cfg c'
  tick : c'.tick = c.tick
  sub : ∀ k, (c'.bottom cfg k).Sublist (c.bottom cfg k)
  timers : ∀ u, (c'.timers u).timeoutTick = (c.timers u).timeoutTick ∧
    (c'.timers u).list = (c.timers u).list

/-- The calls only take timers off the rows. -/
theorem callsKeep_run (hrows : RowsInv cfg c) (call : TimerCall τ) :
    CallsKeep cfg c (call.run c) := by
  cases call with
  | stop t =>
    change CallsKeep cfg c ((rtTimerStop c t).getD c)
    cases hstop : rtTimerStop c t with
    | none => exact ⟨hrows, rfl, fun k => .refl _, fun u => ⟨rfl, rfl⟩⟩
    | some c' =>
      have hrows' := hrows.rtTimerStop hstop
      unfold rtTimerStop at hstop
      split_ifs at hstop
      cases hstop
      refine ⟨hrows', rfl, fun k => erase_sublist, fun u => ?_⟩
      by_cases hut : u = t
      · simp [hut, RtTimer.list]
      · simp [hut]
  | detach t =>
    exact ⟨hrows.rtTimerRemove t, rfl, fun k => erase_sublist, fun u => ⟨rfl, rfl⟩⟩
  | control t command =>
    refine ⟨hrows.rtTimerControl t command, ?_, fun k => ?_, fun u => ?_⟩
    · cases command <;> rfl
    · cases command <;> exact .refl _
    · by_cases hut : u = t
      · cases command <;> simp [TimerCall.run, rtTimerControl, RtTimer.list, hut]
      · cases command <;> simp [TimerCall.run, rtTimerControl, hut]

theorem callsKeep_foldl (hrows : RowsInv cfg c) (calls : List (TimerCall τ)) :
    CallsKeep cfg c (calls.foldl TimerCall.run c) := by
  induction calls generalizing c with
  | nil => exact ⟨hrows, rfl, fun k => .refl _, fun u => ⟨rfl, rfl⟩⟩
  | cons call calls ih =>
    have hfirst := callsKeep_run hrows call
    have hrest := ih hfirst.rows
    exact ⟨hrest.rows, hrest.tick.trans hfirst.tick, fun k => (hrest.sub k).trans (hfirst.sub k),
      fun u => ⟨(hrest.timers u).1.trans (hfirst.timers u).1,
        (hrest.timers u).2.trans (hfirst.timers u).2⟩⟩

theorem callsKeep_callTimeout (hrows : RowsInv cfg x.2) (t : τ) :
    CallsKeep cfg (rtTimerRemove x.2 t) (callTimeout f x t).2 :=
  callsKeep_foldl (hrows.rtTimerRemove t) _

theorem not_linked_callTimeout (hrows : RowsInv cfg x.2) (t : τ) :
    ¬Linked cfg (callTimeout f x t).2 t := fun ⟨k, hk⟩ =>
  hrows.not_mem_rtTimerRemove t k (((callsKeep_callTimeout hrows t).sub k).subset hk)

theorem mem_of_mem_afterTimeout (hrows : RowsInv cfg c) (hfree : ¬Linked cfg c t) (hut : u ≠ t)
    {k : TimerList} (hu : u ∈ (afterTimeout cfg c t).bottom cfg k) : u ∈ c.bottom cfg k := by
  rcases afterTimeout_cases cfg c t with ⟨-, -, hstart⟩ | ⟨-, hstopped⟩
  · have hstopped : RowsInv cfg (setActivated c t false) := hrows.setActivated false hfree
    rcases (hstopped.mem_rtTimerStart hstart).mp hu with ⟨heq, -⟩ | hmem
    · contradiction
    · exact hmem
  · rw [hstopped] at hu
    exact hu

theorem round_of_none (hhead : expiredHead cfg x.2 x.2.tick = none) : round cfg f x = x := by
  rw [round, hhead]

theorem round_of_head (hhead : expiredHead cfg x.2 x.2.tick = some t) :
    (round cfg f x).2 = afterTimeout cfg (callTimeout f x t).2 t := by
  rw [round, hhead]
  rfl

omit [DecidableEq τ] in
theorem due_of_head (hhead : expiredHead cfg c c.tick = some t) :
    t ∈ c.bottom cfg .hard ∧ isDue c t = true := by
  obtain ⟨rest, hbottom, hexpired⟩ := HardTimer.exists_of_expiredHead hhead
  exact ⟨hbottom ▸ mem_cons_self, hexpired⟩

theorem rowsInv_round (hrows : RowsInv cfg x.2) : RowsInv cfg (round cfg f x).2 := by
  cases hhead : expiredHead cfg x.2 x.2.tick with
  | none => rwa [round_of_none hhead]
  | some t =>
    rw [round_of_head hhead]
    exact ((callsKeep_callTimeout hrows t).rows.afterTimeout (not_linked_callTimeout hrows t)).1

theorem tick_round (hrows : RowsInv cfg x.2) : (round cfg f x).2.tick = x.2.tick := by
  cases hhead : expiredHead cfg x.2 x.2.tick with
  | none => rw [round_of_none hhead]
  | some t =>
    rw [round_of_head hhead, afterTimeout_tick]
    exact (callsKeep_callTimeout hrows t).tick

theorem not_expired_restarted {tick : ℕ} {timer : RtTimer}
    (hpos : timer.initTick ≠ 0) (hshort : timer.initTick < rtTickMax / 2)
    (htimeout : timer.timeoutTick = add32 tick timer.initTick) : expired tick timer = false := by
  unfold expired
  rw [decide_eq_false_iff_not, htimeout]
  unfold sub32 add32 rtTickMax at *
  omega

def expiredCount (cfg : SkipConfig) (c : TimerState τ) : ℕ :=
  (c.bottom cfg .hard).countP (isDue c)

/-- The timer that is put back with a delay has not expired. -/
theorem expiredCount_afterTimeout (hrows : RowsInv cfg c) (hfree : ¬Linked cfg c t)
    (hlater : (c.timers t).periodic = true → (c.timers t).activated = true →
      0 < (c.timers t).initTick ∧ (c.timers t).initTick < rtTickMax / 2) :
    expiredCount cfg (afterTimeout cfg c t) ≤ expiredCount cfg c := by
  have hothers : ∀ u ∈ c.bottom cfg .hard, isDue (afterTimeout cfg c t) u = isDue c u := by
    intro u hu
    have hut : u ≠ t := fun heq => hfree ⟨.hard, heq ▸ hu⟩
    rw [isDue, afterTimeout_tick, (hrows.afterTimeout hfree).2.2.1 u hut]
    rfl
  have hcount : (c.bottom cfg .hard).countP (isDue (afterTimeout cfg c t)) = expiredCount cfg c :=
    countP_congr fun u hu => by rw [hothers u hu]
  rcases afterTimeout_cases cfg c t with ⟨hperiodic, hactive, hstart⟩ | ⟨-, hstopped⟩
  · obtain ⟨hpos, hshort⟩ := hlater hperiodic hactive
    have hstopped : RowsInv cfg (setActivated c t false) := hrows.setActivated false hfree
    have hnot : isDue (afterTimeout cfg c t) t = false := by
      rw [isDue, afterTimeout_tick]
      rw [(rtTimerStart_eq_some hstart).2.2.1, update_self]
      apply not_expired_restarted _ _ _
      · simpa [startedTimer] using hpos.ne'
      · simpa [startedTimer] using hshort
      · simp [startedTimer]
    by_cases hlist : ((setActivated c t false).timers t).list = .hard
    · have hperm := hstopped.bottom_rtTimerStart_perm hstart
      rw [hlist] at hperm
      rw [expiredCount, hperm.countP_eq, countP_cons_of_neg (Bool.eq_false_iff.mp hnot)]
      exact hcount.le
    · have hbottom : (afterTimeout cfg c t).bottom cfg .hard = c.bottom cfg .hard := by
        unfold TimerState.bottom
        rw [(rtTimerStart_eq_some hstart).2.2.2.1 .hard (Ne.symm hlist)]
        rfl
      rw [expiredCount, hbottom]
      exact hcount.le
  · rw [hstopped] at hcount ⊢
    exact hcount.le

theorem expiredCount_round (hrows : RowsInv cfg x.2)
    (hhead : expiredHead cfg x.2 x.2.tick = some t) (hlater : ¬PutBackAtOnce cfg f x) :
    expiredCount cfg (round cfg f x).2 < expiredCount cfg x.2 := by
  obtain ⟨rest, hbottom, -⟩ := HardTimer.exists_of_expiredHead hhead
  have hkeep := callsKeep_callTimeout (f := f) hrows t
  have hrest : (rtTimerRemove x.2 t).bottom cfg .hard = rest := by
    change (x.2.bottom cfg .hard).erase t = rest
    rw [hbottom, erase_cons_head]
  have hcalls : expiredCount cfg (callTimeout f x t).2 ≤ rest.countP (isDue x.2) := by
    refine ((hkeep.sub .hard).countP_le).trans (le_of_eq ?_)
    rw [hrest]
    refine countP_congr fun u _ => ?_
    rw [isDue, isDue, expired, expired, hkeep.tick, (hkeep.timers u).1]
    rfl
  have hback := expiredCount_afterTimeout hkeep.rows (not_linked_callTimeout hrows t)
    fun hperiodic hactive => by_contra fun hbad => hlater ⟨t, hhead, hperiodic, hactive, hbad⟩
  rw [round_of_head hhead, expiredCount.eq_1 cfg x.2, hbottom,
    countP_cons_of_pos (due_of_head hhead).2]
  exact Nat.lt_succ_of_le (hback.trans hcalls)

theorem rtTimerCheck_succ (hrows : RowsInv cfg x.2)
    (hhead : expiredHead cfg x.2 x.2.tick = some t) (fuel : ℕ) :
    rtTimerCheck cfg f (fuel + 1) x.2.tick x =
      rtTimerCheck cfg f fuel (round cfg f x).2.tick (round cfg f x) := by
  have hround : round cfg f x = finishRound cfg (callTimeout f x t) t := by
    rw [round, hhead]
  rw [rtTimerCheck, hhead, tick_round hrows, hround]
  exact congrArg (rtTimerCheck cfg f fuel · _) (callsKeep_callTimeout hrows t).tick

theorem checkEnds_round (hrows : RowsInv cfg x.2) :
    CheckEnds cfg f (round cfg f x) ↔ CheckEnds cfg f x := by
  cases hhead : expiredHead cfg x.2 x.2.tick with
  | none => rw [round_of_none hhead]
  | some t =>
    have hsucc := rtTimerCheck_succ (f := f) hrows hhead
    constructor
    · rintro ⟨fuel, y, hy⟩
      exact ⟨fuel + 1, y, (hsucc fuel).trans hy⟩
    · rintro ⟨fuel, y, hy⟩
      cases fuel with
      | zero => cases hy
      | succ fuel => exact ⟨fuel, y, (hsucc fuel).symm.trans hy⟩

theorem rowsInv_iterate (hrows : RowsInv cfg x.2) (n : ℕ) :
    RowsInv cfg ((round cfg f)^[n] x).2 := by
  induction n generalizing x with
  | zero => exact hrows
  | succ n ih => exact ih (rowsInv_round hrows)

theorem checkEnds_iterate (hrows : RowsInv cfg x.2) (n : ℕ) :
    CheckEnds cfg f ((round cfg f)^[n] x) ↔ CheckEnds cfg f x := by
  induction n generalizing x with
  | zero => rfl
  | succ n ih => exact (ih (rowsInv_round hrows)).trans (checkEnds_round hrows)

/-- The number of expired timers falls in every round, so the loop ends. -/
theorem checkEnds_of_later (hrows : RowsInv cfg x.2)
    (hlater : ∀ k, ¬PutBackAtOnce cfg f ((round cfg f)^[k] x)) : CheckEnds cfg f x := by
  induction hcount : expiredCount cfg x.2 using Nat.strong_induction_on generalizing x with
  | _ n ih =>
    cases hhead : expiredHead cfg x.2 x.2.tick with
    | none => exact ⟨1, x, by rw [rtTimerCheck, hhead]⟩
    | some t =>
      have hless := expiredCount_round hrows hhead (hlater 0)
      rw [hcount] at hless
      exact (checkEnds_round hrows).mp
        (ih _ hless (rowsInv_round hrows) (fun k => hlater (k + 1)) rfl)

theorem exists_ended (hends : CheckEnds cfg f x) (hrows : RowsInv cfg x.2) :
    ∃ n, expiredHead cfg ((round cfg f)^[n] x).2 ((round cfg f)^[n] x).2.tick = none := by
  obtain ⟨fuel, y, hy⟩ := hends
  induction fuel generalizing x with
  | zero => cases hy
  | succ fuel ih =>
    cases hhead : expiredHead cfg x.2 x.2.tick with
    | none => exact ⟨0, hhead⟩
    | some t =>
      rw [rtTimerCheck_succ hrows hhead] at hy
      obtain ⟨n, hn⟩ := ih (rowsInv_round hrows) hy
      exact ⟨n + 1, hn⟩

/-- The check does not end when timers are put back at once over and over, and only then. -/
theorem checkEnds_iff (hrows : RowsInv cfg x.2) :
    CheckEnds cfg f x ↔ ∃ n, ∀ k, n ≤ k → ¬PutBackAtOnce cfg f ((round cfg f)^[k] x) := by
  constructor
  · intro hends
    obtain ⟨n, hn⟩ := exists_ended hends hrows
    refine ⟨n, fun k hk => ?_⟩
    have hsame : (round cfg f)^[k] x = (round cfg f)^[n] x := by
      rw [← Nat.sub_add_cancel hk, iterate_add_apply,
        iterate_fixed (round_of_none hn)]
    rw [hsame]
    rintro ⟨t, hhead, -⟩
    exact absurd (hn.symm.trans hhead) (Option.some_ne_none t).symm
  · rintro ⟨n, hlater⟩
    apply (checkEnds_iterate hrows n).mp
    apply checkEnds_of_later (rowsInv_iterate hrows n)
    intro k
    rw [← iterate_add_apply]
    exact hlater (k + n) (Nat.le_add_left n k)

/-! ## Timeout functions that keep off the timers with delay zero -/

def Spins (c : TimerState τ) (t : τ) : Prop :=
  (c.timers t).periodic = true ∧ (c.timers t).initTick = 0

/-- No pending periodic timer without delay has expired. -/
def NoneSpins (cfg : SkipConfig) (c : TimerState τ) : Prop :=
  ∀ t ∈ c.bottom cfg .hard, Spins c t → isDue c t = false

/-- The delays are those which `rt_timer_start` accepts. -/
def ShortDelays (c : TimerState τ) : Prop := ∀ t, (c.timers t).initTick < rtTickMax / 2

def TimerCall.Accepted : TimerCall τ → Prop
  | .control _ (.setTime tick) => tick.toNat < rtTickMax / 2
  | _ => True

/-- The calls set only delays which `rt_timer_start` accepts. -/
def Accepted (f : TimeoutFunc σ τ) : Prop := ∀ m c t, ∀ call ∈ (f m c t).1, call.Accepted

/-- No timeout function calls anything for a timer that spins, and none makes another timer spin. -/
structure KeepsOff (f : TimeoutFunc σ τ) (c : TimerState τ) : Prop where
  alone : ∀ u, Spins c u → ∀ m c' t, ∀ call ∈ (f m c' t).1, call.timer ≠ u
  others : ∀ m c' t, (∀ u, Spins c' u → Spins c u) →
    ∀ u, Spins ((f m c' t).1.foldl TimerCall.run c') u → Spins c u

theorem shortDelays_foldl (calls : List (TimerCall τ)) (hshort : ShortDelays c)
    (haccepted : ∀ call ∈ calls, call.Accepted) : ShortDelays (calls.foldl TimerCall.run c) := by
  induction calls generalizing c with
  | nil => exact hshort
  | cons call calls ih =>
    rw [forall_mem_cons] at haccepted
    refine ih (fun u => ?_) haccepted.2
    have hu := hshort u
    cases call with
    | stop t =>
      simp only [TimerCall.run, rtTimerStop]
      split_ifs
      · by_cases hut : u = t
        · simpa [hut] using hshort t
        · simpa [hut] using hu
      · exact hu
    | detach t => exact hu
    | control t command =>
      cases command with
      | getTime => exact hu
      | setTime tick =>
        by_cases hut : u = t
        · simpa [TimerCall.run, rtTimerControl, TimerCall.Accepted, hut] using haccepted.1
        · simpa [TimerCall.run, rtTimerControl, hut] using hu
      | setOneshot | setPeriodic =>
        by_cases hut : u = t
        · simpa [TimerCall.run, rtTimerControl, hut] using hshort t
        · simpa [TimerCall.run, rtTimerControl, hut] using hu

theorem alone_run (cfg : SkipConfig) {call : TimerCall τ} (hne : call.timer ≠ u) :
    (call.run c).timers u = c.timers u ∧
      (u ∈ c.bottom cfg .hard → u ∈ (call.run c).bottom cfg .hard) := by
  cases call with
  | stop t =>
    simp only [TimerCall.run, rtTimerStop]
    split_ifs
    · exact ⟨update_of_ne hne.symm _ _, (mem_erase_of_ne hne.symm).mpr⟩
    · exact ⟨rfl, id⟩
  | detach t => exact ⟨rfl, (mem_erase_of_ne hne.symm).mpr⟩
  | control t command =>
    cases command with
    | getTime => exact ⟨rfl, id⟩
    | setTime | setOneshot | setPeriodic => exact ⟨update_of_ne hne.symm _ _, id⟩

theorem alone_foldl (cfg : SkipConfig) {calls : List (TimerCall τ)}
    (halone : ∀ call ∈ calls, call.timer ≠ u) :
    (calls.foldl TimerCall.run c).timers u = c.timers u ∧
      (u ∈ c.bottom cfg .hard → u ∈ (calls.foldl TimerCall.run c).bottom cfg .hard) := by
  induction calls generalizing c with
  | nil => exact ⟨rfl, id⟩
  | cons call calls ih =>
    rw [forall_mem_cons] at halone
    have hfirst := alone_run cfg (c := c) halone.1
    have hrest := ih (c := call.run c) halone.2
    exact ⟨hrest.1.trans hfirst.1, hrest.2 ∘ hfirst.2⟩

theorem shortDelays_callTimeout (hshort : ShortDelays x.2) (haccepted : Accepted f) (t : τ) :
    ShortDelays (callTimeout f x t).2 :=
  shortDelays_foldl _ hshort (haccepted x.1 _ t)

theorem shortDelays_afterTimeout (hshort : ShortDelays c) (t : τ) :
    ShortDelays (afterTimeout cfg c t) := fun u =>
  (HardTimer.afterTimeout_settings _ c t u).1.trans_lt (hshort u)

/-- In the course of a check no timer comes to spin, and none that spins is due. -/
structure Quiet (cfg : SkipConfig) (c₀ c : TimerState τ) : Prop where
  rows : RowsInv cfg c
  short : ShortDelays c
  spins : ∀ u, Spins c u → Spins c₀ u
  quiet : ∀ u ∈ c.bottom cfg .hard, Spins c₀ u → isDue c u = false

theorem Quiet.spins_callTimeout (hquiet : Quiet cfg c x.2) (hkeeps : KeepsOff f c) :
    ∀ u, Spins (callTimeout f x t).2 u → Spins c u :=
  hkeeps.others _ _ _ hquiet.spins

theorem Quiet.not_putBackAtOnce (hquiet : Quiet cfg c x.2) (hkeeps : KeepsOff f c)
    (haccepted : Accepted f) : ¬PutBackAtOnce cfg f x := by
  rintro ⟨t, hhead, hperiodic, -, hdelay⟩
  obtain ⟨ht, hdue⟩ := due_of_head hhead
  have hshort := shortDelays_callTimeout hquiet.short haccepted t
  have hzero : ((callTimeout f x t).2.timers t).initTick = 0 := by
    have := hshort t
    lia
  have hnot := hquiet.quiet t ht (hquiet.spins_callTimeout hkeeps t ⟨hperiodic, hzero⟩)
  exact Bool.false_ne_true (hnot.symm.trans hdue)

theorem Quiet.round (hquiet : Quiet cfg c x.2) (hkeeps : KeepsOff f c) (haccepted : Accepted f) :
    Quiet cfg c (round cfg f x).2 := by
  have hrows := hquiet.rows
  have hrows' := rowsInv_round (f := f) hrows
  have htick := tick_round (f := f) hrows
  cases hhead : expiredHead cfg x.2 x.2.tick with
  | none => rwa [round_of_none hhead]
  | some t =>
    rw [round_of_head hhead] at hrows' htick ⊢
    have hfree := not_linked_callTimeout (f := f) hrows t
    have hkeep := callsKeep_callTimeout (f := f) hrows t
    have hafter := hkeep.rows.afterTimeout hfree
    refine ⟨hrows', shortDelays_afterTimeout (shortDelays_callTimeout hquiet.short haccepted t) t,
      fun u hspins => hquiet.spins_callTimeout (t := t) hkeeps u ?_, fun u hu hspins => ?_⟩
    · have hsettings := HardTimer.afterTimeout_settings cfg (callTimeout f x t).2 t u
      exact ⟨hsettings.2.1.symm.trans hspins.1, hsettings.1.symm.trans hspins.2⟩
    · obtain ⟨ht, hdue⟩ := due_of_head hhead
      have hut : u ≠ t := by
        rintro rfl
        exact Bool.false_ne_true ((hquiet.quiet u ht hspins).symm.trans hdue)
      have hmem := mem_of_mem_afterTimeout hkeep.rows hfree hut hu
      have hsame : (callTimeout f x t).2.timers u = x.2.timers u :=
        (alone_foldl cfg (hkeeps.alone u hspins _ _ _)).1
      rw [isDue, htick, hafter.2.2.1 u hut, hsame]
      exact hquiet.quiet u (mem_of_mem_erase ((hkeep.sub .hard).subset hmem)) hspins

theorem checkEnds_of_noneSpins (hrows : RowsInv cfg x.2) (hshort : ShortDelays x.2)
    (haccepted : Accepted f) (hkeeps : KeepsOff f x.2) (hnone : NoneSpins cfg x.2) :
    CheckEnds cfg f x := by
  have hquiet : ∀ n, Quiet cfg x.2 ((Callbacks.round cfg f)^[n] x).2 := by
    intro n
    induction n with
    | zero => exact ⟨hrows, hshort, fun _ => id, hnone⟩
    | succ n ih =>
      rw [iterate_succ_apply']
      exact ih.round hkeeps haccepted
  exact checkEnds_of_later hrows fun k => (hquiet k).not_putBackAtOnce hkeeps haccepted

/-! ## Runs in which every tick is checked -/

def lead (base : ℕ) (c : TimerState τ) (t : τ) : ℕ := sub32 (c.timers t).timeoutTick base

/-- The list is in the order of the timeouts, which lie less than half the range of the tick
ahead of `base + e`. -/
structure InOrder (cfg : SkipConfig) (base e : ℕ) (c : TimerState τ) : Prop where
  rows : RowsInv cfg c
  short : ShortDelays c
  base_lt : base < 4294967296
  tick : c.tick = add32 base e
  near : ∀ t ∈ c.bottom cfg .hard, lead base c t < rtTickMax / 2 + e
  sorted : (c.bottom cfg .hard).Pairwise fun a b => lead base c a ≤ lead base c b

omit [DecidableEq τ] in
theorem InOrder.expired_iff
    (hin : InOrder cfg base e c) (he : e ≤ 1) (ht : t ∈ c.bottom cfg .hard) :
    isDue c t = true ↔ lead base c t ≤ e := by
  have hnear := hin.near t ht
  have hword := hin.rows.word .hard t ht
  have hbase := hin.base_lt
  unfold isDue expired
  rw [decide_eq_true_eq, hin.tick]
  unfold lead at *
  unfold sub32 add32 rtTickMax at *
  omega

omit [DecidableEq τ] in
theorem InOrder.of_sublist
    (hin : InOrder cfg base e c) (hrows : RowsInv cfg c') (hshort : ShortDelays c')
    (htick : c'.tick = c.tick) (hsub : (c'.bottom cfg .hard).Sublist (c.bottom cfg .hard))
    (hsame : ∀ u ∈ c'.bottom cfg .hard, (c'.timers u).timeoutTick = (c.timers u).timeoutTick) :
    InOrder cfg base e c' := by
  have hlead : ∀ u ∈ c'.bottom cfg .hard, lead base c' u = lead base c u := fun u hu => by
    rw [lead, lead, hsame u hu]
  refine ⟨hrows, hshort, hin.base_lt, htick.trans hin.tick, fun u hu => ?_, ?_⟩
  · rw [hlead u hu]
    exact hin.near u (hsub.subset hu)
  · apply (hin.sorted.sublist hsub).imp_of_mem
    intro a b ha hb hle
    rw [hlead a ha, hlead b hb]
    exact hle

theorem InOrder.start
    (hin : InOrder cfg base e c) (he : e ≤ 1) (hstart : rtTimerStart cfg c t = some c') :
    InOrder cfg base e c' := by
  have hrows := hin.rows
  rcases rtTimerStart_eq_some hstart with ⟨hinactive, htick, htimers, hother, -⟩
  have hsame : ∀ u ∈ c.bottom cfg .hard, c'.timers u = c.timers u := fun u hu => by
    rw [htimers, update_of_ne (hrows.ne_of_inactive hinactive hu)]
  have hshort : ShortDelays c' := by
    intro u
    rw [htimers]
    by_cases hut : u = t
    · rw [hut, update_self]
      exact hin.short t
    · rw [update_of_ne hut]
      exact hin.short u
  by_cases hlist : (c.timers t).list = .hard
  · have hself : lead base c' t = (c.timers t).initTick + e := by
      have hdelay := hin.short t
      have hbase := hin.base_lt
      rw [lead, htimers, update_self, startedTimer, hin.tick]
      unfold sub32 add32 rtTickMax at *
      dsimp only
      omega
    have hword : (c'.timers t).timeoutTick < 4294967296 := by
      rw [htimers, update_self]
      exact add32_lt _ _
    have hlead : ∀ u ∈ c.bottom cfg .hard, lead base c' u = lead base c u := fun u hu => by
      rw [lead, lead, hsame u hu]
    have hstops : ∀ u ∈ c.bottom cfg .hard,
        (stopsAt c'.timers t u = true ↔ lead base c' t < lead base c' u) := by
      intro u hu
      have hnear := hin.near u hu
      have hwordu := hrows.word .hard u hu
      have hdelay := hin.short t
      rw [← hlead u hu] at hnear
      rw [← hsame u hu] at hwordu
      have hlow : e ≤ lead base c' t := by lia
      have hhigh : lead base c' t < rtTickMax / 2 + e := by lia
      unfold lead at hnear hlow hhigh ⊢
      simp only [stopsAt, Bool.and_eq_true, decide_eq_true_eq]
      unfold sub32 rtTickMax at *
      lia
    have hsorted : (c.bottom cfg .hard).Pairwise fun a b => lead base c' a ≤ lead base c' b := by
      apply hin.sorted.imp_of_mem
      intro a b ha hb hle
      rw [hlead a ha, hlead b hb]
      exact hle
    have hmono : (c.bottom cfg .hard).Pairwise fun a b =>
        stopsAt c'.timers t a = true → stopsAt c'.timers t b = true := by
      apply hsorted.imp_of_mem
      intro a b ha hb hle
      rw [hstops a ha, hstops b hb]
      exact fun h => h.trans_le hle
    have hbottom := hrows.bottom_rtTimerStart hstart (by rw [hlist]; exact hmono)
    rw [hlist] at hbottom
    refine ⟨hrows.rtTimerStart hstart, hshort, hin.base_lt, htick.trans hin.tick, ?_, ?_⟩
    · intro u hu
      rcases (hrows.mem_rtTimerStart hstart).mp hu with ⟨hut, -⟩ | hmem
      · rw [hut, hself]
        have hdelay := hin.short t
        lia
      · rw [hlead u hmem]
        exact hin.near u hmem
    · rw [hbottom]
      apply SkipList.pairwise_insertBefore hsorted hmono
      · intro a ha hnot
        rw [← not_lt, ← hstops a ha, hnot]
        exact Bool.false_ne_true
      · exact fun b hb hstop => ((hstops b hb).mp hstop).le
  · have hbottom : c'.bottom cfg .hard = c.bottom cfg .hard := by
      unfold TimerState.bottom
      rw [hother .hard (Ne.symm hlist)]
    refine hin.of_sublist (hrows.rtTimerStart hstart) hshort htick (by rw [hbottom]) ?_
    intro u hu
    rw [hsame u (hbottom ▸ hu)]

theorem add32_zero (x : ℕ) : add32 x 0 = x % 4294967296 := by
  unfold add32
  rw [Nat.add_zero]

omit [DecidableEq τ] in
theorem InOrder.finish (hin : InOrder cfg base e c) (he : e ≤ 1)
    (hnone : expiredHead cfg c c.tick = none) : InOrder cfg c.tick 0 c := by
  have hlater : ∀ t ∈ c.bottom cfg .hard, lead base c t = lead c.tick c t + e := by
    intro t ht
    have hfirst : e < lead base c t := by
      unfold expiredHead at hnone
      have hsorted := hin.sorted
      cases hbottom : c.bottom cfg .hard with
      | nil => simp [hbottom] at ht
      | cons first rest =>
        have hmem : first ∈ c.bottom cfg .hard := by
          rw [hbottom]
          exact mem_cons_self
        have hnot : e < lead base c first := by
          rw [← not_le, ← hin.expired_iff he hmem]
          simpa [hbottom, isDue] using hnone
        rw [hbottom] at ht hsorted
        rcases mem_cons.mp ht with heq | hrest
        · exact heq ▸ hnot
        · exact hnot.trans_le ((pairwise_cons.mp hsorted).1 t hrest)
    have hnear := hin.near t ht
    have hbase := hin.base_lt
    rw [lead, lead, hin.tick] at *
    unfold sub32 add32 rtTickMax at *
    omega
  have htick : c.tick < 4294967296 := by
    rw [hin.tick]
    exact add32_lt _ _
  refine ⟨hin.rows, hin.short, htick, (Nat.mod_eq_of_lt htick).symm.trans (add32_zero _).symm,
    fun t ht => ?_, ?_⟩
  · have hnear := hin.near t ht
    rw [hlater t ht] at hnear
    lia
  · apply hin.sorted.imp_of_mem
    intro a b ha hb hle
    rw [hlater a ha, hlater b hb] at hle
    lia

theorem InOrder.callTimeout (hin : InOrder cfg base e x.2) (haccepted : Accepted f) (t : τ) :
    InOrder cfg base e (callTimeout f x t).2 := by
  have hkeep := callsKeep_callTimeout (f := f) hin.rows t
  exact hin.of_sublist hkeep.rows (shortDelays_callTimeout hin.short haccepted t) hkeep.tick
    ((hkeep.sub .hard).trans erase_sublist) fun u _ => (hkeep.timers u).1

theorem InOrder.round (hin : InOrder cfg base e x.2) (he : e ≤ 1) (haccepted : Accepted f) :
    InOrder cfg base e (round cfg f x).2 := by
  cases hhead : expiredHead cfg x.2 x.2.tick with
  | none => rwa [round_of_none hhead]
  | some t =>
    rw [round_of_head hhead]
    have hcalled := hin.callTimeout haccepted t
    have hfree := not_linked_callTimeout (f := f) hin.rows t
    have hstopped : InOrder cfg base e (setActivated (Callbacks.callTimeout f x t).2 t false) := by
      apply hcalled.of_sublist (hcalled.rows.setActivated false hfree) _ rfl (.refl _)
      · intro u hu
        have hut : u ≠ t := fun heq => hfree ⟨.hard, heq ▸ hu⟩
        simp [hut]
      · intro u
        by_cases hut : u = t
        · simpa [hut] using hcalled.short t
        · simpa [hut] using hcalled.short u
    rcases afterTimeout_cases cfg (Callbacks.callTimeout f x t).2 t with ⟨-, -, hstart⟩ | ⟨-, heq⟩
    · exact hstopped.start he hstart
    · rwa [heq]

/-- A pending periodic timer with delay zero that has expired. -/
structure Stuck (cfg : SkipConfig) (c : TimerState τ) (u : τ) : Prop where
  mem : u ∈ c.bottom cfg .hard
  due : isDue c u = true
  spins : Spins c u

omit [DecidableEq τ] in
theorem Stuck.head (hstuck : Stuck cfg c u) (hin : InOrder cfg base e c) (he : e ≤ 1) :
    ∃ t, expiredHead cfg c c.tick = some t := by
  obtain ⟨t, rest, hbottom⟩ := exists_cons_of_ne_nil (ne_nil_of_mem hstuck.mem)
  have ht : t ∈ c.bottom cfg .hard := by
    rw [hbottom]
    exact mem_cons_self
  have hfirst : isDue c t = true := by
    have hsorted := hin.sorted
    have hu := hstuck.mem
    rw [hbottom, pairwise_cons] at hsorted
    rw [hin.expired_iff he ht]
    have hlast := (hin.expired_iff he hstuck.mem).mp hstuck.due
    rw [hbottom] at hu
    rcases mem_cons.mp hu with heq | hmem
    · exact heq ▸ hlast
    · exact (hsorted.1 u hmem).trans hlast
  refine ⟨t, ?_⟩
  unfold expiredHead
  rw [hbottom]
  exact Option.filter_eq_some_iff.mpr ⟨rfl, hfirst⟩

theorem expired_restarted {tick : ℕ} {timer : RtTimer} (hzero : timer.initTick = 0)
    (htimeout : timer.timeoutTick = add32 tick timer.initTick) : expired tick timer = true := by
  rw [expired, decide_eq_true_eq, htimeout, hzero]
  unfold sub32 add32 rtTickMax
  omega

theorem Stuck.round (hstuck : Stuck cfg x.2 u) (hrows : RowsInv cfg x.2)
    (halone : ∀ m c t, ∀ call ∈ (f m c t).1, call.timer ≠ u) :
    Stuck cfg (round cfg f x).2 u := by
  have htick := tick_round (f := f) hrows
  cases hhead : expiredHead cfg x.2 x.2.tick with
  | none => rwa [round_of_none hhead]
  | some t =>
    rw [round_of_head hhead] at htick ⊢
    have hkeep := callsKeep_callTimeout (f := f) hrows t
    have hfree := not_linked_callTimeout (f := f) hrows t
    obtain ⟨hsame, hmem⟩ := alone_foldl cfg (c := rtTimerRemove x.2 t)
      (halone x.1 (rtTimerRemove x.2 t) t)
    change (callTimeout f x t).2.timers u = x.2.timers u at hsame
    have hsettings := HardTimer.afterTimeout_settings cfg (callTimeout f x t).2 t u
    have hspins : Spins (afterTimeout cfg (callTimeout f x t).2 t) u := by
      rw [Spins, hsettings.1, hsettings.2.1, hsame]
      exact hstuck.spins
    rcases eq_or_ne u t with rfl | hut
    · rcases afterTimeout_cases cfg (callTimeout f x u).2 u with ⟨-, -, hstart⟩ | ⟨hnot, -⟩
      · refine ⟨?_, expired_restarted hspins.2 ?_, hspins⟩
        · have hstopped : RowsInv cfg (setActivated (callTimeout f x u).2 u false) :=
            hkeep.rows.setActivated false hfree
          refine (hstopped.mem_rtTimerStart hstart).mpr (.inl ⟨rfl, ?_⟩)
          rw [← hrows.placed .hard u hstuck.mem, ← hsame]
          simp [RtTimer.list]
        · rw [(rtTimerStart_eq_some hstart).2.2.1]
          simp [startedTimer]
      · rw [hsame, hstuck.spins.1, hrows.active .hard u hstuck.mem] at hnot
        cases hnot
    · refine ⟨hkeep.rows.mem_afterTimeout hfree (hmem ?_), ?_, hspins⟩
      · exact (mem_erase_of_ne hut).mpr hstuck.mem
      · rw [isDue, htick, (hkeep.rows.afterTimeout hfree).2.2.1 u hut, hsame]
        exact hstuck.due

/-- The timer with delay zero is put back over and over, as the list is in order. -/
theorem Stuck.not_checkEnds (hstuck : Stuck cfg x.2 u) (hin : InOrder cfg base e x.2) (he : e ≤ 1)
    (haccepted : Accepted f) (halone : ∀ m c t, ∀ call ∈ (f m c t).1, call.timer ≠ u) :
    ¬CheckEnds cfg f x := by
  intro hends
  obtain ⟨n, hended⟩ := exists_ended hends hin.rows
  have hrounds : ∀ n, Stuck cfg ((Callbacks.round cfg f)^[n] x).2 u ∧
      InOrder cfg base e ((Callbacks.round cfg f)^[n] x).2 := by
    intro n
    induction n with
    | zero => exact ⟨hstuck, hin⟩
    | succ n ih =>
      rw [iterate_succ_apply']
      exact ⟨ih.1.round ih.2.rows halone, ih.2.round he haccepted⟩
  obtain ⟨t, hhead⟩ := (hrounds n).1.head (hrounds n).2 he
  rw [hended] at hhead
  cases hhead

/-- By the timers which are due: the check ends exactly when none of them spins. -/
theorem InOrder.checkEnds_iff (hin : InOrder cfg base e x.2) (he : e ≤ 1) (haccepted : Accepted f)
    (hkeeps : KeepsOff f x.2) : CheckEnds cfg f x ↔ NoneSpins cfg x.2 := by
  constructor
  · intro hends u hu hspins
    rw [← Bool.not_eq_true]
    intro hdue
    exact Stuck.not_checkEnds ⟨hu, hdue, hspins⟩ hin he haccepted (hkeeps.alone u hspins) hends
  · exact checkEnds_of_noneSpins hin.rows hin.short haccepted hkeeps

inductive FreeAction (τ : Type) where
  | start (t : τ)
  | call (call : TimerCall τ)
  | check
  | tickIncrease

/-- Timers with any delay that the assertion allows are started, stopped, detached and changed,
and `rt_timer_check` is called with or without an increment of the tick.  What the timeout
functions remember may change with every start and call. -/
def freeSystem (cfg : SkipConfig) (f : TimeoutFunc σ τ) :
    TransitionSystem (σ × TimerState τ) (FreeAction τ) where
  init x := (∀ k r, x.2.lists k r = []) ∧ ShortDelays x.2 ∧ x.2.tick < 4294967296
  step x action y := match action with
    | .start t => y.2 = (rtTimerStart cfg x.2 t).getD x.2
    | .call call => call.Accepted ∧ y.2 = call.run x.2
    | .check => ∃ fuel, rtTimerCheck cfg f fuel x.2.tick x = some y
    | .tickIncrease => ∃ fuel, rtTickIncrease cfg f fuel x = some y

theorem InOrder.check {fuel : ℕ} (hin : InOrder cfg base e x.2) (he : e ≤ 1)
    (haccepted : Accepted f) (hcheck : rtTimerCheck cfg f fuel x.2.tick x = some y) :
    InOrder cfg y.2.tick 0 y.2 := by
  induction fuel generalizing x with
  | zero => cases hcheck
  | succ fuel ih =>
    cases hhead : expiredHead cfg x.2 x.2.tick with
    | none =>
      rw [rtTimerCheck, hhead, Option.some.injEq] at hcheck
      exact hcheck ▸ hin.finish he hhead
    | some t =>
      rw [rtTimerCheck_succ hin.rows hhead] at hcheck
      exact ih (hin.round he haccepted) hcheck

omit [DecidableEq τ] in
theorem InOrder.increment (hin : InOrder cfg x.2.tick 0 x.2) :
    InOrder cfg x.2.tick 1 (incrementTick x).2 :=
  ⟨hin.rows.of_timers rfl fun _ _ _ => ⟨rfl, rfl, rfl⟩, hin.short, hin.base_lt, rfl,
    fun t ht => (hin.near t ht).trans (Nat.lt_succ_self _), hin.sorted⟩

theorem inOrder_of_reachable (haccepted : Accepted f)
    (hreach : (freeSystem cfg f).Reachable (fun _ _ => True) x) : InOrder cfg x.2.tick 0 x.2 := by
  apply hreach.invariant (P := fun x => InOrder cfg x.2.tick 0 x.2)
  · rintro ⟨m, c⟩ ⟨hempty, hshort, htick⟩
    have hbottom : c.bottom cfg .hard = [] := hempty _ _
    refine ⟨.of_empty hempty, hshort, htick,
      (Nat.mod_eq_of_lt htick).symm.trans (add32_zero _).symm, ?_, ?_⟩
    · simp [hbottom]
    · rw [hbottom]
      exact .nil
  · rintro ⟨m, c⟩ action ⟨m', c'⟩ hin _ hstep
    dsimp only at hin ⊢
    cases action with
    | start t =>
      change c' = (rtTimerStart cfg c t).getD c at hstep
      rw [hstep]
      cases hstart : rtTimerStart cfg c t with
      | none => exact hin
      | some started =>
        have hafter := hin.start (Nat.zero_le 1) hstart
        rwa [← (rtTimerStart_eq_some hstart).2.1] at hafter
    | call call =>
      obtain ⟨haccepts, hcall⟩ := hstep
      change c' = call.run c at hcall
      have hkeep := callsKeep_run hin.rows call
      have hshort : ShortDelays (call.run c) :=
        shortDelays_foldl [call] hin.short (by simpa using haccepts)
      rw [hcall, hkeep.tick]
      exact hin.of_sublist hkeep.rows hshort hkeep.tick (hkeep.sub .hard)
        fun u _ => (hkeep.timers u).1
    | check =>
      obtain ⟨fuel, hcheck⟩ := hstep
      exact InOrder.check (x := (m, c)) hin (Nat.zero_le 1) haccepted hcheck
    | tickIncrease =>
      obtain ⟨fuel, hcheck⟩ := hstep
      exact InOrder.check (InOrder.increment (x := (m, c)) hin) le_rfl haccepted hcheck

/-- A check ends when only finitely many of its rounds put the timer back at once, and in no other
case.  With timeout functions that keep off the periodic timers with delay zero it ends when no
pending one has expired, whatever the timeouts and the tick are; in a run, where `rt_timer_check`
sees every tick, it then ends in no other case. -/
theorem timerCheck_ends_iff (cfg : SkipConfig) (f : TimeoutFunc σ τ) (x : σ × TimerState τ) :
    (RowsInv cfg x.2 → (CheckEnds cfg f x ↔
        ∃ n, ∀ k, n ≤ k → ¬PutBackAtOnce cfg f ((round cfg f)^[k] x))) ∧
      (Accepted f → KeepsOff f x.2 →
        (RowsInv cfg x.2 → ShortDelays x.2 → NoneSpins cfg x.2 → CheckEnds cfg f x) ∧
        ((freeSystem cfg f).Reachable (fun _ _ => True) x →
          (CheckEnds cfg f x ↔ NoneSpins cfg x.2) ∧
          (CheckEnds cfg f (incrementTick x) ↔ NoneSpins cfg (incrementTick x).2))) := by
  refine ⟨checkEnds_iff, fun haccepted hkeeps => ⟨fun hrows hshort hnone =>
    checkEnds_of_noneSpins hrows hshort haccepted hkeeps hnone, fun hreach => ?_⟩⟩
  have hin := inOrder_of_reachable haccepted hreach
  exact ⟨hin.checkEnds_iff (Nat.zero_le 1) haccepted hkeeps,
    hin.increment.checkEnds_iff le_rfl haccepted ⟨hkeeps.alone, hkeeps.others⟩⟩

/-! ## A periodic timer with delay zero -/

/-- The timeout function stops its timer once it has counted down to zero. -/
def countdown : TimeoutFunc ℕ Unit := fun m _ t => (if m = 0 then [.stop t] else [], m - 1)

omit [DecidableEq τ] in
theorem accepted_idle : Accepted (idle τ) := fun _ _ _ => forall_mem_nil _

theorem accepted_countdown : Accepted countdown := by
  intro m c t call hcall
  rw [countdown] at hcall
  split_ifs at hcall
  · rw [mem_singleton.mp hcall]
    trivial
  · cases hcall

theorem keepsOff_idle (c : TimerState τ) : KeepsOff (idle τ) c :=
  ⟨fun _ _ _ _ _ => forall_mem_nil _, fun _ _ _ => id⟩

def started (m : σ) (initTick : ℕ) : σ × TimerState Unit :=
  (m, (rtTimerStart defaultConfig
    ⟨0, 0, fun _ => ⟨0, initTick, true, false, false⟩, fun _ _ => []⟩ ()).getD
    ⟨0, 0, fun _ => ⟨0, initTick, true, false, false⟩, fun _ _ => []⟩)

theorem started_reachable {f : TimeoutFunc σ Unit} (m : σ) {initTick : ℕ}
    (hshort : initTick < rtTickMax / 2) :
    (freeSystem defaultConfig f).Reachable (fun _ _ => True) (started m initTick) := by
  have hinit : (freeSystem defaultConfig f).init
      (m, ⟨0, 0, fun _ => ⟨0, initTick, true, false, false⟩, fun _ _ => []⟩) :=
    ⟨fun _ _ => rfl, fun _ => hshort, Nat.zero_lt_succ _⟩
  exact .next (.start hinit) trivial
    (show (freeSystem defaultConfig f).step _ (.start ()) _ from rfl)

/-- A timeout function that stops its timer lets the check end, though the delay is zero. -/
theorem timerCheck_ends_sample :
    (∃ n, ∀ k, n ≤ k → ¬PutBackAtOnce defaultConfig countdown
      ((round defaultConfig countdown)^[k] (incrementTick (started 2 0)))) ∧
    CheckEnds defaultConfig (idle Unit) (started () 1) ∧
    (CheckEnds defaultConfig (idle Unit) (incrementTick (started () 1)) ↔
      NoneSpins defaultConfig (incrementTick (started () 1)).2) := by
  have hcount := inOrder_of_reachable accepted_countdown
    (started_reachable 2 (show 0 < rtTickMax / 2 by decide))
  have hreach := started_reachable (f := idle Unit) () (show 1 < rtTickMax / 2 by decide)
  have hin := inOrder_of_reachable accepted_idle hreach
  have hends := (timerCheck_ends_iff defaultConfig (idle Unit) (started () 1)).2 accepted_idle
    (keepsOff_idle _)
  refine ⟨?_, hends.1 hin.rows hin.short ?_, (hends.2 hreach).2⟩
  · apply ((timerCheck_ends_iff defaultConfig countdown _).1 hcount.increment.rows).mp
    exact ⟨4, Option.isSome_iff_exists.mp (by decide +kernel)⟩
  · intro u hu hspins
    cases hspins.2

/-- A periodic timer without delay which is never stopped. -/
theorem not_timerCheck_ends :
    ∃ x : Unit × TimerState Unit, (freeSystem defaultConfig (idle Unit)).Reachable
        (fun _ _ => True) x ∧ ¬CheckEnds defaultConfig (idle Unit) (incrementTick x) := by
  have hreach := started_reachable (f := idle Unit) () (show 0 < rtTickMax / 2 by decide)
  refine ⟨started () 0, hreach, fun hends => ?_⟩
  have hin := (inOrder_of_reachable accepted_idle hreach).increment
  have hnone := (hin.checkEnds_iff le_rfl accepted_idle (keepsOff_idle _)).mp hends
  exact Bool.false_ne_true ((hnone () (by decide +kernel) ⟨rfl, rfl⟩).symm.trans (by decide +kernel))

end RtThread.Timer.Callbacks
