import RtThread.TimerModel
import RtThread.MailboxModel
import RtThread.MessageQueueModel

/-!
# The deadlines of waiting calls

`rt_mb_send_wait`, `rt_mb_recv` and `rt_mq_recv` start the thread timer before they
wait.  A thread which is woken up and finds that it has to wait again subtracts the
ticks which have gone by from `timeout` and starts the timer anew.  The deadline,
the tick at which the call first blocked plus the timeout it was given, stays the
same modulo `2 ^ 32`, whatever wakes the thread up and however often.

The waiting calls of an object are described by `Waits`; the mailbox and the message
queue are instances.
-/

namespace RtThread.Ipc

open Function Word

def Reached (now deadline : ℕ) : Prop := sub32 now deadline < Timer.rtTickMax / 2

theorem rtTickMax_half : Timer.rtTickMax / 2 = 2147483647 := by decide

section Remaining

variable {timeout : ℤ} {start now : ℕ}

theorem add32_remaining (hlt : timeout < 2147483648) (hstart : start < 4294967296)
    (hpos : 0 < remaining timeout start now) :
    0 < timeout ∧ remaining timeout start now < 2147483648 ∧
      add32 now (remaining timeout start now).toNat = add32 start timeout.toNat := by
  unfold remaining at hpos ⊢
  split_ifs at hpos ⊢ with htimeout
  · refine ⟨htimeout, ?_⟩
    unfold add32 sub32 at *
    rw [Int.bmod_def] at *
    split_ifs at hpos ⊢
    · lia
    · lia
  · contradiction

theorem remaining_of_reached (hpos : 0 < timeout)
    (hstart : start < 4294967296) (hreached : Reached now (add32 start timeout.toNat)) :
    remaining timeout start now = 0 := by
  unfold Reached at hreached
  rw [rtTickMax_half] at hreached
  unfold remaining
  rw [if_pos hpos]
  apply max_eq_left
  unfold add32 sub32 at *
  rw [Int.bmod_def]
  split_ifs
  · lia
  · lia

end Remaining

/-- The calls of an object, seen from the threads which wait for it: `locals` are
`timeout` and `tick_delta` of the threads behind `rt_schedule()`, `starts` is the thread
timer which a step sets and starts, `resume` is the step of a woken thread, and
`unavailable` and `refused` say that it finds nothing and that its call has returned an
error. -/
structure Waits (σ ι : Type) where
  system : TransitionSystem σ ι
  tick : σ → ℕ
  block : σ → Thread → ThreadBlock
  locals : σ → Thread → Option (ℤ × ℕ)
  starts : σ → ι → Option (Thread × ℤ)
  resume : Thread → ι
  unavailable : σ → Thread → Prop
  refused : σ → σ → Thread → Prop

/-- A state with the `timeout_tick` of the thread timers.  `first` is history: the tick
at which a waiting call first blocked, and the timeout it was given. -/
structure Timed (σ : Type) where
  state : σ
  timeoutTick : Thread → ℕ
  first : Thread → Option (ℕ × ℤ)

/-- `timeout_tick` behind `rt_timer_control` with `RT_TIMER_CTRL_SET_TIME` and
`rt_timer_start`, which leaves an active timer alone. -/
def startedTick (tick : ℕ) (active : Bool) (timeoutTick : ℕ) (timeout : ℤ) : ℕ :=
  if active then timeoutTick else add32 tick timeout.toNat

namespace Waits

variable {σ ι : Type} {w : Waits σ ι} {guard : σ → ι → Prop}

def timed (w : Waits σ ι) : TransitionSystem (Timed σ) ι where
  init s := w.system.init s.state ∧ w.tick s.state < 4294967296 ∧ ∀ t, s.first t = none
  step s action s' := w.system.step s.state action s'.state ∧ match w.starts s.state action with
    | none => s'.timeoutTick = s.timeoutTick ∧ s'.first = s.first
    | some (t, timeout) =>
      s'.timeoutTick = update s.timeoutTick t
        (startedTick (w.tick s.state) (w.block s.state t).timerActive (s.timeoutTick t) timeout) ∧
      s'.first = if (w.locals s.state t).isSome then s.first
        else update s.first t (some (w.tick s.state, timeout))

def advance (w : Waits σ ι) (s : Timed σ) (action : ι) (state : σ) : Timed σ :=
  match w.starts s.state action with
  | none => ⟨state, s.timeoutTick, s.first⟩
  | some (t, timeout) =>
    ⟨state, update s.timeoutTick t
        (startedTick (w.tick s.state) (w.block s.state t).timerActive (s.timeoutTick t) timeout),
      if (w.locals s.state t).isSome then s.first
      else update s.first t (some (w.tick s.state, timeout))⟩

theorem timed_advance {s : Timed σ} {action : ι} {state : σ}
    (hstep : w.system.step s.state action state) :
    w.timed.step s action (w.advance s action state) := by
  simp only [timed, advance]
  cases haction : w.starts s.state action with
  | none | some started => exact ⟨hstep, rfl, rfl⟩

theorem exists_timed {run : σ → ι → Option σ} {actions : List ι} {s : Timed σ}
    {β : Type*} {view : Timed σ → β} {value : β} (hinit : w.timed.init s)
    (hsound : ∀ s action s', run s action = some s' → guard s action ∧ w.system.step s action s')
    (hrun : (actions.foldlM (fun s action => (run s.state action).map (w.advance s action))
      s).map view = some value) :
    ∃ s', w.timed.Reachable (fun s action => guard s.state action) s' ∧ view s' = value := by
  rcases Option.map_eq_some_iff.mp hrun with ⟨s', hlast, hvalue⟩
  refine ⟨s', TransitionSystem.Reachable.foldlM ?_ (.start hinit) hlast, hvalue⟩
  intro s action s' hstep
  rcases Option.map_eq_some_iff.mp hstep with ⟨state, hstate, rfl⟩
  rcases hsound s.state action state hstate with ⟨hguard, hstep⟩
  exact ⟨hguard, timed_advance hstep⟩

/-- A step at which no wait of `t` starts. -/
structure Passes (w : Waits σ ι) (s s' : σ) (t : Thread) : Prop where
  locals : ∀ r d, w.locals s' t = some (r, d) → 0 < r → w.locals s t = some (r, d)
  timer : (w.block s' t).timerActive = true → (w.block s t).timerActive = true ∧
      ((w.block s' t).stat = .suspend ∨ (w.block s' t).stat = (w.block s t).stat)

/-- A step at which `t` goes to sleep with `timeout`. -/
structure Starts (w : Waits σ ι) (s s' : σ) (t : Thread) (timeout : ℤ) : Prop where
  pos : 0 < timeout
  ready : (w.block s t).stat = .ready
  suspended : (w.block s' t).stat = .suspend
  locals : w.locals s' t = some (timeout, w.tick s)
  origin : match w.locals s t with
    | none => timeout < 2147483648
    | some (r, d) => timeout = remaining r d (w.tick s)

/-- The rules by which a blocking call keeps its time. -/
structure Disciplined (w : Waits σ ι) (guard : σ → ι → Prop) : Prop where
  init : ∀ s, w.system.init s → ∀ t, w.locals s t = none ∧ (w.block s t).timerActive = false
  tick_lt : ∀ s action s', w.system.step s action s' →
    w.tick s < 4294967296 → w.tick s' < 4294967296
  passes : ∀ s action s', guard s action → w.system.step s action s' →
    ∀ t, (w.starts s action).map Prod.fst ≠ some t → Passes w s s' t
  starts : ∀ s action s', guard s action → w.system.step s action s' →
    ∀ t timeout, w.starts s action = some (t, timeout) → Starts w s s' t timeout
  refuses : ∀ s s' t r d, w.locals s t = some (r, d) → 0 < r →
    remaining r d (w.tick s) = 0 → w.unavailable s t → w.system.step s (w.resume t) s' →
    w.refused s s' t

/-- The remaining time of a waiting thread leads to the deadline of its call, and so
does its timer. -/
structure OnTime (s : Timed σ) (active : Bool) (t : Thread) (r : ℤ) (d : ℕ) (T : ℕ) (n : ℤ) :
    Prop where
  first : s.first t = some (T, n)
  pos : 0 < n
  lt : r < 2147483648
  start_lt : d < 4294967296
  deadline : add32 d r.toNat = add32 T n.toNat
  timer : active = true → s.timeoutTick t = add32 T n.toNat

structure DeadlineInv (w : Waits σ ι) (s : Timed σ) : Prop where
  tick_lt : w.tick s.state < 4294967296
  sleeps : ∀ t, (w.block s.state t).timerActive = true → (w.block s.state t).stat = .suspend
  onTime : ∀ t r d, w.locals s.state t = some (r, d) → 0 < r →
    ∃ T n, OnTime s (w.block s.state t).timerActive t r d T n

structure StartedOnTime (w : Waits σ ι) (s s' : Timed σ) (t : Thread) (timeout : ℤ)
    (T : ℕ) (n : ℤ) : Prop where
  timer : s'.timeoutTick t = add32 T n.toNat
  first : s'.first t = some (T, n)
  origin : w.locals s.state t = none → T = w.tick s.state ∧ n = timeout
  kept : w.locals s.state t ≠ none → s.first t = some (T, n)

theorem DeadlineInv.started {s s' : Timed σ} {action : ι} {t : Thread} {timeout : ℤ}
    (hinv : DeadlineInv w s) (hstarts : Starts w s.state s'.state t timeout)
    (haction : w.starts s.state action = some (t, timeout)) (hstep : w.timed.step s action s') :
    ∃ T n, 0 < n ∧ timeout < 2147483648 ∧ add32 (w.tick s.state) timeout.toNat = add32 T n.toNat ∧
      StartedOnTime w s s' t timeout T n := by
  have hinactive : (w.block s.state t).timerActive = false := by
    cases hactive : (w.block s.state t).timerActive with
    | false => rfl
    | true =>
      have hsuspend := hinv.sleeps t hactive
      rw [hstarts.ready] at hsuspend
      cases hsuspend
  have hupdate := hstep.2
  simp only [haction, hinactive] at hupdate
  rcases hupdate with ⟨htick, hfirst⟩
  have htimer : s'.timeoutTick t = add32 (w.tick s.state) timeout.toNat := by
    rw [htick, update_self, startedTick, if_neg (by decide)]
  have horigin := hstarts.origin
  cases hlocals : w.locals s.state t with
  | none =>
    simp only [hlocals] at horigin
    rw [hlocals] at hfirst
    refine ⟨w.tick s.state, timeout, hstarts.pos, horigin, rfl, ?_⟩
    constructor
    · exact htimer
    · rw [hfirst]
      simp
    · exact fun _ => ⟨rfl, rfl⟩
    · exact fun hne => absurd hlocals hne
  | some locals =>
    rcases locals with ⟨r, d⟩
    simp only [hlocals] at horigin
    rw [hlocals] at hfirst
    have hpos : 0 < remaining r d (w.tick s.state) := by
      rw [← horigin]
      exact hstarts.pos
    have hr : 0 < r := by
      by_contra hneg
      rw [remaining, if_neg hneg] at hpos
      exact hneg hpos
    rcases hinv.onTime t r d hlocals hr with ⟨T, n, hontime⟩
    rcases add32_remaining hontime.lt hontime.start_lt hpos with ⟨-, hlt, hdeadline⟩
    rw [← horigin, hontime.deadline] at hdeadline
    rw [← horigin] at hlt
    refine ⟨T, n, hontime.pos, hlt, hdeadline, ?_⟩
    constructor
    · rw [htimer, hdeadline]
    · rw [hfirst]
      exact hontime.first
    · exact fun hnone => absurd hnone (by rw [hlocals]; exact Option.some_ne_none _)
    · exact fun _ => hontime.first

/-- A disciplined step keeps the deadlines of all waiting calls. -/
theorem DeadlineInv.step {s s' : Timed σ} {action : ι} (hinv : DeadlineInv w s)
    (hw : Disciplined w guard) (hguard : guard s.state action) (hstep : w.timed.step s action s') :
    DeadlineInv w s' := by
  have hpasses := hw.passes s.state action s'.state hguard hstep.1
  have hstarts := hw.starts s.state action s'.state hguard hstep.1
  -- A thread whose timer is not started keeps its tick and its history.
  have hother : ∀ t, (w.starts s.state action).map Prod.fst ≠ some t →
      s'.timeoutTick t = s.timeoutTick t ∧ s'.first t = s.first t := by
    intro t ht
    have hupdate := hstep.2
    cases haction : w.starts s.state action with
    | none =>
      simp only [haction] at hupdate
      rw [hupdate.1, hupdate.2]
      exact ⟨rfl, rfl⟩
    | some started =>
      rcases started with ⟨u, timeout⟩
      simp only [haction, Option.map_some, ne_eq, Option.some.injEq] at ht hupdate
      have htu : t ≠ u := fun heq => ht heq.symm
      rw [hupdate.1, hupdate.2, update_of_ne htu]
      refine ⟨rfl, ?_⟩
      split_ifs
      · rfl
      · rw [update_of_ne htu]
  constructor
  · exact hw.tick_lt s.state action s'.state hstep.1 hinv.tick_lt
  · intro t hactive
    by_cases ht : (w.starts s.state action).map Prod.fst = some t
    · rcases Option.map_eq_some_iff.mp ht with ⟨⟨u, timeout⟩, haction, rfl⟩
      exact (hstarts u timeout haction).suspended
    · rcases (hpasses t ht).timer hactive with ⟨hactive', hstat | hstat⟩
      · exact hstat
      · rw [hstat]
        exact hinv.sleeps t hactive'
  · intro t r d hlocals hr
    by_cases ht : (w.starts s.state action).map Prod.fst = some t
    · rcases Option.map_eq_some_iff.mp ht with ⟨⟨u, timeout⟩, haction, rfl⟩
      have hstart := hstarts u timeout haction
      rcases hinv.started hstart haction hstep with ⟨T, n, hpos, hlt, hdeadline, hstarted⟩
      rw [hstart.locals, Option.some.injEq, Prod.mk.injEq] at hlocals
      rcases hlocals with ⟨rfl, rfl⟩
      refine ⟨T, n, ?_⟩
      constructor
      · exact hstarted.first
      · exact hpos
      · exact hlt
      · exact hinv.tick_lt
      · exact hdeadline
      · exact fun _ => hstarted.timer
    · rcases hother t ht with ⟨htick, hfirst⟩
      rcases hinv.onTime t r d ((hpasses t ht).locals r d hlocals hr) hr with ⟨T, n, hontime⟩
      refine ⟨T, n, ?_⟩
      constructor
      · rw [hfirst]
        exact hontime.first
      · exact hontime.pos
      · exact hontime.lt
      · exact hontime.start_lt
      · exact hontime.deadline
      · intro hactive
        rw [htick]
        exact hontime.timer ((hpasses t ht).timer hactive).1

theorem DeadlineInv.of_reachable {s : Timed σ} (hw : Disciplined w guard)
    (hreach : w.timed.Reachable (fun s action => guard s.state action) s) :
    DeadlineInv w s := by
  apply hreach.invariant
  · intro s hinit
    rcases hinit with ⟨hinit, htick, -⟩
    constructor
    · exact htick
    · intro t hactive
      rw [(hw.init s.state hinit t).2] at hactive
      cases hactive
    · intro t r d hlocals
      rw [(hw.init s.state hinit t).1] at hlocals
      cases hlocals
  · intro s action s' hinv hguard hstep
    exact hinv.step hw hguard hstep

/-- The waits of the object keep their deadlines in this state: a running timer of a
limited wait expires at its deadline, every start of a timer is for the deadline, and a
woken thread which finds nothing behind its deadline returns an error. -/
structure KeepsDeadlines (w : Waits σ ι) (guard : σ → ι → Prop) (s : Timed σ) : Prop where
  waiting : ∀ t r d, w.locals s.state t = some (r, d) → 0 < r → ∃ T n, s.first t = some (T, n) ∧
      ((w.block s.state t).timerActive = true → s.timeoutTick t = add32 T n.toNat)
  started : ∀ action s', guard s.state action → w.timed.step s action s' →
    ∀ t timeout, w.starts s.state action = some (t, timeout) →
      ∃ T n, StartedOnTime w s s' t timeout T n
  expired : ∀ t r d T n s', w.locals s.state t = some (r, d) → 0 < r →
    s.first t = some (T, n) → Reached (w.tick s.state) (add32 T n.toNat) →
    w.unavailable s.state t → w.timed.step s (w.resume t) s' →
    w.refused s.state s'.state t

theorem keepsDeadlines {s : Timed σ} (hw : Disciplined w guard)
    (hreach : w.timed.Reachable (fun s action => guard s.state action) s) :
    KeepsDeadlines w guard s := by
  have hinv := DeadlineInv.of_reachable hw hreach
  constructor
  · intro t r d hlocals hr
    rcases hinv.onTime t r d hlocals hr with ⟨T, n, hontime⟩
    exact ⟨T, n, hontime.first, hontime.timer⟩
  · intro action s' hguard hstep t timeout haction
    have hstarts := hw.starts s.state action s'.state hguard hstep.1 t timeout haction
    rcases hinv.started hstarts haction hstep with ⟨T, n, -, -, -, hstarted⟩
    exact ⟨T, n, hstarted⟩
  · intro t r d T n s' hlocals hr hfirst hreached hunavailable hstep
    rcases hinv.onTime t r d hlocals hr with ⟨T', n', hontime⟩
    have heq := hfirst.symm.trans hontime.first
    rw [Option.some.injEq, Prod.mk.injEq] at heq
    rw [heq.1, heq.2, ← hontime.deadline] at hreached
    have hzero := remaining_of_reached hr hontime.start_lt hreached
    exact hw.refuses s.state s'.state t r d hlocals hr hzero hunavailable hstep.1

end Waits

end RtThread.Ipc
