import RtThread.DataQueueModel

/-!
# The interrupt level of the data queue calls

A call is a first section and, as long as it suspends its thread, further sections
behind `rt_schedule()`.  In between the other threads may bring the queue into any
state.  Every section but one restores the level: `rt_data_queue_pop` returns early at
the low-water mark, and on that path it enables interrupts only for a suspended thread.
-/

namespace RtThread.DataQueue

open Ipc

/-- A section of a call which was entered at level `entry`: whether the thread was
suspended before, the state in which the section starts, and how it ends. -/
inductive Section (c : DataQueueConfig) (t : Thread) (f : Frame) (entry : IrqLevel) :
    Bool → DataQueueState → DataQueueState × Outcome → Prop where
  | first (s : DataQueueState) : Section c t f entry false s (callSection c s t f entry)
  | again {resumed : Bool} {s s' : DataQueueState} {irq : IrqLevel} (next : DataQueueState)
      (hsection : Section c t f entry resumed s (s', .suspended irq)) :
      Section c t f entry true next (resumedSection c next t f irq)

/-- A pop takes the last item above the low-water mark, and the flag is left over from a
push which is not waiting any more. -/
def AtStaleLowWaterMark (c : DataQueueConfig) (s : DataQueueState) (f : Frame) : Prop :=
  f.call = .pop ∧ s.getIndex ≠ s.putIndex ∧ s.waitingLwm = true ∧
    (s.putIndex : ℤ) - Word.succ16 s.getIndex ≤ c.lwm ∧
    s.core.wait .suspendedPushList = []

instance (c : DataQueueConfig) (s : DataQueueState) (f : Frame) :
    Decidable (AtStaleLowWaterMark c s f) :=
  inferInstanceAs (Decidable (_ ∧ _))

def Outcome.level : Outcome → IrqLevel
  | .suspended irq => irq
  | .returned _ _ irq => irq

variable {c : DataQueueConfig} {s s' : DataQueueState} {t : Thread} {f : Frame}
  {entry irq : IrqLevel} {resumed : Bool} {result : DataQueueState × Outcome}

theorem pushLoop_level (item : DataItem) (timeout : ℤ) (level : IrqLevel) :
    (pushLoop c s t item timeout level).2.level = level := by
  unfold pushLoop
  by_cases hfull : indexDifference s = c.size
  · rw [if_pos hfull]
    by_cases htime : timeout = 0
    · simp only [htime, if_true]
      rfl
    · simp only [htime, if_false]
      rfl
  · rw [if_neg hfull]
    rfl

theorem popLoop_level (timeout : ℤ) (level : IrqLevel) :
    (popLoop c s t timeout level .disabled).2.level =
      if AtStaleLowWaterMark c s ⟨.pop, timeout⟩ then .disabled else level := by
  unfold popLoop
  by_cases hempty : s.getIndex = s.putIndex
  · have hnot : ¬AtStaleLowWaterMark c s ⟨.pop, timeout⟩ := fun h => h.2.1 hempty
    rw [if_pos hempty, if_neg hnot]
    by_cases htime : timeout = 0
    · rw [if_pos htime]
      rfl
    · rw [if_neg htime]
      rfl
  rw [if_neg hempty]
  by_cases hmark : (getItem c s).waitingLwm = true ∧ indexDifference (getItem c s) ≤ c.lwm
  · simp only [if_pos hmark]
    by_cases hlist : (getItem c s).core.wait .suspendedPushList = []
    · have hstale : AtStaleLowWaterMark c s ⟨.pop, timeout⟩ :=
        ⟨rfl, hempty, hmark.1, hmark.2, hlist⟩
      rw [if_neg (not_not.mpr hlist), if_pos hstale]
      rfl
    · have hnot : ¬AtStaleLowWaterMark c s ⟨.pop, timeout⟩ := fun h => hlist h.2.2.2.2
      rw [if_pos hlist, if_neg hnot]
      rfl
  · have hnot : ¬AtStaleLowWaterMark c s ⟨.pop, timeout⟩ := fun h => hmark ⟨h.2.2.1, h.2.2.2.1⟩
    simp only [if_neg hmark, if_neg hnot]
    rfl

theorem callSection_level (f : Frame) (irq : IrqLevel) : (callSection c s t f irq).2.level =
      if AtStaleLowWaterMark c s f then .disabled else irq := by
  obtain ⟨call, timeout⟩ := f
  cases call with
  | push item =>
    have hnot : ¬AtStaleLowWaterMark c s ⟨.push item, timeout⟩ := fun h => Call.noConfusion h.1
    rw [if_neg hnot]
    exact pushLoop_level item timeout irq
  | pop => exact popLoop_level timeout irq

theorem popLoop_suspended {timeout : ℤ} {level : IrqLevel}
    (hresult : (popLoop c s t timeout level .disabled).2 = .suspended irq) :
    s.getIndex = s.putIndex := by
  by_contra hne
  unfold popLoop at hresult
  rw [if_neg hne] at hresult
  simp only at hresult
  split_ifs at hresult

theorem callSection_suspended (hresult : (callSection c s t f irq).2 = .suspended entry) :
    entry = irq := by
  have hlevel := callSection_level (c := c) (s := s) (t := t) f irq
  rw [hresult] at hlevel
  have hnot : ¬AtStaleLowWaterMark c s f := by
    intro hstale
    obtain ⟨call, timeout⟩ := f
    obtain rfl : call = .pop := hstale.1
    exact hstale.2.1 (popLoop_suspended hresult)
  rw [if_neg hnot] at hlevel
  exact hlevel

theorem resumedSection_of_error (hcode : (s.core.threads t).error ≠ .eok) :
    (resumedSection c s t f irq).2 = .returned (.ofError (s.core.threads t).error) none irq := by
  unfold resumedSection
  rw [if_pos hcode]
  rfl

theorem resumedSection_of_eok (hcode : (s.core.threads t).error = .eok) :
    resumedSection c s t f irq =
      callSection c { s with frame := Function.update s.frame t none } t f irq := by
  unfold resumedSection
  rw [if_neg (not_not.mpr hcode)]

namespace Section

theorem suspended_level (hsection : Section c t f entry resumed s result)
    (hresult : result.2 = .suspended irq) : irq = entry := by
  induction hsection generalizing irq with
  | first s => exact callSection_suspended hresult
  | @again resumed s s' level next _ ih =>
    have hlevel : level = entry := ih rfl
    by_cases hcode : (next.core.threads t).error = .eok
    · rw [resumedSection_of_eok hcode] at hresult
      rw [callSection_suspended hresult, hlevel]
    · rw [resumedSection_of_error hcode] at hresult
      exact Outcome.noConfusion hresult

theorem level_eq (hsection : Section c t f entry resumed s result) : result.2.level =
      if AtStaleLowWaterMark c s f ∧ (resumed = true → (s.core.threads t).error = .eok)
      then .disabled else entry := by
  cases hsection with
  | first => simp [callSection_level]
  | @again _ _ _ level _ hbefore =>
    have hlevel : level = entry := hbefore.suspended_level rfl
    by_cases hcode : (s.core.threads t).error = .eok
    · rw [resumedSection_of_eok hcode, callSection_level, hlevel]
      exact if_congr (by simp [AtStaleLowWaterMark, hcode]) rfl rfl
    · rw [resumedSection_of_error hcode, if_neg (fun h => hcode (h.2 rfl))]
      exact hlevel

end Section

/-- A call returns with the level at which it was entered exactly when it was entered with
interrupts disabled, was woken up with an error, or does not take the early return;
`rt_data_queue_peak` always does. -/
theorem level_restored_iff {code : ReturnCode} {item : Option DataItem} (c : DataQueueConfig)
    (t : Thread) (f : Frame) (entry irq : IrqLevel) (resumed : Bool) (s s' : DataQueueState)
    (hsection : Section c t f entry resumed s (s', .returned code item irq)) : (irq = entry ↔
      entry = .disabled ∨ resumed = true ∧ (s.core.threads t).error ≠ .eok ∨
        ¬AtStaleLowWaterMark c s f) ∧ (rtDataQueuePeak c s entry).level = entry := by
  constructor
  · have hlevel : irq = _ := hsection.level_eq
    rw [hlevel]
    by_cases hstale : AtStaleLowWaterMark c s f ∧ (resumed = true → (s.core.threads t).error = .eok)
    · rw [if_pos hstale]
      constructor
      · exact fun heq => .inl heq.symm
      · rintro (heq | ⟨hresumed, hcode⟩ | hnot)
        · exact heq.symm
        · exact absurd (hstale.2 hresumed) hcode
        · exact absurd hstale.1 hnot
    · rw [if_neg hstale]
      refine ⟨fun _ => ?_, fun _ => rfl⟩
      by_cases hmark : AtStaleLowWaterMark c s f
      · refine .inr (.inl ?_)
        by_contra hnone
        rw [not_and_not_right] at hnone
        exact hstale ⟨hmark, hnone⟩
      · exact .inr (.inr hmark)
  · simp only [rtDataQueuePeak, rtHwInterruptDisable]
    by_cases hempty : s.getIndex = s.putIndex
    · rw [if_pos hempty]
      rfl
    · rw [if_neg hempty]
      rfl

instance (s : DataQueueState) (t : Thread) (timeout : ℤ) : Decidable (MayCall s t timeout) :=
  inferInstanceAs (Decidable (_ ∨ _))

instance (s : DataQueueState) (action : Action) : Decidable (action.Enabled s) :=
  match action with
  | .push t _ time => inferInstanceAs (Decidable (MayCall s t time))
  | .pop t time => inferInstanceAs (Decidable (MayCall s t time))
  | .resumed _ => inferInstanceAs (Decidable (_ ∧ _))
  | .timeout _ => inferInstanceAs (Decidable (_ = _))

def sampleInit : DataQueueState where
  core := ⟨fun _ => ⟨.ready, .eok, 10, false⟩, fun _ => []⟩
  queue := fun _ => ⟨0, 0⟩
  waitingLwm := false
  getIndex := 0
  putIndex := 0
  frame := fun _ => none
  pushed := []
  popped := []

theorem init_sampleInit (c : DataQueueConfig) : (dataQueueSystem c).init sampleInit :=
  ⟨fun _ => rfl, fun _ => ⟨rfl, rfl, rfl⟩, rfl, rfl, rfl, rfl, rfl⟩

theorem zero_lwm_lt : 0 < 65536 := by norm_num

def smallConfig : DataQueueConfig := ⟨1, 0, Nat.one_pos, by norm_num, zero_lwm_lt⟩

theorem level_restored_iff_in_sample :
    (callSection smallConfig (putItem smallConfig sampleInit ⟨8, 4⟩) firstThread ⟨.pop, 0⟩
        .enabled).2 = .returned .eok (some ⟨8, 4⟩) .enabled ∧
      ((IrqLevel.enabled = .enabled ↔ IrqLevel.enabled = .disabled ∨ false = true ∧
            ((putItem smallConfig sampleInit ⟨8, 4⟩).core.threads firstThread).error ≠ .eok ∨
          ¬AtStaleLowWaterMark smallConfig (putItem smallConfig sampleInit ⟨8, 4⟩) ⟨.pop, 0⟩) ∧
        (rtDataQueuePeak smallConfig (putItem smallConfig sampleInit ⟨8, 4⟩) .enabled).level =
          .enabled) :=
  ⟨by decide, level_restored_iff smallConfig firstThread ⟨.pop, 0⟩ .enabled .enabled false
    _ (getItem smallConfig (putItem smallConfig sampleInit ⟨8, 4⟩))
    (Section.first (putItem smallConfig sampleInit ⟨8, 4⟩))⟩

/-- With the flag set and no push waiting, a pop leaves the interrupts disabled. -/
theorem pop_leaves_interrupts_disabled :
    ∃ s, (dataQueueSystem smallConfig).Reachable (fun _ _ => True) s ∧
      (rtDataQueuePop smallConfig s firstThread 0 .enabled).2 =
        .returned .eok (some ⟨8, 4⟩) .disabled := by
  have hrun : (TransitionSystem.tryRun (fun s action => decide (Action.Enabled s action))
      (execute smallConfig)
      [.push firstThread ⟨8, 4⟩ 0, .push secondThread ⟨12, 4⟩ 0] sampleInit).map
      (fun s => (rtDataQueuePop smallConfig s firstThread 0 .enabled).2) =
      some (.returned .eok (some ⟨8, 4⟩) .disabled) := by
    decide
  exact TransitionSystem.exists_tryRun _ (init_sampleInit smallConfig) hrun
    fun _ _ htest => ⟨trivial, of_decide_eq_true htest, rfl⟩

end RtThread.DataQueue
