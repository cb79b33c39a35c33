import RtThread.DataQueueLevels

/-!
# Suspended pushers

`waiting_lwm` tells `rt_data_queue_pop` that threads are suspended on
`suspended_push_list`.  The flag is cleared when the low-water mark is reached, and one
thread is resumed; the flag then says nothing about the other ones.
-/

namespace RtThread.DataQueue

open Function Option Ipc

def PushersRemembered (s : DataQueueState) : Prop :=
  s.core.wait .suspendedPushList ≠ [] → s.waitingLwm = true

def WakeUpPending (s : DataQueueState) : Prop :=
  ∃ t item time, s.frame t = some ⟨.push item, time⟩ ∧ (s.core.threads t).stat = .ready

def Action.frame (s : DataQueueState) : Action → Option Frame
  | .push _ item time => some ⟨.push item, time⟩
  | .pop _ time => some ⟨.pop, time⟩
  | .resumed t => if (s.core.threads t).error = .eok then s.frame t else none
  | .timeout _ => none

def ClearsFlag (c : DataQueueConfig) (s : DataQueueState) (f : Frame) : Prop :=
  f.call = .pop ∧ s.getIndex ≠ s.putIndex ∧ s.waitingLwm = true ∧
    (s.putIndex : ℤ) - Word.succ16 s.getIndex ≤ c.lwm

/-- Where the step clears `waiting_lwm`, one push waits at most. -/
def ClearsForOne (c : DataQueueConfig) (s : DataQueueState) (action : Action) : Prop :=
  ∀ f ∈ action.frame s, ClearsFlag c s f → (s.core.wait .suspendedPushList).length ≤ 1

variable {c : DataQueueConfig} {s s' : DataQueueState} {t : Thread} {f : Frame}
  {level irq : IrqLevel}

theorem pushLoop_remembered (hremembered : PushersRemembered s) (item : DataItem) (timeout : ℤ) :
    PushersRemembered (pushLoop c s t item timeout level).1 := by
  unfold pushLoop
  by_cases hfull : indexDifference s = c.size
  · rw [if_pos hfull]
    by_cases htime : timeout = 0
    · simp only [htime, if_true]
      exact fun _ => rfl
    · simp only [htime, if_false]
      exact fun _ => rfl
  · rw [if_neg hfull]
    intro hne
    apply hremembered
    intro hnil
    apply hne
    change (rtIpcListResume .suspendedPopList s.core).wait .suspendedPushList = []
    exact rtIpcListResume_wait_nil hnil

section

variable (hlinked : Linked s.core)
include hlinked

theorem popLoop_remembered_iff (hremembered : PushersRemembered s)
    (timeout : ℤ) : PushersRemembered (popLoop c s t timeout level irq).1 ↔
      (ClearsFlag c s ⟨.pop, timeout⟩ → (s.core.wait .suspendedPushList).length ≤ 1) := by
  unfold popLoop
  by_cases hempty : s.getIndex = s.putIndex
  · have hnot : ¬ClearsFlag c s ⟨.pop, timeout⟩ := fun h => h.2.1 hempty
    rw [if_pos hempty]
    simp only [hnot, IsEmpty.forall_iff, iff_true]
    by_cases htime : timeout = 0
    · rw [if_pos htime]
      exact hremembered
    · rw [if_neg htime]
      intro hne
      apply hremembered
      have hother := (asleep_wait (setError s.core t .eok) .suspendedPopList .fifo t timeout).2
        .suspendedPushList WaitList.noConfusion
      exact fun hnil => hne (hother.trans hnil)
  rw [if_neg hempty]
  by_cases hmark : (getItem c s).waitingLwm = true ∧ indexDifference (getItem c s) ≤ c.lwm
  · have hclears : ClearsFlag c s ⟨.pop, timeout⟩ := ⟨rfl, hempty, hmark.1, hmark.2⟩
    simp only [if_pos hmark, hclears, forall_const]
    cases hlist : s.core.wait .suspendedPushList with
    | nil =>
      have hnil : ¬(getItem c s).core.wait .suspendedPushList ≠ [] := not_not.mpr hlist
      rw [if_neg hnil]
      exact ⟨fun _ => Nat.zero_le _, fun _ hne => absurd hlist hne⟩
    | cons u rest =>
      have hne : (getItem c s).core.wait .suspendedPushList ≠ [] := by
        change s.core.wait .suspendedPushList ≠ []
        simp [hlist]
      have hrest : (rtIpcListResume .suspendedPushList s.core).wait .suspendedPushList =
          rest := hlinked.rtIpcListResume_wait hlist
      rw [if_pos hne]
      constructor
      · intro hafter
        have hnil : rest = [] := by
          by_contra hrestne
          nomatch hafter (by rw [← hrest] at hrestne; exact hrestne)
        simp [hnil]
      · intro hlength hafter
        have hnil : rest = [] := by simpa using hlength
        exact absurd (hrest.trans hnil) hafter
  · have hnot : ¬ClearsFlag c s ⟨.pop, timeout⟩ := fun h => hmark ⟨h.2.2.1, h.2.2.2⟩
    simp only [if_neg hmark, hnot, IsEmpty.forall_iff, iff_true]
    exact hremembered

theorem callSection_remembered_iff (hremembered : PushersRemembered s)
    (f : Frame) : PushersRemembered (callSection c s t f irq).1 ↔
      (ClearsFlag c s f → (s.core.wait .suspendedPushList).length ≤ 1) := by
  obtain ⟨call, timeout⟩ := f
  cases call with
  | push item =>
    have hnot : ¬ClearsFlag c s ⟨.push item, timeout⟩ := fun h => Call.noConfusion h.1
    simp only [hnot, IsEmpty.forall_iff, iff_true]
    exact pushLoop_remembered hremembered item timeout
  | pop => exact popLoop_remembered_iff hlinked hremembered timeout

theorem callSection_linked (hready : f.timeout = 0 ∨ (s.core.threads t).stat = .ready) :
    Linked (callSection c s t f irq).1.core := by
  obtain ⟨call, timeout⟩ := f
  cases call with
  | push item =>
    simp only [callSection, pushLoop]
    by_cases hfull : indexDifference s = c.size
    · rw [if_pos hfull]
      by_cases htime : timeout = 0
      · simp only [htime, if_true]
        exact hlinked
      · simp only [htime, if_false]
        exact hlinked.suspend (hready.resolve_left htime) _ .fifo timeout
    · rw [if_neg hfull]
      exact hlinked.rtIpcListResume _
  | pop =>
    simp only [callSection, popLoop]
    by_cases hempty : s.getIndex = s.putIndex
    · rw [if_pos hempty]
      by_cases htime : timeout = 0
      · rw [if_pos htime]
        exact hlinked
      · rw [if_neg htime]
        exact hlinked.suspend (hready.resolve_left htime) _ .fifo timeout
    · rw [if_neg hempty]
      split_ifs
      · exact hlinked.rtIpcListResume _
      · exact hlinked
      · exact hlinked

theorem linked_execute {action : Action} (henabled : action.Enabled s) :
    Linked (execute c s action).core := by
  cases action with
  | push t item time | pop t time => exact callSection_linked hlinked (henabled.imp id And.left)
  | timeout t =>
    simp only [execute, rtThreadTimeout_eq]
    exact hlinked.woken t _
  | resumed t =>
    cases hframe : s.frame t with
    | none =>
      simp only [execute, hframe]
      exact hlinked
    | some f =>
      simp only [execute, hframe]
      by_cases hcode : (s.core.threads t).error = .eok
      · rw [resumedSection_of_eok hcode]
        exact callSection_linked hlinked (.inr henabled.1)
      · unfold resumedSection
        rw [if_pos hcode]
        exact hlinked

/-- Waiting pushers are forgotten exactly when a pop clears the flag for several. -/
theorem execute_remembered_iff (hremembered : PushersRemembered s)
    (action : Action) : PushersRemembered (execute c s action) ↔ ClearsForOne c s action := by
  cases action with
  | push t item time =>
    simp only [ClearsForOne, Action.frame, mem_def, some.injEq, forall_eq']
    exact callSection_remembered_iff hlinked hremembered ⟨.push item, time⟩
  | pop t time =>
    simp only [ClearsForOne, Action.frame, mem_def, some.injEq, forall_eq']
    exact callSection_remembered_iff hlinked hremembered ⟨.pop, time⟩
  | timeout t =>
    refine iff_of_true ?_ (by simp [ClearsForOne, Action.frame])
    intro hne
    apply hremembered
    intro hnil
    apply hne
    simp only [execute, rtThreadTimeout_eq, woken_wait, hnil, List.erase_nil]
  | resumed t =>
    cases hframe : s.frame t with
    | none =>
      simp only [execute, hframe, ClearsForOne, Action.frame]
      exact iff_of_true hremembered (by simp)
    | some f =>
      simp only [execute, hframe, ClearsForOne, Action.frame]
      by_cases hcode : (s.core.threads t).error = .eok
      · rw [resumedSection_of_eok hcode, if_pos hcode]
        simp only [mem_def, some.injEq, forall_eq']
        exact callSection_remembered_iff (s := { s with frame := update s.frame t none })
          hlinked hremembered f
      · unfold resumedSection
        rw [if_pos hcode, if_neg hcode]
        exact iff_of_true hremembered (by simp)

end

/-- In every run in which the flag is cleared only while one thread at most is suspended on
the list, the flag is set as long as a thread is suspended there; and such a run stays so
by exactly these steps. -/
theorem pushersRemembered_of_clearsForOne (c : DataQueueConfig) (s : DataQueueState)
    (hreach : (dataQueueSystem c).Reachable (ClearsForOne c) s) :
    PushersRemembered s ∧ ∀ action, action.Enabled s →
      (PushersRemembered (execute c s action) ↔ ClearsForOne c s action) := by
  have hinv : PushersRemembered s ∧ Linked s.core := by
    apply hreach.invariant (P := fun s => PushersRemembered s ∧ Linked s.core)
    · rintro s ⟨hwait, hthreads, -⟩
      exact ⟨fun hne => absurd (hwait _) hne, .of_empty hwait (fun t => (hthreads t).2.1)⟩
    · rintro s action s' ⟨hremembered, hlinked⟩ hguard ⟨henabled, rfl⟩
      exact ⟨(execute_remembered_iff hlinked hremembered action).mpr hguard,
        linked_execute hlinked henabled⟩
  exact ⟨hinv.1, fun action _ => execute_remembered_iff hinv.2 hinv.1 action⟩

instance (c : DataQueueConfig) (s : DataQueueState) (f : Frame) : Decidable (ClearsFlag c s f) :=
  inferInstanceAs (Decidable (_ ∧ _))

instance (c : DataQueueConfig) (s : DataQueueState) (action : Action) :
    Decidable (ClearsForOne c s action) :=
  inferInstanceAs (Decidable (∀ f ∈ _, _))

theorem pushersRemembered_in_sample :
    ∃ s, (dataQueueSystem smallConfig).Reachable (ClearsForOne smallConfig) s ∧
      s.core.wait .suspendedPushList = [thirdThread] ∧
      (PushersRemembered s ∧ ∀ action, action.Enabled s →
        (PushersRemembered (execute smallConfig s action) ↔
          ClearsForOne smallConfig s action)) := by
  have hrun : (TransitionSystem.tryRun
      (fun s action => decide (Action.Enabled s action ∧ ClearsForOne smallConfig s action))
      (execute smallConfig)
      [.push firstThread ⟨8, 4⟩ 0, .push secondThread ⟨12, 4⟩ (-1), .pop firstThread 0,
        .resumed secondThread, .push thirdThread ⟨16, 4⟩ 5] sampleInit).map
      (fun s => s.core.wait .suspendedPushList) = some [thirdThread] := by
    decide
  obtain ⟨s, hreach, hvalue⟩ := TransitionSystem.exists_tryRun (ClearsForOne smallConfig)
    (init_sampleInit smallConfig) hrun
    fun _ _ htest => ⟨(of_decide_eq_true htest).2, (of_decide_eq_true htest).1, rfl⟩
  exact ⟨s, hreach, hvalue, pushersRemembered_of_clearsForOne smallConfig s hreach⟩

/-- Two pushes wait behind one flag, and the first pop clears it. -/
theorem pusher_forgotten :
    ∃ s, (dataQueueSystem smallConfig).Reachable (fun _ _ => True) s ∧
      s.core.wait .suspendedPushList = [thirdThread] ∧ ¬WakeUpPending s ∧ s.waitingLwm = false := by
  have hrun : (TransitionSystem.tryRun (fun s action => decide (Action.Enabled s action))
      (execute smallConfig)
      [.push firstThread ⟨8, 4⟩ 0, .push secondThread ⟨12, 4⟩ (-1),
        .push thirdThread ⟨16, 4⟩ (-1), .pop firstThread 0, .resumed secondThread]
      sampleInit).map
      (fun s => (s.core.wait .suspendedPushList, s.waitingLwm,
        (s.core.threads thirdThread).stat, s.frame)) =
      some ([thirdThread], false, .suspend, update (update
            (update (fun _ => none) secondThread (some ⟨.push ⟨12, 4⟩, -1⟩))
            thirdThread (some ⟨.push ⟨16, 4⟩, -1⟩))
          secondThread none) := by
    rfl
  obtain ⟨s, hreach, hvalues⟩ := TransitionSystem.exists_tryRun (fun _ _ => True)
    (init_sampleInit smallConfig) hrun
    fun _ _ htest => ⟨trivial, of_decide_eq_true htest, rfl⟩
  simp only [Prod.mk.injEq] at hvalues
  obtain ⟨hlist, hflag, hstat, hframe⟩ := hvalues
  refine ⟨s, hreach, hlist, ?_, hflag⟩
  rintro ⟨t, item, time, hsome, hready⟩
  by_cases hthird : t = thirdThread
  · rw [hthird, hstat] at hready
    cases hready
  · rw [hframe] at hsome
    by_cases hsecond : t = secondThread
    · simp [hsecond] at hsome
    · simp [update_of_ne hthird, update_of_ne hsecond] at hsome

end RtThread.DataQueue
