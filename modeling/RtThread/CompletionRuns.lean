import RtThread.CompletionModel

/-!
# Completions and waits

A wait which finds the flag set does not clear it, so that the next wait finds it again.
A wait which has timed out clears it, so that a completion between the timeout and the end
of the wait is lost.  In a run without these two every wait which returns `RT_EOK` has a
completion of its own, and a completion is kept for the next wait.
-/

namespace RtThread.Completion

open Ipc TransitionSystem

/-- No completion has been consumed twice, and one which nobody has consumed is there for
the next wait. -/
def CountedCorrectly (thread : Thread) (s : CompletionState) : Prop :=
  s.okWaits ≤ s.completions ∧
    (s.unconsumed = true → ∀ timeout, (rtCompletionWait s thread timeout).2 = some .eok)

/-- A wait does not begin with a flag which an earlier wait has consumed, and one which has
timed out does not end with a flag which has been set since. -/
def FlagIsCurrent (s : CompletionState) : Action → Prop
  | .wait _ => s.flag = .completed → s.unconsumed = true
  | .clearFlag result => result ≠ .eok → s.flag ≠ .completed
  | _ => True

variable {thread : Thread} {s s' : CompletionState}

theorem wait_eok_iff (thread : Thread) (s : CompletionState) :
    (∀ timeout, (rtCompletionWait s thread timeout).2 = some .eok) ↔ s.flag = .completed := by
  unfold rtCompletionWait
  cases s.flag with
  | completed => simp
  | uncompleted =>
    simp only [ne_eq, reduceCtorEq, not_false_eq_true, if_true, iff_false, not_forall]
    exact ⟨0, by simp⟩

theorem recordWait_of_ne {result : ReturnCode} (hne : result ≠ .eok) :
    recordWait (s, some result) = s := by
  cases result with
  | eok => contradiction
  | error | etimeout | efull | eempty => rfl

theorem CompletionFlag.eq_uncompleted {flag : CompletionFlag} (hne : flag ≠ .completed) :
    flag = .uncompleted := by
  cases flag with
  | uncompleted => rfl
  | completed => contradiction

theorem nothing_of_kept (hkept : s.unconsumed = true → s.flag = .completed)
    (hflag : s.flag ≠ .completed) : s.unconsumed = false := by
  rw [← Bool.not_eq_true]
  exact fun hunconsumed => hflag (hkept hunconsumed)

/-- What is known of the completion while the thread is outside, suspended, resumed, or
timed out. -/
inductive Stage (thread : Thread) (s : CompletionState) : Prop where
  | idle (frame : s.frame = none) (empty : s.core.wait () = [])
      (counted : s.completions = s.okWaits + s.unconsumed.toNat)
      (kept : s.unconsumed = true → s.flag = .completed)
  | suspended (frame : s.frame = some .scheduled) (linked : s.core.wait () = [thread])
      (error : (s.core.threads thread).error = .eok)
      (flag : s.flag = .uncompleted)
      (counted : s.completions = s.okWaits)
      (nothing : s.unconsumed = false)
  | resumed (frame : s.frame = some .scheduled ∧ (s.core.threads thread).error = .eok ∨
        s.frame = some (.clearing .eok))
      (empty : s.core.wait () = [])
      (flag : s.flag = .completed)
      (counted : s.completions = s.okWaits + 1)
      (nothing : s.unconsumed = false)
  | timedOut (frame : s.frame = some .scheduled ∧ (s.core.threads thread).error ≠ .eok ∨
        ∃ result, s.frame = some (.clearing result) ∧ result ≠ .eok)
      (empty : s.core.wait () = [])
      (counted : s.completions = s.okWaits + s.unconsumed.toNat)
      (kept : s.unconsumed = true ↔ s.flag = .completed)

/-- The flag and the waiting thread agree at every stage of the wait. -/
structure CompletionInv (thread : Thread) (s : CompletionState) : Prop where
  linked : Linked s.core
  ready : s.core.wait () = [] → (s.core.threads thread).stat = .ready
  stage : Stage thread s

namespace CompletionInv

section

variable (hinv : CompletionInv thread s)
include hinv

theorem countedCorrectly : CountedCorrectly thread s := by
  unfold CountedCorrectly
  rw [wait_eok_iff]
  cases hinv.stage with
  | idle _ _ counted kept => exact ⟨by omega, kept⟩
  | suspended _ _ _ _ counted nothing => exact ⟨counted.ge, by simp [nothing]⟩
  | resumed _ _ _ counted nothing => exact ⟨by omega, by simp [nothing]⟩
  | timedOut _ _ counted kept => exact ⟨by omega, kept.mp⟩

theorem outside (hframe : s.frame = none) :
    s.core.wait () = [] ∧ s.completions = s.okWaits + s.unconsumed.toNat ∧
      (s.unconsumed = true → s.flag = .completed) := by
  cases hinv.stage with
  | idle _ empty counted kept => exact ⟨empty, counted, kept⟩
  | suspended frame | resumed frame | timedOut frame => simp [hframe] at frame

theorem suspend (hempty : s.core.wait () = [])
    (hflag : s.flag = .uncompleted) (hcounted : s.completions = s.okWaits)
    (hnothing : s.unconsumed = false) (timeout : ℤ) :
    CompletionInv thread { s with
      core := asleep (setError s.core thread .eok) () .fifo thread timeout
      frame := some .scheduled } := by
  have hready : ((setError s.core thread .eok).threads thread).stat = .ready := by
    rw [setError_stat]
    exact hinv.ready hempty
  obtain ⟨-, herror, -, -⟩ := asleep_threads () .fifo timeout hready
  have hlist : (asleep (setError s.core thread .eok) () .fifo thread timeout).wait () =
      [thread] := by
    rw [asleep_wait_self]
    simp [enqueue, setError, Core.setThread, hempty]
  refine ⟨(hinv.linked.setError thread .eok).asleep hready, ?_, ?_⟩
  · intro hnil
    rw [hlist] at hnil
    cases hnil
  · refine .suspended rfl hlist (herror.trans ?_) hflag hcounted hnothing
    simp [setError, Core.setThread]

theorem wait (hframe : s.frame = none) (timeout : ℤ) (hcurrent : FlagIsCurrent s (.wait timeout)) :
    CompletionInv thread (recordWait (rtCompletionWait s thread timeout)) := by
  obtain ⟨hempty, hcounted, hkept⟩ := hinv.outside hframe
  unfold rtCompletionWait
  by_cases hflag : s.flag = .completed
  · have hfresh := hcurrent hflag
    rw [if_neg (not_not.mpr hflag)]
    refine ⟨hinv.linked, hinv.ready, .idle hframe hempty ?_ ?_⟩
    · simpa [recordWait, hfresh] using hcounted
    · simp [recordWait]
  · rw [if_pos hflag]
    by_cases htime : timeout = 0
    · rw [if_pos htime]
      exact hinv
    · rw [if_neg htime]
      have hnothing := nothing_of_kept hkept hflag
      exact hinv.suspend hempty (CompletionFlag.eq_uncompleted hflag)
        (by simpa [hnothing] using hcounted) hnothing timeout

theorem timeout (hactive : (s.core.threads thread).timerActive = true) :
    CompletionInv thread { s with core := rtThreadTimeout s.core thread } := by
  have hsuspended := hinv.linked.timer thread hactive
  have hne : s.core.wait () ≠ [] := by
    intro hempty
    rw [hinv.ready hempty] at hsuspended
    exact ThreadStat.noConfusion hsuspended
  cases hinv.stage with
  | idle _ empty | resumed _ empty | timedOut _ empty => exact absurd empty hne
  | suspended frame linked error flag counted nothing =>
    simp only [rtThreadTimeout_eq]
    refine ⟨hinv.linked.woken thread _, fun _ => by rw [woken_self], ?_⟩
    refine .timedOut (.inl ⟨frame, ?_⟩) ?_ ?_ ?_
    · simp [woken_self]
    · simp [woken_wait, linked]
    · simpa [nothing] using counted
    · simp [nothing, flag]

theorem readError (hready : (s.core.threads thread).stat = .ready)
    (hframe : s.frame = some .scheduled) :
    CompletionInv thread (Completion.readError s thread) := by
  refine ⟨hinv.linked, hinv.ready, ?_⟩
  cases hinv.stage with
  | idle frame => simp [hframe] at frame
  | suspended _ linked =>
    have hstat := hinv.linked.suspended () thread (by simp [linked])
    rw [hready] at hstat
    exact ThreadStat.noConfusion hstat
  | resumed frame empty flag counted nothing =>
    have herror : (s.core.threads thread).error = .eok := by simpa [hframe] using frame
    refine .resumed (.inr ?_) empty flag counted nothing
    simp [Completion.readError, herror, ReturnCode.ofError]
  | timedOut frame empty counted kept =>
    have herror : (s.core.threads thread).error ≠ .eok := by simpa [hframe] using frame
    exact .timedOut (.inr ⟨_, rfl, ReturnCode.ofError_ne_eok herror⟩) empty counted kept

theorem clearFlag {result : ReturnCode}
    (hframe : s.frame = some (.clearing result)) (hcurrent : FlagIsCurrent s (.clearFlag result)) :
    CompletionInv thread (recordWait (Completion.clearFlag s result)) := by
  cases hinv.stage with
  | idle frame | suspended frame => simp [hframe] at frame
  | resumed frame empty flag counted nothing =>
    have hresult : result = .eok := by simpa [hframe] using frame
    subst hresult
    refine ⟨hinv.linked, hinv.ready, .idle rfl empty counted ?_⟩
    simp [recordWait, Completion.clearFlag]
  | timedOut frame empty counted kept =>
    have hresult : result ≠ .eok := by simpa [hframe] using frame
    have hnothing := nothing_of_kept kept.mp (hcurrent hresult)
    rw [Completion.clearFlag, recordWait_of_ne hresult]
    exact ⟨hinv.linked, hinv.ready, .idle rfl empty counted (by simp [hnothing])⟩

theorem doneTest : CompletionInv thread (Completion.doneTest s) := by
  unfold Completion.doneTest
  split_ifs
  · exact hinv
  · refine ⟨hinv.linked, hinv.ready, ?_⟩
    cases hinv.stage with
    | idle frame empty counted kept => exact .idle frame empty counted kept
    | suspended frame linked error flag counted nothing =>
      exact .suspended frame linked error flag counted nothing
    | resumed frame empty flag counted nothing =>
      exact .resumed frame empty flag counted nothing
    | timedOut frame empty counted kept => exact .timedOut frame empty counted kept

end

theorem doneSection_counted (hempty : s.core.wait () = [])
    (hcounted : s.completions = s.okWaits + s.unconsumed.toNat)
    (hkept : s.unconsumed = true → s.flag = .completed) : (Completion.doneSection s).completions =
      (Completion.doneSection s).okWaits + (Completion.doneSection s).unconsumed.toNat := by
  unfold doneSection
  by_cases hflag : s.flag = .completed
  · simpa [hflag] using hcounted
  · have hnothing := nothing_of_kept hkept hflag
    simpa [hflag, hempty, hnothing] using hcounted

theorem doneSection_core_of_empty (hempty : s.core.wait () = []) :
    (Completion.doneSection s).core = s.core := by
  simp only [Completion.doneSection, rtIpcListResume, hempty]

theorem doneSection (hinv : CompletionInv thread s) :
    CompletionInv thread (Completion.doneSection s) := by
  have hlinked : Linked (Completion.doneSection s).core := hinv.linked.rtIpcListResume ()
  cases hinv.stage with
  | idle frame empty counted kept =>
    have hcore := doneSection_core_of_empty empty
    refine ⟨hlinked, fun _ => by rw [hcore, hinv.ready empty], ?_⟩
    refine .idle frame ?_ (doneSection_counted empty counted kept) fun _ => rfl
    rw [hcore, empty]
  | suspended frame linked error flag counted nothing =>
    have hmem : thread ∈ s.core.wait () := by simp [linked]
    have hcore : (Completion.doneSection s).core = woken s.core thread .eok := by
      simp only [Completion.doneSection, rtIpcListResume, linked,
        hinv.linked.rtThreadResume_eq hmem, error]
    refine ⟨hlinked, fun _ => by rw [hcore, woken_self], ?_⟩
    refine .resumed (.inl ⟨frame, ?_⟩) ?_ rfl ?_ ?_
    · rw [hcore, woken_self]
    · rw [hcore, woken_wait, linked, List.erase_cons_head]
    · simpa [Completion.doneSection, flag] using counted
    · simpa [Completion.doneSection, flag, linked] using nothing
  | resumed frame empty flag counted nothing =>
    have hcore := doneSection_core_of_empty empty
    refine ⟨hlinked, fun _ => by rw [hcore, hinv.ready empty], ?_⟩
    refine .resumed ?_ ?_ rfl ?_ ?_
    · rw [hcore]
      exact frame
    · rw [hcore, empty]
    · simpa [Completion.doneSection, flag] using counted
    · simpa [Completion.doneSection, flag] using nothing
  | timedOut frame empty counted kept =>
    have hcore := doneSection_core_of_empty empty
    refine ⟨hlinked, fun _ => by rw [hcore, hinv.ready empty], ?_⟩
    refine .timedOut ?_ ?_ (doneSection_counted empty counted kept.mp) (iff_of_true ?_ rfl)
    · rw [hcore]
      exact frame
    · rw [hcore, empty]
    · by_cases hflag : s.flag = .completed
      · simpa [Completion.doneSection, hflag] using kept.mpr hflag
      · simp [Completion.doneSection, hflag, empty]

theorem execute {action : Action} (hinv : CompletionInv thread s)
    (henabled : action.Enabled thread s) (hcurrent : FlagIsCurrent s action) :
    CompletionInv thread (execute thread s action) := by
  cases action with
  | wait timeout =>
    exact hinv.wait (Option.isNone_iff_eq_none.mp henabled.2) timeout hcurrent
  | timeout => exact hinv.timeout henabled
  | readError => exact hinv.readError henabled.1 henabled.2
  | clearFlag result => exact hinv.clearFlag henabled hcurrent
  | doneTest => exact hinv.doneTest
  | doneSection => exact hinv.doneSection

theorem flagIsCurrent {action : Action} (hinv : CompletionInv thread s)
    (henabled : action.Enabled thread s)
    (hcorrect : CountedCorrectly thread (Completion.execute thread s action)) :
    FlagIsCurrent s action := by
  cases action with
  | wait timeout =>
    intro hflag
    obtain ⟨-, hcounted, -⟩ := hinv.outside (Option.isNone_iff_eq_none.mp henabled.2)
    have hle := hcorrect.1
    have hresult : rtCompletionWait s thread timeout = (s, some .eok) := by
      unfold rtCompletionWait
      rw [if_neg (not_not.mpr hflag)]
    simp only [Completion.execute, hresult, recordWait, hcounted] at hle
    by_contra hnothing
    rw [Bool.not_eq_true] at hnothing
    simp [hnothing] at hle
  | clearFlag result =>
    intro hresult hflag
    have hframe : s.frame = some (.clearing result) := henabled
    have hkept : s.unconsumed = true := by
      cases hinv.stage with
      | idle frame | suspended frame => simp [hframe] at frame
      | resumed frame => simp [hframe, hresult] at frame
      | timedOut _ _ _ kept => exact kept.mpr hflag
    simp only [Completion.execute, Completion.clearFlag, recordWait_of_ne hresult] at hcorrect
    have hcleared := (wait_eok_iff thread _).mp (hcorrect.2 hkept)
    exact CompletionFlag.noConfusion hcleared
  | timeout | readError | doneTest | doneSection => trivial

end CompletionInv

/-- In every run in which the flag is current, the completions are counted correctly; and
such a run stays so by exactly these steps. -/
theorem countedCorrectly_of_flagIsCurrent (thread : Thread) (s : CompletionState)
    (hreach : (completionSystem thread).Reachable FlagIsCurrent s) :
    CountedCorrectly thread s ∧ ∀ action, action.Enabled thread s →
      (CountedCorrectly thread (execute thread s action) ↔ FlagIsCurrent s action) := by
  have hinv : CompletionInv thread s := by
    apply hreach.invariant (P := CompletionInv thread)
    · rintro s ⟨hempty, hthreads, -, hframe, -, hok, hcompletions, hunconsumed⟩
      refine ⟨.of_empty (fun _ => hempty) fun t => (hthreads t).2, fun _ => (hthreads thread).1, ?_⟩
      refine .idle (Option.isNone_iff_eq_none.mp hframe) hempty ?_ ?_
      · simp [hok, hcompletions, hunconsumed]
      · simp [hunconsumed]
    · rintro s action s' hinv hguard ⟨henabled, rfl⟩
      exact hinv.execute henabled hguard
  refine ⟨hinv.countedCorrectly, fun action henabled => ⟨?_, ?_⟩⟩
  · exact hinv.flagIsCurrent henabled
  · intro hcurrent
    exact (hinv.execute henabled hcurrent).countedCorrectly

instance (thread : Thread) (s : CompletionState) (action : Action) :
    Decidable (action.Enabled thread s) :=
  match action with
  | .wait _ => inferInstanceAs (Decidable (_ ∧ _))
  | .timeout => inferInstanceAs (Decidable (_ = _))
  | .readError => inferInstanceAs
      (Decidable ((s.core.threads thread).stat = .ready ∧ s.frame = some .scheduled))
  | .clearFlag _ => inferInstanceAs (Decidable (_ = _))
  | .doneTest => inferInstanceAs (Decidable True)
  | .doneSection => inferInstanceAs (Decidable (0 < s.entered))

instance (s : CompletionState) (action : Action) : Decidable (FlagIsCurrent s action) :=
  match action with
  | .wait _ => inferInstanceAs (Decidable (_ → _))
  | .clearFlag _ => inferInstanceAs (Decidable (_ → _))
  | .timeout => inferInstanceAs (Decidable True)
  | .readError => inferInstanceAs (Decidable True)
  | .doneTest => inferInstanceAs (Decidable True)
  | .doneSection => inferInstanceAs (Decidable True)

def sampleInit : CompletionState where
  core := ⟨fun _ => ⟨.ready, .eok, 10, false⟩, fun _ => []⟩
  flag := .uncompleted
  frame := none
  entered := 0
  okWaits := 0
  completions := 0
  unconsumed := false

theorem init_sampleInit : (completionSystem firstThread).init sampleInit :=
  ⟨rfl, fun _ => ⟨rfl, rfl⟩, rfl, rfl, rfl, rfl, rfl, rfl⟩

theorem countedCorrectly_in_sample : ∃ s, (completionSystem firstThread).Reachable FlagIsCurrent s ∧
      s.okWaits = 2 ∧ s.completions = 2 ∧
      (CountedCorrectly firstThread s ∧ ∀ action, action.Enabled firstThread s →
        (CountedCorrectly firstThread (execute firstThread s action) ↔
          FlagIsCurrent s action)) := by
  have hrun : (tryRun
      (fun s action => decide (action.Enabled firstThread s ∧ FlagIsCurrent s action))
      (execute firstThread)
      [.wait (-1), .doneTest, .doneSection, .readError, .clearFlag .eok, .wait 5, .timeout,
        .readError, .clearFlag .etimeout, .doneTest, .doneSection, .wait 0] sampleInit).map
      (fun s => (s.okWaits, s.completions)) = some (2, 2) := by
    decide
  obtain ⟨s, hreach, hvalue⟩ := exists_tryRun FlagIsCurrent init_sampleInit
    hrun fun _ _ htest => ⟨(of_decide_eq_true htest).2, (of_decide_eq_true htest).1, rfl⟩
  rw [Prod.mk.injEq] at hvalue
  exact ⟨s, hreach, hvalue.1, hvalue.2, countedCorrectly_of_flagIsCurrent firstThread s hreach⟩

/-- Two waits return `RT_EOK` for one completion; and a completion between a timeout and the
end of the wait is not there for the next one. -/
theorem completion_consumed_twice :
    (∃ s, (completionSystem firstThread).Reachable (fun _ _ => True) s ∧
      s.okWaits = 2 ∧ s.completions = 1) ∧
    ∃ s, (completionSystem firstThread).Reachable (fun _ _ => True) s ∧
      s.frame = none ∧ s.unconsumed = true ∧
      (rtCompletionWait s firstThread 0).2 = some .etimeout := by
  constructor
  · have hrun : (tryRun
        (fun s action => decide (action.Enabled firstThread s)) (execute firstThread)
        [.doneTest, .doneSection, .wait 0, .wait 0] sampleInit).map
        (fun s => (s.okWaits, s.completions)) = some (2, 1) := by
      decide
    obtain ⟨s, hreach, hvalue⟩ := exists_tryRun (fun _ _ => True)
      init_sampleInit hrun fun _ _ htest => ⟨trivial, of_decide_eq_true htest, rfl⟩
    rw [Prod.mk.injEq] at hvalue
    exact ⟨s, hreach, hvalue⟩
  · have hrun : (tryRun
        (fun s action => decide (action.Enabled firstThread s)) (execute firstThread)
        [.wait 5, .timeout, .doneTest, .doneSection, .readError, .clearFlag .etimeout]
        sampleInit).map
        (fun s => (s.frame, s.unconsumed, (rtCompletionWait s firstThread 0).2)) =
        some (none, true, some .etimeout) := by
      decide
    obtain ⟨s, hreach, hvalue⟩ := exists_tryRun (fun _ _ => True)
      init_sampleInit hrun fun _ _ htest => ⟨trivial, of_decide_eq_true htest, rfl⟩
    simp only [Prod.mk.injEq] at hvalue
    exact ⟨s, hreach, hvalue⟩

end RtThread.Completion
