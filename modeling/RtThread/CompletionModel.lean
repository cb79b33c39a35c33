import RtThread.BlockingCalls
import RtThread.GuardedRun

/-!
# Completions

A completion is a flag for which one thread may wait and which `rt_completion_done` sets.
`rt_completion_done` first looks at the flag with interrupts enabled.  A thread which has
been suspended clears the flag when it runs again, also after a timeout; a thread which
finds the flag set leaves it so.
-/

namespace RtThread.Completion

open Ipc

inductive CompletionFlag where
  | uncompleted
  | completed
  deriving DecidableEq

/-- A thread in `rt_completion_wait`: behind `rt_schedule()`, or with its result before the
section which clears the flag. -/
inductive Frame where
  | scheduled
  | clearing (result : ReturnCode)
  deriving DecidableEq

/-- A completion and the thread which waits for it; `core.wait ()` is `suspended_list`.
`entered` counts the calls of `rt_completion_done` between their test and their section.

History: the waits which returned `RT_EOK`, the changes of the flag from uncompleted to
completed, and whether such a change was made while no thread was suspended and no wait
has returned `RT_EOK` since. -/
structure CompletionState where
  core : Core Unit
  flag : CompletionFlag
  frame : Option Frame
  entered : ℕ
  okWaits : ℕ
  completions : ℕ
  unconsumed : Bool

/-- `rt_completion_wait` up to its `rt_schedule()`; `none` when the thread is suspended. -/
def rtCompletionWait (s : CompletionState) (thread : Thread) (timeout : ℤ) :
    CompletionState × Option ReturnCode :=
  if s.flag ≠ .completed then
    if timeout = 0 then (s, some .etimeout)
    else
      ({ s with
          core := startTimer
            (rtIpcListSuspend (setError s.core thread .eok) () .fifo thread) thread timeout
          frame := some .scheduled }, none)
  else (s, some .eok)

def readError (s : CompletionState) (thread : Thread) : CompletionState :=
  { s with frame := some (.clearing (.ofError (s.core.threads thread).error)) }

def clearFlag (s : CompletionState) (result : ReturnCode) : CompletionState × Option ReturnCode :=
  ({ s with flag := .uncompleted, frame := none }, some result)

def doneTest (s : CompletionState) : CompletionState :=
  if s.flag = .completed then s else { s with entered := s.entered + 1 }

def doneSection (s : CompletionState) : CompletionState :=
  { s with
    flag := .completed
    core := rtIpcListResume () s.core
    entered := s.entered - 1
    completions := if s.flag = .completed then s.completions else s.completions + 1
    unconsumed := if s.flag ≠ .completed ∧ s.core.wait () = [] then true else s.unconsumed }

def recordWait : CompletionState × Option ReturnCode → CompletionState
  | (s, some .eok) => { s with okWaits := s.okWaits + 1, unconsumed := false }
  | (s, _) => s

inductive Action where
  | wait (timeout : ℤ)
  | timeout
  | readError
  | clearFlag (result : ReturnCode)
  | doneTest
  | doneSection

def Action.Enabled (thread : Thread) (s : CompletionState) : Action → Prop
  | .wait _ => (s.core.threads thread).stat = .ready ∧ s.frame.isNone
  | .timeout => (s.core.threads thread).timerActive = true
  | .readError => (s.core.threads thread).stat = .ready ∧ s.frame = some .scheduled
  | .clearFlag result => s.frame = some (.clearing result)
  | .doneTest => True
  | .doneSection => 0 < s.entered

def execute (thread : Thread) (s : CompletionState) : Action → CompletionState
  | .wait timeout => recordWait (rtCompletionWait s thread timeout)
  | .timeout => { s with core := rtThreadTimeout s.core thread }
  | .readError => Completion.readError s thread
  | .clearFlag result => recordWait (Completion.clearFlag s result)
  | .doneTest => Completion.doneTest s
  | .doneSection => Completion.doneSection s

def completionSystem (thread : Thread) : TransitionSystem CompletionState Action where
  init s := s.core.wait () = [] ∧
    (∀ t, (s.core.threads t).stat = .ready ∧ (s.core.threads t).timerActive = false) ∧
    s.flag = .uncompleted ∧ s.frame.isNone ∧ s.entered = 0 ∧ s.okWaits = 0 ∧
    s.completions = 0 ∧ s.unconsumed = false
  step s action s' := action.Enabled thread s ∧ s' = execute thread s action

end RtThread.Completion
