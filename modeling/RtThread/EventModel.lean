import RtThread.IpcModel
import RtThread.GuardedRun

/-!
# Events

An event object is a set of 32 bits.  A receiver asks for all or for any of some
bits and may clear them.  `rt_event_recv` tests and clears the bits when they are
there already, and `rt_event_send` does so for the waiting threads.
-/

namespace RtThread.Event

open Function Ipc

abbrev EventSet := BitVec 32

abbrev EventFlag := BitVec 8

def flagAnd : EventFlag := 0x01
def flagOr : EventFlag := 0x02
def flagClear : EventFlag := 0x04

/-- Bits handed to a thread: what it asked for, the set of the event object before
and after, and what is reported. -/
structure Delivery where
  thread : Thread
  request : EventSet
  option : EventFlag
  before : EventSet
  reported : EventSet
  after : EventSet

inductive LogEntry where
  | sent (bits : EventSet)
  | delivered (d : Delivery)

/-- A call of `rt_event_recv` which has returned `RT_EOK`, and the length of the
log when it was made. -/
structure Return where
  thread : Thread
  request : EventSet
  option : EventFlag
  reported : EventSet
  calledAt : ℕ

/-- An event object and its threads, with `event_set` and `event_info` of each.
`inRecv` holds for the threads behind `rt_schedule()` in `rt_event_recv`.  The
other members are history. -/
structure EventState where
  core : Core Unit
  set : EventSet
  eventSet : Thread → EventSet
  eventInfo : Thread → EventFlag
  inRecv : Thread → Bool
  request : Thread → EventSet
  calledAt : Thread → ℕ
  log : List LogEntry
  returns : List Return

/-- The test of `rt_event_recv`; without one of the two flags it fails, where
`RT_ASSERT` does not stop the call before. -/
def Satisfied (set request : EventSet) (option : EventFlag) : Prop :=
  if option &&& flagAnd ≠ 0 then set &&& request = request
  else if option &&& flagOr ≠ 0 then set &&& request ≠ 0
  else False

instance (set request : EventSet) (option : EventFlag) :
    Decidable (Satisfied set request option) := by
  unfold Satisfied
  infer_instance

def recvNow (set request : EventSet) (option : EventFlag) : Option (EventSet × EventSet) :=
  if Satisfied set request option then
    some (set &&& request, if option &&& flagClear ≠ 0 then set &&& ~~~request else set)
  else none

def rtEventRecv (flag : IpcFlag) (s : EventState) (t : Thread) (request : EventSet)
    (option : EventFlag) (timeout : ℤ) : EventState :=
  if request = 0 then s
  else
    let core := setError s.core t .eok
    match recvNow s.set request option with
    | some (reported, after) =>
      { s with
        core := core
        set := after
        log := s.log ++ [.delivered ⟨t, request, option, s.set, reported, after⟩]
        returns := ⟨t, request, option, reported, s.log.length⟩ :: s.returns }
    | none =>
      if timeout = 0 then { s with core := setError core t .etimeout }
      else
        { s with
          core := startTimer (rtIpcListSuspend core () flag t) t timeout
          eventSet := update s.eventSet t request
          eventInfo := update s.eventInfo t option
          inRecv := update s.inRecv t true
          request := update s.request t request
          calledAt := update s.calledAt t s.log.length }

/-- The end of `rt_event_recv` after `rt_schedule()`. -/
def returnFromRecv (s : EventState) (t : Thread) : EventState :=
  { s with
    inRecv := update s.inRecv t false
    returns :=
      if (s.core.threads t).error = .eok then
        ⟨t, s.request t, s.eventInfo t, s.eventSet t, s.calledAt t⟩ :: s.returns
      else s.returns }

/-- The test of `rt_event_send` for one waiting thread, with the `event_set` which
the thread is left with. -/
def sendCheck (set eventSet : EventSet) (info : EventFlag) : Option EventSet :=
  if info &&& flagAnd ≠ 0 then
    if eventSet &&& set = eventSet then some eventSet else none
  else if info &&& flagOr ≠ 0 then
    if eventSet &&& set ≠ 0 then some (eventSet &&& set) else none
  else none

def sendTo (s : EventState) (t : Thread) : EventState :=
  match sendCheck s.set (s.eventSet t) (s.eventInfo t) with
  | none => s
  | some reported =>
    let after := if s.eventInfo t &&& flagClear ≠ 0 then s.set &&& ~~~reported else s.set
    { s with
      core := rtThreadResume s.core t
      set := after
      eventSet := update s.eventSet t reported
      log := s.log ++ [.delivered ⟨t, s.eventSet t, s.eventInfo t, s.set, reported, after⟩] }

/-- `rt_event_send`; the cursor has moved on before a thread is unlinked, so each
thread of the list is visited once. -/
def rtEventSend (s : EventState) (bits : EventSet) : EventState :=
  if bits = 0 then s
  else
    (s.core.wait ()).foldl sendTo { s with set := s.set ||| bits, log := s.log ++ [.sent bits] }

inductive Action where
  | send (bits : EventSet)
  | recv (t : Thread) (request : EventSet) (option : EventFlag) (timeout : ℤ)
  | finish (t : Thread)
  | timeout (t : Thread)

def Action.Enabled (s : EventState) : Action → Prop
  | .send _ => True
  | .recv t _ _ _ => (s.core.threads t).stat = .ready ∧ s.inRecv t = false
  | .finish t => (s.core.threads t).stat = .ready ∧ s.inRecv t = true
  | .timeout t => (s.core.threads t).timerActive = true

def execute (flag : IpcFlag) (s : EventState) : Action → EventState
  | .send bits => rtEventSend s bits
  | .recv t request option timeout => rtEventRecv flag s t request option timeout
  | .finish t => returnFromRecv s t
  | .timeout t => { s with core := rtThreadTimeout s.core t }

def eventSystem (flag : IpcFlag) : TransitionSystem EventState Action where
  init s := s.core.wait () = [] ∧
    (∀ t, (s.core.threads t).stat = .ready ∧ (s.core.threads t).timerActive = false ∧
      s.inRecv t = false) ∧
    s.set = 0 ∧ s.log = [] ∧ s.returns = []
  step s action s' := action.Enabled s ∧ s' = execute flag s action

variable {set request : EventSet} {option : EventFlag}

theorem and_not_and_self (set request : EventSet) :
    set &&& ~~~(set &&& request) = set &&& ~~~request := by
  ext i hi
  simp only [BitVec.getElem_and, BitVec.getElem_not]
  cases set[i] <;> simp

theorem sendCheck_eq_recvNow (set request : EventSet) (option : EventFlag) :
    (sendCheck set request option).map
        (fun reported =>
          (reported, if option &&& flagClear ≠ 0 then set &&& ~~~reported else set)) =
      recvNow set request option := by
  unfold sendCheck recvNow Satisfied
  by_cases hand : option &&& flagAnd ≠ 0
  · simp only [if_pos hand, BitVec.and_comm request set]
    by_cases hall : set &&& request = request
    · simp [hall]
    · simp [hall]
  · simp only [if_neg hand]
    by_cases hor : option &&& flagOr ≠ 0
    · simp only [if_pos hor, BitVec.and_comm request set]
      by_cases hany : set &&& request ≠ 0
      · simp only [if_pos hany, Option.map_some, and_not_and_self]
      · simp only [if_neg hany, Option.map_none]
    · simp only [if_neg hor, if_false, Option.map_none]

theorem Satisfied.of_and {mask : EventSet} (hsat : Satisfied (set &&& mask) request option) :
    Satisfied set request option := by
  unfold Satisfied at hsat ⊢
  split_ifs at hsat ⊢
  · rw [← hsat]
    ext i hi
    simp only [BitVec.getElem_and]
    cases set[i] <;> simp
  · intro hzero
    apply hsat
    rw [BitVec.and_assoc, BitVec.and_comm mask, ← BitVec.and_assoc, hzero]
    exact BitVec.zero_and

end RtThread.Event
