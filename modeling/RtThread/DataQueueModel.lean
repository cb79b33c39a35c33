import RtThread.BlockingCalls
import RtThread.GuardedRun

/-!
# Data queues of the device drivers

`dataqueue.c` keeps pairs of a pointer and a size in an array.  The indices count up
and wrap around with 16 bits; a slot is selected by the mask `size - 1`, and the queue
is full when the difference of the indices, taken as signed numbers, is `size`.  The
processor's interrupt level is part of the model, since a call has to restore it.
-/

namespace RtThread.DataQueue

open Ipc

/-- What `rt_data_queue_init` accepts; it cannot allocate an array of size zero. -/
structure DataQueueConfig where
  size : ℕ
  lwm : ℕ
  size_pos : 0 < size
  size_lt : size < 65536
  lwm_lt : lwm < 65536

/-- `struct rt_data_item`. -/
structure DataItem where
  dataPtr : UInt32
  dataSize : UInt32
  deriving DecidableEq

inductive WaitList where
  | suspendedPushList
  | suspendedPopList
  deriving DecidableEq

inductive Call where
  | push (item : DataItem)
  | pop
  deriving DecidableEq

structure Frame where
  call : Call
  timeout : ℤ

/-- A data queue and its threads.  The last two members are history: the items stored by
the pushes and those returned by the pops. -/
structure DataQueueState where
  core : Core WaitList
  queue : ℕ → DataItem
  waitingLwm : Bool
  getIndex : ℕ
  putIndex : ℕ
  frame : Thread → Option Frame
  pushed : List DataItem
  popped : List DataItem

inductive IrqLevel where
  | enabled
  | disabled
  deriving DecidableEq

def rtHwInterruptDisable (irq : IrqLevel) : IrqLevel × IrqLevel := (irq, .disabled)

def rtHwInterruptEnable (level : IrqLevel) : IrqLevel := level

inductive Outcome where
  | suspended (irq : IrqLevel)
  | returned (code : ReturnCode) (item : Option DataItem) (irq : IrqLevel)
  deriving DecidableEq

/-- `put_index - get_index`, promoted to signed numbers. -/
def indexDifference (s : DataQueueState) : ℤ := (s.putIndex : ℤ) - s.getIndex

/-- `size - 1`, the mask of both calls. -/
def mask (c : DataQueueConfig) : ℕ := c.size - 1

def putItem (c : DataQueueConfig) (s : DataQueueState) (item : DataItem) : DataQueueState :=
  { s with
    queue := Function.update s.queue (s.putIndex &&& mask c) item
    putIndex := Word.succ16 s.putIndex
    pushed := s.pushed ++ [item] }

def headItem (c : DataQueueConfig) (s : DataQueueState) : DataItem :=
  s.queue (s.getIndex &&& mask c)

def getItem (c : DataQueueConfig) (s : DataQueueState) : DataQueueState :=
  { s with
    getIndex := Word.succ16 s.getIndex
    popped := s.popped ++ [headItem c s] }

def suspendOn (s : DataQueueState) (k : WaitList) (t : Thread) (f : Frame) : DataQueueState :=
  { s with
    core := startTimer (rtIpcListSuspend (setError s.core t .eok) k .fifo t) t f.timeout
    frame := Function.update s.frame t (some f) }

/-- `rt_data_queue_push` from the test of its loop on, with interrupts disabled and the
level saved in `level`. -/
def pushLoop (c : DataQueueConfig) (s : DataQueueState) (t : Thread) (item : DataItem)
    (timeout : ℤ) (level : IrqLevel) : DataQueueState × Outcome :=
  if indexDifference s = c.size then
    let s := { s with waitingLwm := true }
    if timeout = 0 then (s, .returned .etimeout none (rtHwInterruptEnable level))
    else
      (suspendOn s .suspendedPushList t ⟨.push item, timeout⟩,
        .suspended (rtHwInterruptEnable level))
  else
    let s := putItem c s item
    ({ s with core := rtIpcListResume .suspendedPopList s.core },
      .returned .eok none (rtHwInterruptEnable level))

/-- `rt_data_queue_pop` from the test of its loop on.  `irq` is the interrupt level then. -/
def popLoop (c : DataQueueConfig) (s : DataQueueState) (t : Thread) (timeout : ℤ)
    (level irq : IrqLevel) : DataQueueState × Outcome :=
  if s.getIndex = s.putIndex then
    if timeout = 0 then (s, .returned .etimeout none (rtHwInterruptEnable level))
    else
      (suspendOn s .suspendedPopList t ⟨.pop, timeout⟩, .suspended (rtHwInterruptEnable level))
  else
    let item := headItem c s
    let s := getItem c s
    if s.waitingLwm = true ∧ indexDifference s ≤ c.lwm then
      let s := { s with waitingLwm := false }
      if s.core.wait .suspendedPushList ≠ [] then
        ({ s with core := rtIpcListResume .suspendedPushList s.core },
          .returned .eok (some item) (rtHwInterruptEnable level))
      else
        -- The early return of the source, without `rt_hw_interrupt_enable`.
        (s, .returned .eok (some item) irq)
    else (s, .returned .eok (some item) (rtHwInterruptEnable level))

/-- A call up to `rt_schedule()`. -/
def callSection (c : DataQueueConfig) (s : DataQueueState) (t : Thread) (f : Frame)
    (irq : IrqLevel) : DataQueueState × Outcome :=
  let (level, irq) := rtHwInterruptDisable irq
  match f.call with
  | .push item => pushLoop c s t item f.timeout level
  | .pop => popLoop c s t f.timeout level irq

def rtDataQueuePush (c : DataQueueConfig) (s : DataQueueState) (t : Thread) (item : DataItem)
    (timeout : ℤ) (irq : IrqLevel) : DataQueueState × Outcome :=
  callSection c s t ⟨.push item, timeout⟩ irq

def rtDataQueuePop (c : DataQueueConfig) (s : DataQueueState) (t : Thread) (timeout : ℤ)
    (irq : IrqLevel) : DataQueueState × Outcome :=
  callSection c s t ⟨.pop, timeout⟩ irq

/-- A call behind `rt_schedule()`. -/
def resumedSection (c : DataQueueConfig) (s : DataQueueState) (t : Thread) (f : Frame)
    (irq : IrqLevel) : DataQueueState × Outcome :=
  let s := { s with frame := Function.update s.frame t none }
  let result := (s.core.threads t).error
  if result ≠ .eok then
    let (level, _) := rtHwInterruptDisable irq
    (s, .returned (.ofError result) none (rtHwInterruptEnable level))
  else callSection c s t f irq

def rtDataQueuePeak (c : DataQueueConfig) (s : DataQueueState) (irq : IrqLevel) : Outcome :=
  let (level, _) := rtHwInterruptDisable irq
  if s.getIndex = s.putIndex then .returned .eempty none (rtHwInterruptEnable level)
  else .returned .eok (some (headItem c s)) (rtHwInterruptEnable level)

inductive Action where
  | push (t : Thread) (item : DataItem) (timeout : ℤ)
  | pop (t : Thread) (timeout : ℤ)
  | resumed (t : Thread)
  | timeout (t : Thread)

def MayCall (s : DataQueueState) (t : Thread) (timeout : ℤ) : Prop :=
  timeout = 0 ∨ (s.core.threads t).stat = .ready ∧ (s.frame t).isNone

def Action.Enabled (s : DataQueueState) : Action → Prop
  | .push t _ time => MayCall s t time
  | .pop t time => MayCall s t time
  | .resumed t => (s.core.threads t).stat = .ready ∧ (s.frame t).isSome
  | .timeout t => (s.core.threads t).timerActive = true

def execute (c : DataQueueConfig) (s : DataQueueState) : Action → DataQueueState
  | .push t item time => (rtDataQueuePush c s t item time .enabled).1
  | .pop t time => (rtDataQueuePop c s t time .enabled).1
  | .resumed t =>
    match s.frame t with
    | none => s
    | some f => (resumedSection c s t f .enabled).1
  | .timeout t => { s with core := rtThreadTimeout s.core t }

def dataQueueSystem (c : DataQueueConfig) : TransitionSystem DataQueueState Action where
  init s := (∀ k, s.core.wait k = []) ∧
    (∀ t, (s.core.threads t).stat = .ready ∧ (s.core.threads t).timerActive = false ∧
      s.frame t = none) ∧
    s.waitingLwm = false ∧ s.getIndex = 0 ∧ s.putIndex = 0 ∧
    s.pushed = [] ∧ s.popped = []
  step s action s' := action.Enabled s ∧ s' = execute c s action

end RtThread.DataQueue
