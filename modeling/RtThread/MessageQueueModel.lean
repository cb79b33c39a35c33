import RtThread.BlockingCalls
import RtThread.GuardedRun
import RtThread.LinkedRing

/-!
# Message queues

The pool of a message queue is divided into slots, each a pointer with room for a
message behind it.  The pointers link the slots of the free list and those of the
queue.  `rt_mq_send`, `rt_mq_urgent` and `rt_mq_recv` have two sections each; between
them interrupts are enabled, the slot is on neither list and the message is copied.
-/

namespace RtThread.MessageQueue

open Function Ipc

/-- What `rt_mq_init` is given. -/
structure MqArea (a : AlignSize) where
  flag : IpcFlag
  msgpool : ℕ
  size : ℕ
  poolSize : ℕ
  msgpool_pos : 0 < msgpool
  fits : msgpool + poolSize ≤ 4294967296

namespace MqArea

variable {a : AlignSize} (area : MqArea a)

def msgSize : ℕ := rtAlign a area.size % 65536

/-- A message and its `struct rt_mq_message`. -/
def stride : ℕ := area.msgSize + 4

def maxMsgs : ℕ := area.poolSize / area.stride % 65536

def slot (i : ℕ) : ℕ := Word.add32 area.msgpool (Word.mul32 i area.stride)

def slots : List ℕ := (List.range area.maxMsgs).map area.slot

end MqArea

/-- The loop of `rt_mq_init`: the pointers of the slots, and `msg_queue_free`. -/
def initFree {a : AlignSize} (area : MqArea a) (next : ℕ → ℕ) : (ℕ → ℕ) × ℕ :=
  (List.range area.maxMsgs).foldl
    (fun list temp => (update list.1 (area.slot temp) list.2, area.slot temp))
    (next, rtNull)

/-- A call between its two sections, with the slot it holds.  `takenAt` is history: the
length of the log when the message was taken off the queue. -/
inductive Op where
  | send (urgent : Bool) (msg : ℕ) (buffer : List UInt8) (copied : Bool)
  | recv (msg : ℕ) (size : ℕ) (buffer : Option (List UInt8)) (takenAt : ℕ)
  deriving DecidableEq

def Op.msg : Op → ℕ
  | .send _ msg _ _ => msg
  | .recv msg _ _ _ => msg

inductive LogEntry where
  | linked (urgent : Bool) (buffer : List UInt8)
  | taken
  | reset

inductive Return where
  | send (code : ReturnCode)
  | recv (code : ReturnCode) (size : ℕ) (buffer : List UInt8) (takenAt : ℕ)

structure Frame where
  size : ℕ
  timeout : ℤ
  tickDelta : ℕ

/-- A message queue and its threads; `next` and `data` are the two parts of the slots.
The last two members are history. -/
structure MqState where
  core : Core Unit
  tick : ℕ
  next : ℕ → ℕ
  data : ℕ → List UInt8
  entry : ℕ
  msgQueueHead : ℕ
  msgQueueTail : ℕ
  msgQueueFree : ℕ
  frame : Thread → Option Frame
  ops : List Op
  log : List LogEntry
  returns : List Return

def takeFree (msgSize : ℕ) (urgent : Bool) (s : MqState) (buffer : List UInt8) : MqState :=
  if msgSize < buffer.length then { s with returns := .send .error :: s.returns }
  else if s.msgQueueFree = rtNull then { s with returns := .send .efull :: s.returns }
  else
    { s with
      msgQueueFree := s.next s.msgQueueFree
      ops := .send urgent s.msgQueueFree buffer false :: s.ops }

def rtMqSend (msgSize : ℕ) : MqState → List UInt8 → MqState := takeFree msgSize false

def rtMqUrgent (msgSize : ℕ) : MqState → List UInt8 → MqState := takeFree msgSize true

def rtMemcpy (dst src : List UInt8) : List UInt8 := src ++ dst.drop src.length

def copyIn (urgent : Bool) (s : MqState) (msg : ℕ) (buffer : List UInt8) : MqState :=
  { s with
    next := if urgent then s.next else update s.next msg rtNull
    data := update s.data msg (rtMemcpy (s.data msg) buffer) }

def linkBack (s : MqState) (msg : ℕ) : MqState :=
  { s with
    next := if s.msgQueueTail ≠ rtNull then update s.next s.msgQueueTail msg else s.next
    msgQueueTail := msg
    msgQueueHead := if s.msgQueueHead = rtNull then msg else s.msgQueueHead
    entry := Word.succ16 s.entry }

def linkFront (s : MqState) (msg : ℕ) : MqState :=
  { s with
    next := update s.next msg s.msgQueueHead
    msgQueueHead := msg
    msgQueueTail := if s.msgQueueTail = rtNull then msg else s.msgQueueTail
    entry := Word.succ16 s.entry }

def link (urgent : Bool) (s : MqState) (msg : ℕ) (buffer : List UInt8) : MqState :=
  let s := if urgent then linkFront s msg else linkBack s msg
  { s with
    core := rtIpcListResume () s.core
    log := s.log ++ [.linked urgent buffer]
    returns := .send .eok :: s.returns }

def unlinkHead (s : MqState) : MqState :=
  let msg := s.msgQueueHead
  { s with
    msgQueueHead := s.next msg
    msgQueueTail := if s.msgQueueTail = msg then rtNull else s.msgQueueTail }

def linkFree (s : MqState) (msg : ℕ) : MqState :=
  { s with
    next := update s.next msg s.msgQueueFree
    msgQueueFree := msg }

def recvLoop (flag : IpcFlag) (s : MqState) (t : Thread) (f : Frame) : MqState :=
  if s.entry = 0 then
    let s := { s with core := setError s.core t .eok }
    if f.timeout = 0 then
      { s with
        core := setError s.core t .etimeout
        returns := .recv .etimeout f.size [] 0 :: s.returns }
    else
      { s with
        core := startTimer (rtIpcListSuspend s.core () flag t) t f.timeout
        frame := update s.frame t
          (some { f with tickDelta := if 0 < f.timeout then s.tick else f.tickDelta }) }
  else
    { unlinkHead s with
      entry := Word.pred16 s.entry
      ops := .recv s.msgQueueHead f.size none s.log.length :: s.ops
      log := s.log ++ [.taken] }

def rtMqRecv (flag : IpcFlag) (s : MqState) (t : Thread) (size : ℕ) (timeout : ℤ) :
    MqState :=
  if s.entry = 0 ∧ timeout = 0 then
    { s with returns := .recv .etimeout size [] 0 :: s.returns }
  else recvLoop flag s t ⟨size, timeout, 0⟩

/-- `rt_mq_recv` behind `rt_schedule()`. -/
def resumed (flag : IpcFlag) (s : MqState) (t : Thread) (f : Frame) : MqState :=
  let s := { s with frame := update s.frame t none }
  let code := (s.core.threads t).error
  if code ≠ .eok then
    { s with returns := .recv (.ofError code) f.size [] 0 :: s.returns }
  else recvLoop flag s t { f with timeout := remaining f.timeout f.tickDelta s.tick }

def proceed (msgSize : ℕ) (s : MqState) (op : Op) : MqState :=
  let rest := s.ops.erase op
  match op with
  | .send urgent msg buffer false =>
    { copyIn urgent s msg buffer with ops := .send urgent msg buffer true :: rest }
  | .send urgent msg buffer true => { link urgent s msg buffer with ops := rest }
  | .recv msg size none takenAt =>
    { s with
      ops := .recv msg size (some ((s.data msg).take (min size msgSize))) takenAt :: rest }
  | .recv msg size (some buffer) takenAt =>
    { linkFree s msg with
      ops := rest
      returns := .recv .eok size buffer takenAt :: s.returns }

/-- The loop of `rt_mq_control`; `none` when it does not end within the given number of
rounds. -/
def releaseAll : ℕ → MqState → Option MqState
  | 0, s => if s.msgQueueHead = rtNull then some s else none
  | fuel + 1, s =>
    if s.msgQueueHead = rtNull then some s
    else releaseAll fuel (linkFree (unlinkHead s) s.msgQueueHead)

def rtMqReset (maxMsgs : ℕ) (s : MqState) : Option MqState := do
  let core ← rtIpcListResumeAll () (s.core.wait ()).length s.core
  let s ← releaseAll maxMsgs { s with core := core }
  some { s with entry := 0, log := s.log ++ [.reset] }

inductive Action where
  | send (buffer : List UInt8)
  | urgent (buffer : List UInt8)
  | recv (t : Thread) (size : ℕ) (timeout : ℤ)
  | resumed (t : Thread)
  | proceed (op : Op)
  | reset
  | timeout (t : Thread)
  | tick

/-- An interrupt handler receives in the name of the thread which it has interrupted, and
does not wait. -/
def Action.Enabled (s : MqState) : Action → Prop
  | .send _ => True
  | .urgent _ => True
  | .recv t _ time => time = 0 ∨ (s.core.threads t).stat = .ready ∧ (s.frame t).isNone
  | .resumed t => (s.core.threads t).stat = .ready ∧ (s.frame t).isSome
  | .proceed op => op ∈ s.ops
  | .reset => True
  | .timeout t => (s.core.threads t).timerActive = true
  | .tick => True

variable {a : AlignSize}

def execute (area : MqArea a) (s : MqState) : Action → Option MqState
  | .send buffer => some (rtMqSend area.msgSize s buffer)
  | .urgent buffer => some (rtMqUrgent area.msgSize s buffer)
  | .recv t size time => some (rtMqRecv area.flag s t size time)
  | .resumed t =>
    match s.frame t with
    | none => some s
    | some f => some (resumed area.flag s t f)
  | .proceed op => some (proceed area.msgSize s op)
  | .reset => rtMqReset area.maxMsgs s
  | .timeout t => some { s with core := rtThreadTimeout s.core t }
  | .tick => some { s with tick := Word.add32 s.tick 1 }

def mqSystem (area : MqArea a) : TransitionSystem MqState Action where
  init s := s.core.wait () = [] ∧
    (∀ t, (s.core.threads t).stat = .ready ∧ (s.core.threads t).timerActive = false ∧
      s.frame t = none) ∧
    (∃ next, initFree area next = (s.next, s.msgQueueFree)) ∧
    (∀ msg, (s.data msg).length = area.msgSize) ∧
    s.msgQueueHead = rtNull ∧ s.msgQueueTail = rtNull ∧ s.entry = 0 ∧
    s.ops = [] ∧ s.log = [] ∧ s.returns = []
  step s action s' := action.Enabled s ∧ execute area s action = some s'

end RtThread.MessageQueue
