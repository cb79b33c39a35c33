import RtThread.BlockingCalls
import RtThread.CircularBuffer
import RtThread.GuardedRun

/-!
# Mailboxes

A mailbox keeps words in a circular buffer and has a list of suspended receivers
and one of suspended senders.  A call runs with interrupts disabled up to
`rt_schedule()`; behind it the thread looks at the mailbox again and may have to
wait once more.
-/

namespace RtThread.Mailbox

open Ipc CircularBuffer

/-- What `rt_mb_init` is given. -/
structure MailboxConfig where
  size : ℕ
  flag : IpcFlag
  size_pos : 0 < size
  size_le : size ≤ 65535

inductive WaitList where
  | suspendThread
  | suspendSenderThread
  deriving DecidableEq

inductive Call where
  | send (value : UInt32)
  | recv

/-- The arguments and local variables of a call.  The last two members are history:
the mails which the call has put in and taken out so far. -/
structure Frame where
  call : Call
  timeout : ℤ
  tickDelta : ℕ
  stored : List UInt32
  removed : List UInt32

structure Return where
  call : Call
  code : ReturnCode
  value : Option UInt32
  stored : List UInt32
  removed : List UInt32

/-- A mailbox and its threads.  `frame` is set for the threads behind
`rt_schedule()`.  The last three members are history. -/
structure MailboxState where
  core : Core WaitList
  tick : ℕ
  msgPool : ℕ → UInt32
  entry : ℕ
  inOffset : ℕ
  outOffset : ℕ
  frame : Thread → Option Frame
  stored : List UInt32
  removed : List UInt32
  returns : List Return

/-- `++ offset`, and back to zero at the end of the pool. -/
def nextOffset (size offset : ℕ) : ℕ :=
  let offset := Word.succ16 offset
  if size ≤ offset then 0 else offset

def storeMail (c : MailboxConfig) (s : MailboxState) (value : UInt32) : MailboxState :=
  { s with
    msgPool := Function.update s.msgPool s.inOffset value
    inOffset := nextOffset c.size s.inOffset
    entry := Word.succ16 s.entry
    stored := s.stored ++ [value] }

def removeMail (c : MailboxConfig) (s : MailboxState) : MailboxState :=
  { s with
    outOffset := nextOffset c.size s.outOffset
    entry := Word.pred16 s.entry
    removed := s.removed ++ [s.msgPool s.outOffset] }

def unread (c : MailboxConfig) (s : MailboxState) : List UInt32 :=
  window s.msgPool c.size s.outOffset s.entry

def returned (s : MailboxState) (f : Frame) (code : ReturnCode) (value : Option UInt32) :
    MailboxState :=
  { s with returns := s.returns ++ [⟨f.call, code, value, f.stored, f.removed⟩] }

def suspendOn (c : MailboxConfig) (s : MailboxState) (k : WaitList) (t : Thread) (f : Frame) :
    MailboxState :=
  { s with
    core := startTimer (rtIpcListSuspend s.core k c.flag t) t f.timeout
    frame := Function.update s.frame t
      (some { f with tickDelta := if 0 < f.timeout then s.tick else f.tickDelta }) }

def sendLoop (c : MailboxConfig) (s : MailboxState) (t : Thread) (f : Frame) (value : UInt32) :
    MailboxState :=
  if s.entry = c.size then
    let s := { s with core := setError s.core t .eok }
    if f.timeout = 0 then returned s f .efull none
    else suspendOn c s .suspendSenderThread t f
  else
    let s := storeMail c s value
    let s := { s with core := rtIpcListResume .suspendThread s.core }
    returned s { f with stored := f.stored ++ [value] } .eok none

def recvLoop (c : MailboxConfig) (s : MailboxState) (t : Thread) (f : Frame) : MailboxState :=
  if s.entry = 0 then
    let s := { s with core := setError s.core t .eok }
    if f.timeout = 0 then
      returned { s with core := setError s.core t .etimeout } f .etimeout none
    else suspendOn c s .suspendThread t f
  else
    let value := s.msgPool s.outOffset
    let s := removeMail c s
    let s := { s with core := rtIpcListResume .suspendSenderThread s.core }
    returned s { f with removed := f.removed ++ [value] } .eok (some value)

def loop (c : MailboxConfig) (s : MailboxState) (t : Thread) (f : Frame) : MailboxState :=
  match f.call with
  | .send value => sendLoop c s t f value
  | .recv => recvLoop c s t f

def rtMbSendWait (c : MailboxConfig) (s : MailboxState) (t : Thread) (value : UInt32)
    (timeout : ℤ) : MailboxState :=
  let f : Frame := ⟨.send value, timeout, 0, [], []⟩
  if s.entry = c.size ∧ timeout = 0 then returned s f .efull none
  else loop c s t f

def rtMbSend (c : MailboxConfig) (s : MailboxState) (t : Thread) (value : UInt32) :
    MailboxState :=
  rtMbSendWait c s t value 0

def rtMbRecv (c : MailboxConfig) (s : MailboxState) (t : Thread) (timeout : ℤ) :
    MailboxState :=
  let f : Frame := ⟨.recv, timeout, 0, [], []⟩
  if s.entry = 0 ∧ timeout = 0 then returned s f .etimeout none
  else loop c s t f

/-- Both calls behind `rt_schedule()`. -/
def resumed (c : MailboxConfig) (s : MailboxState) (t : Thread) (f : Frame) : MailboxState :=
  let s := { s with frame := Function.update s.frame t none }
  let code := (s.core.threads t).error
  if code ≠ .eok then returned s f (.ofError code) none
  else loop c s t { f with timeout := remaining f.timeout f.tickDelta s.tick }

inductive Action where
  | send (t : Thread) (value : UInt32)
  | sendWait (t : Thread) (value : UInt32) (timeout : ℤ)
  | recv (t : Thread) (timeout : ℤ)
  | resumed (t : Thread)
  | timeout (t : Thread)
  | tick

def MayCall (s : MailboxState) (t : Thread) (timeout : ℤ) : Prop :=
  timeout = 0 ∨ (s.core.threads t).stat = .ready ∧ (s.frame t).isNone

def Action.Enabled (s : MailboxState) : Action → Prop
  | .send t _ => MayCall s t 0
  | .sendWait t _ time => MayCall s t time
  | .recv t time => MayCall s t time
  | .resumed t => (s.core.threads t).stat = .ready ∧ (s.frame t).isSome
  | .timeout t => (s.core.threads t).timerActive = true
  | .tick => True

def execute (c : MailboxConfig) (s : MailboxState) : Action → MailboxState
  | .send t value => rtMbSend c s t value
  | .sendWait t value time => rtMbSendWait c s t value time
  | .recv t time => rtMbRecv c s t time
  | .resumed t =>
    match s.frame t with
    | none => s
    | some f => resumed c s t f
  | .timeout t => { s with core := rtThreadTimeout s.core t }
  | .tick => { s with tick := Word.add32 s.tick 1 }

def mailboxSystem (c : MailboxConfig) : TransitionSystem MailboxState Action where
  init s := (∀ k, s.core.wait k = []) ∧
    (∀ t, (s.core.threads t).stat = .ready ∧ (s.core.threads t).timerActive = false ∧
      s.frame t = none) ∧
    s.entry = 0 ∧ s.inOffset = 0 ∧ s.outOffset = 0 ∧
    s.stored = [] ∧ s.removed = [] ∧ s.returns = []
  step s action s' := action.Enabled s ∧ s' = execute c s action

end RtThread.Mailbox
