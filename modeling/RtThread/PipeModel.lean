import RtThread.BlockingCalls
import RtThread.GuardedRun
import RtThread.RingBufferQueue

/-!
# Pipe devices

`rt_pipe_read` and `rt_pipe_write` move bytes from and to a ring buffer.  In a blocking
pipe a transfer of no bytes suspends the thread, and any other one resumes the first
thread which waits on the other side.  A request has 32 bits, the length of a transfer 16.
-/

namespace RtThread.Pipe

open Ipc RingBuffer

/-- The bits of `enum rt_pipe_flag`. -/
structure PipeFlag where
  blockRd : Bool
  blockWr : Bool
  forceWr : Bool

/-- `RT_PIPE_FLAG_BLOCK_RD | RT_PIPE_FLAG_BLOCK_WR`. -/
def blockRdWr : PipeFlag := ⟨true, true, false⟩

inductive Side where
  | read
  | write
  deriving DecidableEq

def Side.peer : Side → Side
  | .read => .write
  | .write => .read

inductive Request where
  | read (size : ℕ)
  | write (buffer : List UInt8)

namespace Request

def side : Request → Side
  | .read _ => .read
  | .write _ => .write

def size : Request → ℕ
  | .read size => size
  | .write buffer => buffer.length

end Request

def available (rb : RtRingbuffer) : Side → ℕ
  | .read => rtRingbufferDataLen rb
  | .write => rtRingbufferSpaceLen rb

/-- A pipe and its threads.  `frame` is set for the threads behind `rt_schedule()`.  `waits`
is history: the side of each thread that was suspended, and what was available then. -/
structure PipeState where
  core : Core Side
  ringbuffer : RtRingbuffer
  frame : Thread → Option Request
  waits : List (Side × ℕ)

def transfer (rb : RtRingbuffer) : Request → RtRingbuffer × List UInt8 × ℕ
  | .read size => rtRingbufferGet rb size
  | .write buffer =>
    let (rb, count) := rtRingbufferPut rb buffer buffer.length
    (rb, [], count)

/-- `_rt_pipe_resume_writer` after a read, `_rt_pipe_resume_reader` after a write. -/
def resumePeer (side : Side) (s : PipeState) : PipeState :=
  { s with core := rtIpcListResume side.peer s.core }

/-- One round of the loop in `rt_pipe_read` or `rt_pipe_write`; `none` when the thread is
suspended. -/
def blockingRound (s : PipeState) (t : Thread) (r : Request) :
    PipeState × Option (List UInt8 × ℕ) :=
  let (rb, data, count) := transfer s.ringbuffer r
  let waits := s.waits ++ [(r.side, available s.ringbuffer r.side)]
  let s := { s with ringbuffer := rb }
  if count = 0 then
    ({ s with
        core := rtIpcListSuspend s.core r.side .fifo t
        frame := Function.update s.frame t (some r)
        waits := waits }, none)
  else (resumePeer r.side s, some (data, count))

def rtPipeRead (flag : PipeFlag) (s : PipeState) (t : Thread) (size : ℕ) :
    PipeState × Option (List UInt8 × ℕ) :=
  if flag.blockRd then blockingRound s t (.read size)
  else
    let (rb, data, count) := rtRingbufferGet s.ringbuffer size
    let s := { s with ringbuffer := rb }
    (if count ≠ 0 then resumePeer .read s else s, some (data, count))

def rtPipeWrite (flag : PipeFlag) (s : PipeState) (t : Thread) (buffer : List UInt8) :
    PipeState × Option (List UInt8 × ℕ) :=
  if flag.forceWr || !flag.blockWr then
    let (rb, count) := if flag.forceWr then rtRingbufferPutForce s.ringbuffer buffer buffer.length
      else rtRingbufferPut s.ringbuffer buffer buffer.length
    (resumePeer .write { s with ringbuffer := rb }, some ([], count))
  else blockingRound s t (.write buffer)

inductive Action where
  | read (t : Thread) (size : ℕ)
  | write (t : Thread) (buffer : List UInt8)
  | resumed (t : Thread)

def Action.request (s : PipeState) : Action → Option (Thread × Request)
  | .read t size => some (t, .read size)
  | .write t buffer => some (t, .write buffer)
  | .resumed t => (s.frame t).map fun r => (t, r)

def MayCall (s : PipeState) (t : Thread) : Prop :=
  (s.core.threads t).stat = .ready ∧ (s.frame t).isNone

def Action.Enabled (s : PipeState) : Action → Prop
  | .read t size => MayCall s t ∧ 0 < size ∧ size < 4294967296
  | .write t buffer => MayCall s t ∧ 0 < buffer.length ∧ buffer.length < 4294967296
  | .resumed t => (s.core.threads t).stat = .ready ∧ (s.frame t).isSome

def execute (s : PipeState) : Action → PipeState
  | .read t size => (rtPipeRead blockRdWr s t size).1
  | .write t buffer => (rtPipeWrite blockRdWr s t buffer).1
  | .resumed t =>
    match s.frame t with
    | none => s
    | some r => (blockingRound { s with frame := Function.update s.frame t none } t r).1

/-- The buffer given to `rt_pipe_init`. -/
structure PipeArea (a : AlignSize) where
  pool : ℕ → UInt8
  size : ℕ
  size_ge : a.bytes ≤ size
  size_le : size ≤ 32767

def pipeSystem {a : AlignSize} (area : PipeArea a) : TransitionSystem PipeState Action where
  init s := (∀ k, s.core.wait k = []) ∧
    (∀ t, (s.core.threads t).stat = .ready ∧ (s.core.threads t).timerActive = false ∧
      s.frame t = none) ∧
    s.ringbuffer = rtRingbufferInit a area.pool area.size ∧ s.waits = []
  step s action s' := action.Enabled s ∧ s' = execute s action

end RtThread.Pipe
