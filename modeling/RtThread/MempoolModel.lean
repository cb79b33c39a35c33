import RtThread.KernelDefs
import RtThread.GuardedRun
import RtThread.LinkedRing

/-!
# Memory pools

`mempool.c` hands out blocks of one size.  A thread which finds no block is
linked to `suspend_thread`; `rt_mp_free` puts the block on the free list and
makes the first of these threads ready, and the thread takes a block in a second
critical section when it runs again.  An action of the model is one
interrupt-disabled section, or a test made between two of them.
-/

namespace RtThread.MemPool

open Function Word

/-- Where a thread is in `rt_mp_alloc`: not in it, behind its `rt_schedule()`, or
in front of the second critical section. -/
inductive AllocPoint where
  | outside
  | scheduled
  | granted
  deriving DecidableEq

/-- The members of `struct rt_thread` used here; `timerActive` is the state of
`thread_timer`. -/
structure ThreadBlock where
  stat : ThreadStat
  error : ErrorCode
  timerActive : Bool
  point : AllocPoint

structure RtMempool where
  blockList : ℕ
  blockTotalCount : ℕ
  blockFreeCount : ℕ
  suspendThread : List Thread
  suspendThreadCount : ℕ

/-- `header` is the first word of each block.  `held` are the blocks handed out,
and `owed` the threads resumed by `rt_mp_free` which have not taken their block
yet; the code keeps neither.  `detaching` is set between the test and the
critical section of the loop in `rt_mp_detach` and `rt_mp_delete`. -/
structure State where
  header : ℕ → ℕ
  mp : RtMempool
  threads : Thread → ThreadBlock
  held : List ℕ
  owed : List Thread
  detaching : Bool

structure PoolArea (a : AlignSize) where
  mp : ℕ
  start : ℕ
  size : ℕ
  blockSize : ℕ
  start_pos : 0 < start
  fits : start + size ≤ 4294967296
  nonempty : rtAlign a blockSize + 4 ≤ rtAlignDown a size

def blockAt (start stride offset : ℕ) : ℕ := add32 start (mul32 offset stride)

def rtMpInit (a : AlignSize) (header : ℕ → ℕ) (start size blockSize : ℕ) : (ℕ → ℕ) × RtMempool :=
  let size := rtAlignDown a size
  let blockSize := rtAlign a blockSize
  let stride := add32 blockSize 4
  let blockTotalCount := size / stride
  let linked := (List.range blockTotalCount).foldl
    (fun header offset =>
      update header (blockAt start stride offset) (blockAt start stride (offset + 1)))
    header
  (update linked (blockAt start stride (blockTotalCount - 1)) rtNull,
    { blockList := start
      blockTotalCount := blockTotalCount
      blockFreeCount := blockTotalCount
      suspendThread := []
      suspendThreadCount := 0 })

def State.setThread (s : State) (t : Thread) (b : ThreadBlock) : State :=
  { s with threads := update s.threads t b }

def setError (s : State) (t : Thread) (code : ErrorCode) : State :=
  s.setThread t { s.threads t with error := code }

def setPoint (s : State) (t : Thread) (point : AllocPoint) : State :=
  s.setThread t { s.threads t with point := point }

def makeReady (s : State) (t : Thread) : State :=
  { s.setThread t { s.threads t with stat := .ready, timerActive := false } with
    mp := { s.mp with suspendThread := s.mp.suspendThread.erase t } }

def rtThreadResume (s : State) (t : Thread) : State :=
  if (s.threads t).stat ≠ .suspend then s else makeReady s t

def rtThreadTimeout (s : State) (t : Thread) : State :=
  makeReady (setError s t .etimeout) t

def takeBlock (mp : ℕ) (s : State) : State :=
  let blockPtr := s.mp.blockList
  { s with
    header := update s.header blockPtr mp
    mp := { s.mp with
      blockFreeCount := pred32 s.mp.blockFreeCount
      blockList := s.header blockPtr }
    held := blockPtr :: s.held }

def waitForBlock (s : State) (t : Thread) (time : ℤ) : State :=
  let b := s.threads t
  { s.setThread t
      { b with
        stat := .suspend
        timerActive := if 0 < time then true else b.timerActive
        point := .scheduled } with
    mp := { s.mp with
      suspendThread := t :: s.mp.suspendThread
      suspendThreadCount := add32 s.mp.suspendThreadCount 1 } }

def rtMpAlloc (mp : ℕ) (s : State) (caller : Option Thread) (time : ℤ) : Option State :=
  if s.mp.blockFreeCount ≠ 0 then some (takeBlock mp s)
  else if time = 0 then some s
  else caller.map fun t => waitForBlock s t time

/-- Resume the first thread of `suspend_thread` with an error code; `none` when
the list head itself is taken for a thread. -/
def resumeFirst (s : State) (code : ErrorCode) : Option (State × Thread) :=
  match s.mp.suspendThread with
  | [] => none
  | t :: _ =>
    let s := rtThreadResume (setError s t code) t
    some ({ s with mp := { s.mp with
      suspendThreadCount := pred32 s.mp.suspendThreadCount } }, t)

def putBlock (s : State) (blockPtr : ℕ) : State :=
  { s with
    header := update s.header blockPtr s.mp.blockList
    mp := { s.mp with
      blockFreeCount := add32 s.mp.blockFreeCount 1
      blockList := blockPtr }
    held := s.held.erase blockPtr }

def rtMpFree (s : State) (blockPtr : ℕ) : Option State :=
  let s := putBlock s blockPtr
  if s.mp.suspendThreadCount > 0 then
    (resumeFirst s .eok).map fun result =>
      { result.1 with owed := result.2 :: result.1.owed }
  else some s

inductive Action where
  | alloc (caller : Option Thread) (time : ℤ)
  | checkError (t : Thread)
  | takeGranted (t : Thread)
  | free (blockPtr : ℕ)
  | timeout (t : Thread)
  | detachTest
  | detachResume

/-- A thread starts a call only when it is running, and a block is freed once, by
the pool its header names. -/
def Action.Enabled (mp : ℕ) (s : State) : Action → Prop
  | .alloc none _ => True
  | .alloc (some t) _ => (s.threads t).stat = .ready ∧ (s.threads t).point = .outside
  | .checkError t => (s.threads t).stat = .ready ∧ (s.threads t).point = .scheduled
  | .takeGranted t => (s.threads t).point = .granted
  | .free blockPtr => blockPtr ∈ s.held ∧ s.header blockPtr = mp
  | .timeout t => (s.threads t).timerActive = true
  | .detachTest => s.detaching = false ∧ s.mp.suspendThread ≠ []
  | .detachResume => s.detaching = true

instance (mp : ℕ) (s : State) (action : Action) : Decidable (action.Enabled mp s) :=
  match action with
  | .alloc none _ => isTrue trivial
  | .alloc (some _) _ => inferInstanceAs (Decidable (_ ∧ _))
  | .checkError _ => inferInstanceAs (Decidable (_ ∧ _))
  | .takeGranted _ => inferInstanceAs (Decidable (_ = _))
  | .free _ => inferInstanceAs (Decidable (_ ∧ _))
  | .timeout _ => inferInstanceAs (Decidable (_ = _))
  | .detachTest => inferInstanceAs (Decidable (_ ∧ _))
  | .detachResume => inferInstanceAs (Decidable (_ = _))

def execute (mp : ℕ) (s : State) : Action → Option State
  | .alloc caller time => rtMpAlloc mp s caller time
  | .checkError t =>
    some (setPoint s t (if (s.threads t).error = .eok then .granted else .outside))
  | .takeGranted t =>
    some { setPoint (takeBlock mp s) t .outside with owed := s.owed.erase t }
  | .free blockPtr => rtMpFree s blockPtr
  | .timeout t => some (rtThreadTimeout s t)
  | .detachTest => some { s with detaching := true }
  | .detachResume =>
    (resumeFirst s .error).map fun result => { result.1 with detaching := false }

variable {a : AlignSize}

def poolSystem (area : PoolArea a) : TransitionSystem State Action where
  init s := (∃ header : ℕ → ℕ,
      (s.header, s.mp) = rtMpInit a header area.start area.size area.blockSize) ∧
    (∀ t, (s.threads t).stat = .ready ∧ (s.threads t).point = .outside ∧
      (s.threads t).timerActive = false) ∧
    s.held = [] ∧ s.owed = [] ∧ s.detaching = false
  step s action s' := action.Enabled area.mp s ∧ execute area.mp s action = some s'

def sampleArea : PoolArea wordAlign where
  mp := 0x10000000
  start := 0x20000000
  size := 12
  blockSize := 8
  start_pos := by decide
  fits := by decide
  nonempty := by decide

def sampleInit : State :=
  let pool := rtMpInit wordAlign (fun _ => 0) sampleArea.start sampleArea.size sampleArea.blockSize
  { header := pool.1
    mp := pool.2
    threads := fun _ => ⟨.ready, .eok, false, .outside⟩
    held := []
    owed := []
    detaching := false }

def sampleRun (guard : State → Action → Prop) [∀ s action, Decidable (guard s action)]
    (actions : List Action) : Option State :=
  actions.foldlM
    (fun s action =>
      if action.Enabled sampleArea.mp s ∧ guard s action
      then execute sampleArea.mp s action
      else none)
    sampleInit

theorem reachable_sampleRun {guard : State → Action → Prop} [∀ s action, Decidable (guard s action)]
    {actions : List Action} {s : State} (hrun : sampleRun guard actions = some s) :
    (poolSystem sampleArea).Reachable guard s := by
  have hstart : (poolSystem sampleArea).init sampleInit :=
    ⟨⟨fun _ => 0, rfl⟩, fun _ => ⟨rfl, rfl, rfl⟩, rfl, rfl, rfl⟩
  apply TransitionSystem.Reachable.foldlM _ (.start hstart) hrun
  intro s action s' hstep
  split_ifs at hstep with hguard
  exact ⟨hguard.2, hguard.1, hstep⟩

end RtThread.MemPool
