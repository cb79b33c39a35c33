import RtThread.DataQueueModel

/-!
# Serial devices which transmit by DMA

`rt_serial_write` pushes its buffer onto `tx_dq` and then, in another section, claims the
DMA engine when it is idle; the thread which has claimed it starts the transfer of its own
buffer.  When a transfer is complete, `rt_hw_serial_dma_tx_isr` pops a buffer and starts
the transfer of the next one.  `tx_dq` is the list of its items, which a data queue is when
its size is a power of two.
-/

namespace RtThread.SerialDma

open Function

open DataQueue (DataItem)

def txDataqueueSize : ℕ := 2048

/-- A thread in `rt_serial_write`: before the section which claims the engine, or between
it and the call of `dma_transmit`. -/
inductive WriteFrame where
  | pushed (item : DataItem)
  | claimed (item : DataItem)
  deriving DecidableEq

/-- `rt_hw_serial_dma_tx_isr` after its pop, after its peak, and before `tx_complete`.  The
item is `none` when the queue was empty. -/
inductive Isr where
  | idle
  | popped (last : Option DataItem)
  | peaked (last next : Option DataItem)
  | leaving (last : Option DataItem)
  deriving DecidableEq

/-- A serial device and the threads which write to it.  `outstanding` holds the transfers
which have been started and are not complete, `interrupts` counts the complete ones for
which the handler has not begun.

History: the items pushed, popped and transmitted, those whose transfers are complete, and
the pointers given to `tx_complete`. -/
structure SerialState where
  txDq : List DataItem
  dmaFlag : Bool
  frame : Thread → Option WriteFrame
  outstanding : List DataItem
  interrupts : ℕ
  isr : Isr
  pushed : List DataItem
  popped : List DataItem
  transmitted : List DataItem
  completed : List DataItem
  reported : List (Option UInt32)

/-- `none` when there was no room before the timeout. -/
def rtDataQueuePush (txDq : List DataItem) (item : DataItem) : Option (List DataItem) :=
  if txDq.length < txDataqueueSize then some (txDq ++ [item]) else none

def rtDataQueuePop : List DataItem → Option DataItem × List DataItem
  | [] => (none, [])
  | item :: txDq => (some item, txDq)

def rtDataQueuePeak (txDq : List DataItem) : Option DataItem := txDq.head?

def dmaTransmit (s : SerialState) (item : DataItem) : SerialState :=
  { s with
    outstanding := s.outstanding ++ [item]
    transmitted := s.transmitted ++ [item] }

/-- `rt_serial_write` up to its push; nothing remains to be done when it fails. -/
def pushSection (s : SerialState) (t : Thread) (item : DataItem) : SerialState :=
  if item.dataSize = 0 then s
  else
    match rtDataQueuePush s.txDq item with
    | some txDq =>
      { s with
        txDq := txDq
        frame := update s.frame t (some (.pushed item))
        pushed := s.pushed ++ [item] }
    | none => s

def claimSection (s : SerialState) (t : Thread) (item : DataItem) : SerialState :=
  if s.dmaFlag = false then
    { s with
      dmaFlag := true
      frame := update s.frame t (some (.claimed item)) }
  else { s with frame := update s.frame t none }

def transmitClaimed (s : SerialState) (t : Thread) (item : DataItem) : SerialState :=
  dmaTransmit { s with frame := update s.frame t none } item

def isrPop (s : SerialState) : SerialState :=
  let (last, txDq) := rtDataQueuePop s.txDq
  { s with
    txDq := txDq
    interrupts := s.interrupts - 1
    isr := .popped last
    popped := s.popped ++ last.toList }

def isrPeak (s : SerialState) (last : Option DataItem) : SerialState :=
  { s with isr := .peaked last (rtDataQueuePeak s.txDq) }

def isrNext (s : SerialState) (last next : Option DataItem) : SerialState :=
  let s := { s with isr := .leaving last }
  match next with
  | some item => dmaTransmit s item
  | none => { s with dmaFlag := false }

def isrComplete (s : SerialState) (last : Option DataItem) : SerialState :=
  { s with
    isr := .idle
    reported := s.reported ++ [last.map DataItem.dataPtr] }

inductive Action where
  | push (t : Thread) (item : DataItem)
  | claim (t : Thread) (item : DataItem)
  | transmit (t : Thread) (item : DataItem)
  | transferDone (item : DataItem)
  | isrPop
  | isrPeak (last : Option DataItem)
  | isrNext (last next : Option DataItem)
  | isrComplete (last : Option DataItem)

def Action.Enabled (s : SerialState) : Action → Prop
  | .push t _ => s.frame t = none
  | .claim t item => s.frame t = some (.pushed item)
  | .transmit t item => s.frame t = some (.claimed item)
  | .transferDone item => item ∈ s.outstanding
  | .isrPop => 0 < s.interrupts ∧ s.isr = .idle
  | .isrPeak last => s.isr = .popped last
  | .isrNext last next => s.isr = .peaked last next
  | .isrComplete last => s.isr = .leaving last

def execute (s : SerialState) : Action → SerialState
  | .push t item => pushSection s t item
  | .claim t item => claimSection s t item
  | .transmit t item => transmitClaimed s t item
  | .transferDone item =>
    { s with
      outstanding := s.outstanding.erase item
      interrupts := s.interrupts + 1
      completed := s.completed ++ [item] }
  | .isrPop => SerialDma.isrPop s
  | .isrPeak last => SerialDma.isrPeak s last
  | .isrNext last next => SerialDma.isrNext s last next
  | .isrComplete last => SerialDma.isrComplete s last

def serialSystem : TransitionSystem SerialState Action where
  init s := s.txDq = [] ∧ s.dmaFlag = false ∧ (∀ t, s.frame t = none) ∧ s.outstanding = [] ∧
    s.interrupts = 0 ∧ s.isr = .idle ∧ s.pushed = [] ∧ s.popped = [] ∧
    s.transmitted = [] ∧ s.completed = [] ∧ s.reported = []
  step s action s' := action.Enabled s ∧ s' = execute s action

end RtThread.SerialDma
