import RtThread.KernelDefs
import RtThread.CircularBuffer

/-!
# Ring buffers of the device drivers

`ringbuffer.c` keeps bytes in a pool.  Both indices stay below the size of the pool, and
a mirror bit beside each of them is flipped when the index goes back to zero; equal
indices mean a full buffer when the mirrors differ and an empty one when they agree.
-/

namespace RtThread.RingBuffer

open CircularBuffer

structure RtRingbuffer where
  bufferPtr : ℕ → UInt8
  readMirror : Bool
  readIndex : ℕ
  writeMirror : Bool
  writeIndex : ℕ
  bufferSize : ℕ

inductive RingbufferState where
  | empty
  | full
  | halffull
  deriving DecidableEq

def toIndex (x : ℕ) : ℕ := x % 32768

def toLength (x : ℕ) : ℕ := x % 65536

def rtRingbufferInit (a : AlignSize) (pool : ℕ → UInt8) (size : ℕ) : RtRingbuffer where
  bufferPtr := pool
  readMirror := false
  readIndex := 0
  writeMirror := false
  writeIndex := 0
  bufferSize := rtAlignDown a size

def rtRingbufferStatus (rb : RtRingbuffer) : RingbufferState :=
  if rb.readIndex = rb.writeIndex then
    if rb.readMirror = rb.writeMirror then .empty else .full
  else .halffull

def rtRingbufferDataLen (rb : RtRingbuffer) : ℕ :=
  match rtRingbufferStatus rb with
  | .empty => 0
  | .full => rb.bufferSize
  | .halffull =>
    if rb.readIndex < rb.writeIndex then rb.writeIndex - rb.readIndex
    else rb.bufferSize - (rb.readIndex - rb.writeIndex)

def rtRingbufferSpaceLen (rb : RtRingbuffer) : ℕ := rb.bufferSize - rtRingbufferDataLen rb

def writeBlock (rb : RtRingbuffer) (ptr : List UInt8) (length : ℕ) : RtRingbuffer :=
  let rest := rb.bufferSize - rb.writeIndex
  if length < rest then
    { rb with
      bufferPtr := blit rb.bufferPtr rb.writeIndex (ptr.take length)
      writeIndex := toIndex (rb.writeIndex + length) }
  else
    { rb with
      bufferPtr := blit (blit rb.bufferPtr rb.writeIndex (ptr.take rest)) 0
        ((ptr.drop rest).take (length - rest))
      writeMirror := !rb.writeMirror
      writeIndex := toIndex (length - rest) }

def rtRingbufferPut (rb : RtRingbuffer) (ptr : List UInt8) (length : ℕ) : RtRingbuffer × ℕ :=
  let size := rtRingbufferSpaceLen rb
  if size = 0 then (rb, 0)
  else
    let length := min (toLength length) size
    (writeBlock rb ptr length, length)

def rtRingbufferPutForce (rb : RtRingbuffer) (ptr : List UInt8) (length : ℕ) : RtRingbuffer × ℕ :=
  let oldState := rtRingbufferStatus rb
  let length := min (toLength length) rb.bufferSize
  let written := writeBlock rb ptr length
  if oldState = .full then
    ({ written with
        readMirror :=
          if length < rb.bufferSize - rb.writeIndex then rb.readMirror else !rb.readMirror
        readIndex := written.writeIndex }, length)
  else (written, length)

def rtRingbufferGet (rb : RtRingbuffer) (length : ℕ) : RtRingbuffer × List UInt8 × ℕ :=
  let size := rtRingbufferDataLen rb
  if size = 0 then (rb, [], 0)
  else
    let length := min (toLength length) size
    let rest := rb.bufferSize - rb.readIndex
    if length < rest then
      ({ rb with readIndex := toIndex (rb.readIndex + length) },
        slice rb.bufferPtr rb.readIndex length, length)
    else
      ({ rb with
          readMirror := !rb.readMirror
          readIndex := toIndex (length - rest) },
        slice rb.bufferPtr rb.readIndex rest ++ slice rb.bufferPtr 0 (length - rest), length)

def writeChar (rb : RtRingbuffer) (ch : UInt8) : RtRingbuffer :=
  let pool := Function.update rb.bufferPtr rb.writeIndex ch
  if rb.writeIndex = rb.bufferSize - 1 then
    { rb with bufferPtr := pool, writeMirror := !rb.writeMirror, writeIndex := 0 }
  else { rb with bufferPtr := pool, writeIndex := toIndex (rb.writeIndex + 1) }

def rtRingbufferPutchar (rb : RtRingbuffer) (ch : UInt8) : RtRingbuffer × ℕ :=
  if rtRingbufferSpaceLen rb = 0 then (rb, 0) else (writeChar rb ch, 1)

def rtRingbufferPutcharForce (rb : RtRingbuffer) (ch : UInt8) : RtRingbuffer × ℕ :=
  let oldState := rtRingbufferStatus rb
  let written := writeChar rb ch
  if oldState = .full then
    ({ written with
        readMirror := if rb.writeIndex = rb.bufferSize - 1 then !rb.readMirror else rb.readMirror
        readIndex := written.writeIndex }, 1)
  else (written, 1)

def rtRingbufferGetchar (rb : RtRingbuffer) : RtRingbuffer × Option UInt8 × ℕ :=
  if rtRingbufferDataLen rb = 0 then (rb, none, 0)
  else
    let ch := rb.bufferPtr rb.readIndex
    if rb.readIndex = rb.bufferSize - 1 then
      ({ rb with readMirror := !rb.readMirror, readIndex := 0 }, some ch, 1)
    else ({ rb with readIndex := toIndex (rb.readIndex + 1) }, some ch, 1)

def contents (rb : RtRingbuffer) : List UInt8 :=
  window rb.bufferPtr rb.bufferSize rb.readIndex (rtRingbufferDataLen rb)

end RtThread.RingBuffer
