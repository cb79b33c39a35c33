import RtThread.RingBufferModel

/-!
# A ring buffer is a bounded byte queue

The indices and mirror bits of a valid ring buffer tell how many bytes it holds.  The
write side moves as far as bytes are put and the read side as far as bytes are got, and
the bytes between them are the queue.
-/

namespace RtThread.RingBuffer

open List CircularBuffer

structure Bounded (rb : RtRingbuffer) : Prop where
  size_pos : 0 < rb.bufferSize
  size_le : rb.bufferSize ≤ 32767
  read_lt : rb.readIndex < rb.bufferSize
  write_lt : rb.writeIndex < rb.bufferSize

/-- The write side is not behind the read side in the same mirror, and not in front of it
in the other one. -/
def Ordered (rb : RtRingbuffer) : Prop :=
  if rb.readMirror = rb.writeMirror then rb.readIndex ≤ rb.writeIndex
  else rb.writeIndex ≤ rb.readIndex

instance (rb : RtRingbuffer) : Decidable (Ordered rb) := by
  unfold Ordered
  infer_instance

/-- The bytes from the read side to the write side. -/
def span (rb : RtRingbuffer) : ℕ :=
  if rb.readMirror = rb.writeMirror then rb.writeIndex - rb.readIndex
  else rb.bufferSize + rb.writeIndex - rb.readIndex

/-- The read side behind `length` more bytes. -/
def moveRead (rb : RtRingbuffer) (length : ℕ) : RtRingbuffer :=
  { rb with
    readMirror := if length < rb.bufferSize - rb.readIndex then rb.readMirror else !rb.readMirror
    readIndex := (rb.readIndex + length) % rb.bufferSize }

/-- The write side behind `length` bytes more. -/
def moveWrite (rb : RtRingbuffer) (length : ℕ) : RtRingbuffer :=
  { rb with
    writeMirror :=
      if length < rb.bufferSize - rb.writeIndex then rb.writeMirror else !rb.writeMirror
    writeIndex := (rb.writeIndex + length) % rb.bufferSize }

/-- The indices are in the buffer and ordered by their mirrors. -/
structure Valid (rb : RtRingbuffer) : Prop where
  bounded : Bounded rb
  ordered : Ordered rb

variable {rb : RtRingbuffer} {ptr : List UInt8} {length k : ℕ}

theorem toIndex_eq (hlt : length < 32768) : toIndex length = length := Nat.mod_eq_of_lt hlt

theorem dataLen_eq (rb : RtRingbuffer) : rtRingbufferDataLen rb =
      if rb.readIndex = rb.writeIndex then
        if rb.readMirror = rb.writeMirror then 0 else rb.bufferSize
      else if rb.readIndex < rb.writeIndex then rb.writeIndex - rb.readIndex
      else rb.bufferSize - (rb.readIndex - rb.writeIndex) := by
  unfold rtRingbufferDataLen rtRingbufferStatus
  split_ifs <;> rfl

namespace Bounded

theorem dataLen_le (hbounded : Bounded rb) : rtRingbufferDataLen rb ≤ rb.bufferSize := by
  have hwrite := hbounded.write_lt
  rw [dataLen_eq]
  split_ifs <;> lia

theorem writeIndex_eq (hbounded : Bounded rb) :
    rb.writeIndex = (rb.readIndex + rtRingbufferDataLen rb) % rb.bufferSize := by
  have hread := hbounded.read_lt
  have hwrite := hbounded.write_lt
  rw [dataLen_eq]
  split_ifs with heq hmirror hlt
  · rw [Nat.add_zero, Nat.mod_eq_of_lt hread, heq]
  · rw [Nat.add_mod_right, Nat.mod_eq_of_lt hread, heq]
  · rw [Nat.add_sub_of_le hlt.le, Nat.mod_eq_of_lt hwrite]
  · have hsum : rb.readIndex + (rb.bufferSize - (rb.readIndex - rb.writeIndex)) =
        rb.writeIndex + rb.bufferSize := by omega
    rw [hsum, Nat.add_mod_right, Nat.mod_eq_of_lt hwrite]

theorem length_contents (rb : RtRingbuffer) :
    (contents rb).length = rtRingbufferDataLen rb := length_window _ _ _ _

theorem add_mod_size (hlt : k < rb.bufferSize) (hle : length ≤ rb.bufferSize) :
    (k + length) % rb.bufferSize =
      if length < rb.bufferSize - k then k + length else length - (rb.bufferSize - k) := by
  split_ifs with hend
  · exact Nat.mod_eq_of_lt (by lia)
  · have hsum : k + length = length - (rb.bufferSize - k) + rb.bufferSize := by lia
    rw [hsum, Nat.add_mod_right, Nat.mod_eq_of_lt (by lia)]

theorem writeBlock_eq (hbounded : Bounded rb) (hlength : length ≤ rb.bufferSize) :
    writeBlock rb ptr length =
      { moveWrite rb length with
        bufferPtr := blitRound rb.bufferPtr rb.bufferSize rb.writeIndex (ptr.take length) } := by
  have hsize := hbounded.size_le
  have hwrite := hbounded.write_lt
  unfold writeBlock moveWrite
  rw [add_mod_size hwrite hlength]
  by_cases hend : length < rb.bufferSize - rb.writeIndex
  · have hblock : rb.writeIndex + (ptr.take length).length ≤ rb.bufferSize := by
      have hle : (ptr.take length).length ≤ length := length_take_le _ _
      lia
    simp only [if_pos hend, blitRound_of_le hblock]
    rw [toIndex_eq (by lia)]
  · have hrest : (ptr.take length).take (rb.bufferSize - rb.writeIndex) =
        ptr.take (rb.bufferSize - rb.writeIndex) := by
      rw [take_take, Nat.min_eq_left (by lia)]
    simp only [if_neg hend, blitRound, hrest, drop_take]
    rw [toIndex_eq (by lia)]

theorem slices_eq (hbounded : Bounded rb) (hlength : length ≤ rb.bufferSize) :
    (if length < rb.bufferSize - rb.readIndex then slice rb.bufferPtr rb.readIndex length
      else slice rb.bufferPtr rb.readIndex (rb.bufferSize - rb.readIndex) ++
        slice rb.bufferPtr 0 (length - (rb.bufferSize - rb.readIndex))) =
      window rb.bufferPtr rb.bufferSize rb.readIndex length := by
  have hread := hbounded.read_lt
  split_ifs with hend
  · exact (window_of_le (by omega)).symm
  · exact (window_of_ge hread.le (by omega) hlength).symm

end Bounded

namespace Valid

section

variable (hvalid : Valid rb)
include hvalid

theorem dataLen_eq : rtRingbufferDataLen rb = span rb := by
  have hordered := hvalid.ordered
  unfold Ordered at hordered
  rw [RingBuffer.dataLen_eq, span]
  by_cases hmirror : rb.readMirror = rb.writeMirror
  · rw [if_pos hmirror] at hordered
    split_ifs <;> lia
  · rw [if_neg hmirror] at hordered
    split_ifs <;> lia

theorem writeBlock (hroom : length ≤ rtRingbufferSpaceLen rb)
    (hptr : length ≤ ptr.length) : Valid (writeBlock rb ptr length) ∧
      contents (RingBuffer.writeBlock rb ptr length) = contents rb ++ ptr.take length := by
  have hbounded := hvalid.bounded
  have hdata := hvalid.dataLen_eq
  have hwriteIndex := hbounded.writeIndex_eq
  have hread := hbounded.read_lt
  have hwrite := hbounded.write_lt
  have hordered := hvalid.ordered
  unfold Ordered at hordered
  unfold span at hdata
  unfold rtRingbufferSpaceLen at hroom
  have hlength : length ≤ rb.bufferSize := by lia
  have hmoved : Ordered (moveWrite rb length) ∧
      span (moveWrite rb length) = rtRingbufferDataLen rb + length := by
    simp only [Ordered, span, moveWrite, Bounded.add_mod_size hwrite hlength]
    by_cases hend : length < rb.bufferSize - rb.writeIndex
    · simp only [if_pos hend]
      split_ifs with hmirror <;> simp only [hmirror, if_true, if_false] at hdata hordered <;> lia
    · simp only [if_neg hend]
      cases hr : rb.readMirror <;> cases hw : rb.writeMirror <;>
        simp [hr, hw] at hdata hordered ⊢ <;> lia
  rw [hbounded.writeBlock_eq hlength]
  generalize hpool : blitRound rb.bufferPtr rb.bufferSize rb.writeIndex (ptr.take length) = pool
  have hvalid' : Valid { moveWrite rb length with bufferPtr := pool } :=
    ⟨⟨hbounded.size_pos, hbounded.size_le, hread, Nat.mod_lt _ hbounded.size_pos⟩, hmoved.1⟩
  refine ⟨hvalid', ?_⟩
  have hnew : rtRingbufferDataLen { moveWrite rb length with bufferPtr := pool } =
      rtRingbufferDataLen rb + (ptr.take length).length := by
    rw [hvalid'.dataLen_eq, length_take, Nat.min_eq_left hptr]
    exact hmoved.2
  unfold contents
  rw [hnew, ← hpool]
  apply window_blitRound hbounded.size_pos hwriteIndex
  rw [length_take]
  lia

theorem put (hptr : toLength length ≤ ptr.length) :
    (rtRingbufferPut rb ptr length).2 = min (toLength length) (rtRingbufferSpaceLen rb) ∧
      Valid (rtRingbufferPut rb ptr length).1 ∧ contents (rtRingbufferPut rb ptr length).1 =
        contents rb ++ ptr.take (min (toLength length) (rtRingbufferSpaceLen rb)) := by
  unfold rtRingbufferPut
  by_cases hfull : rtRingbufferSpaceLen rb = 0
  · simp only [hfull, if_true, Nat.min_zero, take_zero, append_nil]
    exact ⟨trivial, hvalid, trivial⟩
  · simp only [if_neg hfull]
    exact ⟨trivial, hvalid.writeBlock (Nat.min_le_right _ _) ((Nat.min_le_left _ _).trans hptr)⟩

theorem moveRead (hdata : length ≤ rtRingbufferDataLen rb) : Valid (moveRead rb length) ∧
    contents (RingBuffer.moveRead rb length) = (contents rb).drop length := by
  have hbounded := hvalid.bounded
  have hlen := hvalid.dataLen_eq
  have hread := hbounded.read_lt
  have hwrite := hbounded.write_lt
  have hordered := hvalid.ordered
  unfold Ordered at hordered
  unfold span at hlen
  have hlength : length ≤ rb.bufferSize := by lia
  have hmoved : Ordered (RingBuffer.moveRead rb length) ∧
      span (RingBuffer.moveRead rb length) = rtRingbufferDataLen rb - length := by
    simp only [Ordered, span, RingBuffer.moveRead, Bounded.add_mod_size hread hlength]
    by_cases hend : length < rb.bufferSize - rb.readIndex
    · simp only [if_pos hend]
      split_ifs with hmirror <;> simp only [hmirror, if_true, if_false] at hlen hordered <;> lia
    · simp only [if_neg hend]
      cases hr : rb.readMirror <;> cases hw : rb.writeMirror <;>
        simp [hr, hw] at hlen hordered ⊢ <;> lia
  have hvalid' : Valid (RingBuffer.moveRead rb length) :=
    ⟨⟨hbounded.size_pos, hbounded.size_le, Nat.mod_lt _ hbounded.size_pos, hwrite⟩, hmoved.1⟩
  refine ⟨hvalid', ?_⟩
  unfold contents
  rw [hvalid'.dataLen_eq, hmoved.2, drop_window hdata]
  simp only [RingBuffer.moveRead, window_mod]

theorem get_eq (length : ℕ) :
    let count := min (toLength length) (rtRingbufferDataLen rb)
    rtRingbufferGet rb length = if rtRingbufferDataLen rb = 0 then (rb, [], 0)
      else (RingBuffer.moveRead rb count, (contents rb).take count, count) := by
  have hbounded := hvalid.bounded
  have hsize := hbounded.size_le
  have hread := hbounded.read_lt
  have hle := hbounded.dataLen_le
  intro count
  have hcount : count ≤ rtRingbufferDataLen rb := Nat.min_le_right _ _
  have hmod := Bounded.add_mod_size hread (by lia : count ≤ rb.bufferSize)
  have hslices := hbounded.slices_eq (by lia : count ≤ rb.bufferSize)
  have htake : (contents rb).take count =
      window rb.bufferPtr rb.bufferSize rb.readIndex count := take_window hcount
  unfold rtRingbufferGet
  by_cases hempty : rtRingbufferDataLen rb = 0
  · simp only [if_pos hempty]
  · simp only [if_neg hempty, RingBuffer.moveRead, hmod, htake]
    by_cases hend : count < rb.bufferSize - rb.readIndex
    · rw [if_pos hend] at hslices ⊢
      simp only [if_pos hend]
      rw [hslices, toIndex_eq (by lia)]
    · rw [if_neg hend] at hslices ⊢
      simp only [if_neg hend]
      rw [hslices, toIndex_eq (by lia)]

theorem get (length : ℕ) : (rtRingbufferGet rb length).2 =
        ((contents rb).take (min (toLength length) (rtRingbufferDataLen rb)),
          min (toLength length) (rtRingbufferDataLen rb)) ∧ Valid (rtRingbufferGet rb length).1 ∧
      contents (rtRingbufferGet rb length).1 =
        (contents rb).drop (min (toLength length) (rtRingbufferDataLen rb)) := by
  rw [hvalid.get_eq length]
  by_cases hempty : rtRingbufferDataLen rb = 0
  · have hnone : contents rb = [] := by simp [contents, hempty]
    simp only [hempty, if_true, Nat.min_zero, take_zero, drop_zero]
    exact ⟨trivial, hvalid, trivial⟩
  · simp only [if_neg hempty]
    exact ⟨trivial, hvalid.moveRead (Nat.min_le_right _ _)⟩

end

end Valid

theorem Bounded.writeChar_eq (hbounded : Bounded rb) (ch : UInt8) :
    writeChar rb ch = writeBlock rb [ch] 1 := by
  have hsize := hbounded.size_le
  have hwrite := hbounded.write_lt
  rw [hbounded.writeBlock_eq (by lia : 1 ≤ rb.bufferSize)]
  have hone : blitRound rb.bufferPtr rb.bufferSize rb.writeIndex ([ch].take 1) =
      Function.update rb.bufferPtr rb.writeIndex ch := by
    have hend : rb.writeIndex + [ch].length ≤ rb.bufferSize := by
      rw [length_singleton]
      lia
    rw [take_of_length_le (le_refl 1), blitRound_of_le hend, blit_singleton]
  have hmod := add_mod_size hwrite (by lia : 1 ≤ rb.bufferSize)
  unfold writeChar moveWrite
  rw [hone, hmod]
  by_cases hlast : rb.writeIndex = rb.bufferSize - 1
  · have hend : ¬1 < rb.bufferSize - rb.writeIndex := by lia
    have hzero : 1 - (rb.bufferSize - rb.writeIndex) = 0 := by lia
    simp only [if_pos hlast, if_neg hend, hzero]
  · have hend : 1 < rb.bufferSize - rb.writeIndex := by lia
    simp only [if_neg hlast, if_pos hend]
    rw [toIndex_eq (by lia)]

theorem Bounded.putchar_eq (hbounded : Bounded rb) (ch : UInt8) :
    rtRingbufferPutchar rb ch = rtRingbufferPut rb [ch] 1 := by
  unfold rtRingbufferPutchar rtRingbufferPut
  by_cases hfull : rtRingbufferSpaceLen rb = 0
  · simp only [if_pos hfull]
  · have hone : min (toLength 1) (rtRingbufferSpaceLen rb) = 1 := by
      unfold toLength
      omega
    simp only [if_neg hfull, hone, hbounded.writeChar_eq ch]

theorem Valid.getchar_eq (hvalid : Valid rb) : rtRingbufferGetchar rb =
      ((rtRingbufferGet rb 1).1, (rtRingbufferGet rb 1).2.1.head?, (rtRingbufferGet rb 1).2.2) := by
  have hsize := hvalid.bounded.size_le
  have hread := hvalid.bounded.read_lt
  rw [hvalid.get_eq 1]
  unfold rtRingbufferGetchar
  by_cases hempty : rtRingbufferDataLen rb = 0
  · simp [hempty]
  · have hone : min (toLength 1) (rtRingbufferDataLen rb) = 1 := by
      unfold toLength
      lia
    have hmod := Bounded.add_mod_size hread (by lia : 1 ≤ rb.bufferSize)
    have hfirst : ((contents rb).take 1).head? = some (rb.bufferPtr rb.readIndex) := by
      have htake : (contents rb).take 1 =
          window rb.bufferPtr rb.bufferSize rb.readIndex 1 := take_window (by lia)
      rw [htake, window_of_le (by lia)]
      rfl
    simp only [if_neg hempty, hone, hfirst, RingBuffer.moveRead, hmod]
    by_cases hlast : rb.readIndex = rb.bufferSize - 1
    · have hend : ¬1 < rb.bufferSize - rb.readIndex := by lia
      have hzero : 1 - (rb.bufferSize - rb.readIndex) = 0 := by lia
      simp only [if_pos hlast, if_neg hend, hzero]
    · have hend : 1 < rb.bufferSize - rb.readIndex := by lia
      simp only [if_neg hlast, if_pos hend]
      rw [toIndex_eq (by lia)]

inductive Op where
  | put (ptr : List UInt8)
  | get (length : ℕ)
  | putchar (ch : UInt8)
  | getchar

abbrev Result := List UInt8 × ℕ

def execute (rb : RtRingbuffer) : Op → RtRingbuffer × Result
  | .put ptr =>
    let (rb, count) := rtRingbufferPut rb ptr ptr.length
    (rb, [], count)
  | .get length => rtRingbufferGet rb length
  | .putchar ch =>
    let (rb, count) := rtRingbufferPutchar rb ch
    (rb, [], count)
  | .getchar =>
    let (rb, ch, count) := rtRingbufferGetchar rb
    (rb, ch.toList, count)

def queueStep (capacity : ℕ) (queue : List UInt8) : Op → List UInt8 × Result
  | .put ptr =>
    let count := min (toLength ptr.length) (capacity - queue.length)
    (queue ++ ptr.take count, [], count)
  | .get length =>
    let count := min (toLength length) queue.length
    (queue.drop count, queue.take count, count)
  | .putchar ch =>
    let count := min 1 (capacity - queue.length)
    (queue ++ [ch].take count, [], count)
  | .getchar =>
    let count := min 1 queue.length
    (queue.drop count, queue.take count, count)

def runOps {σ : Type} (step : σ → Op → σ × Result) : List Op → σ → σ × List Result
  | [], s => (s, [])
  | op :: ops, s =>
    let (s, result) := step s op
    let (s, results) := runOps step ops s
    (s, result :: results)

theorem toLength_le (length : ℕ) : toLength length ≤ length := Nat.mod_le _ _

/-- An operation on the buffer is the one on the queue of its bytes. -/
theorem Valid.execute (hvalid : Valid rb) (op : Op) :
    (execute rb op).2 = (queueStep rb.bufferSize (contents rb) op).2 ∧
      Valid (RingBuffer.execute rb op).1 ∧
      contents (RingBuffer.execute rb op).1 = (queueStep rb.bufferSize (contents rb) op).1 := by
  have hlength := Bounded.length_contents rb
  have hput : ∀ ptr : List UInt8, (rtRingbufferPut rb ptr ptr.length).2 =
          min (toLength ptr.length) (rb.bufferSize - (contents rb).length) ∧
        Valid (rtRingbufferPut rb ptr ptr.length).1 ∧
        contents (rtRingbufferPut rb ptr ptr.length).1 = contents rb ++
          ptr.take (min (toLength ptr.length) (rb.bufferSize - (contents rb).length)) := by
    intro ptr
    rw [hlength]
    exact hvalid.put (toLength_le _)
  have hget : ∀ length : ℕ, (rtRingbufferGet rb length).2 =
          ((contents rb).take (min (toLength length) (contents rb).length),
            min (toLength length) (contents rb).length) ∧
        Valid (rtRingbufferGet rb length).1 ∧
        contents (rtRingbufferGet rb length).1 =
          (contents rb).drop (min (toLength length) (contents rb).length) := by
    intro length
    rw [hlength]
    exact hvalid.get length
  cases op with
  | put ptr =>
    obtain ⟨hcount, hvalid', hcontents⟩ := hput ptr
    exact ⟨congrArg (Prod.mk []) hcount, hvalid', hcontents⟩
  | get length => exact hget length
  | putchar ch =>
    obtain ⟨hcount, hvalid', hcontents⟩ := hput [ch]
    rw [length_singleton, ← hvalid.bounded.putchar_eq ch] at hcount hvalid' hcontents
    exact ⟨congrArg (Prod.mk []) hcount, hvalid', hcontents⟩
  | getchar =>
    obtain ⟨hresult, hvalid', hcontents⟩ := hget 1
    have hone : min (toLength 1) (contents rb).length = min 1 (contents rb).length := rfl
    rw [hone] at hresult hcontents
    simp only [RingBuffer.execute, queueStep, hvalid.getchar_eq, hresult]
    refine ⟨?_, hvalid', hcontents⟩
    cases contents rb with
    | nil => rfl
    | cons ch rest => simp

theorem size_execute (rb : RtRingbuffer) (op : Op) :
    (execute rb op).1.bufferSize = rb.bufferSize := by
  cases op with
  | put ptr =>
    simp only [execute, rtRingbufferPut, writeBlock]
    split_ifs <;> rfl
  | get length =>
    simp only [execute, rtRingbufferGet]
    split_ifs <;> rfl
  | putchar ch =>
    simp only [execute, rtRingbufferPutchar, writeChar]
    split_ifs <;> rfl
  | getchar =>
    simp only [execute, rtRingbufferGetchar]
    split_ifs <;> rfl

theorem Valid.runOps (hvalid : Valid rb) (ops : List Op) : (runOps RingBuffer.execute ops rb).2 =
        (runOps (queueStep rb.bufferSize) ops (contents rb)).2 ∧
      Valid (RingBuffer.runOps RingBuffer.execute ops rb).1 ∧
      (RingBuffer.runOps RingBuffer.execute ops rb).1.bufferSize = rb.bufferSize ∧
      contents (RingBuffer.runOps RingBuffer.execute ops rb).1 =
        (RingBuffer.runOps (queueStep rb.bufferSize) ops (contents rb)).1 := by
  induction ops generalizing rb with
  | nil => exact ⟨rfl, hvalid, rfl, rfl⟩
  | cons op ops ih =>
    obtain ⟨hresult, hvalid', hcontents⟩ := hvalid.execute op
    obtain ⟨hresults, hfinal, hsize, hqueue⟩ := ih hvalid'
    rw [size_execute, hcontents] at hresults hqueue
    rw [size_execute] at hsize
    refine ⟨?_, hfinal, hsize, hqueue⟩
    simp only [runOps]
    rw [hresult, hresults]

theorem valid_init {a : AlignSize} {size : ℕ} (pool : ℕ → UInt8) (hlow : a.bytes ≤ size)
    (hhigh : size ≤ 32767) : Valid (rtRingbufferInit a pool size) ∧
      contents (rtRingbufferInit a pool size) = [] := by
  have hpos : 0 < rtAlignDown a size := by
    have hle : a.bytes ≤ rtAlignDown a size := le_rtAlignDown a (by omega) (dvd_refl _) hlow
    exact a.bytes_pos.trans_le hle
  have hle : rtAlignDown a size ≤ size := rtAlignDown_le a (by omega)
  refine ⟨⟨⟨hpos, hle.trans hhigh, hpos, hpos⟩, ?_⟩, ?_⟩
  · exact le_refl 0
  · rfl

/-- After any operations the ring buffer holds the bytes of the queue, each operation having
returned what the queue does. -/
theorem ringbuffer_refines_queue (a : AlignSize) (pool : ℕ → UInt8) (size : ℕ)
    (hlow : a.bytes ≤ size) (hhigh : size ≤ 32767) (ops : List Op) :
    let start := rtRingbufferInit a pool size
    let rb := (runOps execute ops start).1
    (runOps execute ops start).2 = (runOps (queueStep start.bufferSize) ops []).2 ∧
      contents rb = (runOps (queueStep start.bufferSize) ops []).1 ∧
      (contents rb).length = rtRingbufferDataLen rb ∧
      rtRingbufferDataLen rb ≤ rb.bufferSize ∧
      rb.bufferSize = start.bufferSize ∧
      rb.readIndex < rb.bufferSize ∧ rb.writeIndex < rb.bufferSize ∧
      (∀ ch, rtRingbufferPutchar rb ch = rtRingbufferPut rb [ch] 1) ∧
      rtRingbufferGetchar rb = ((rtRingbufferGet rb 1).1, (rtRingbufferGet rb 1).2.1.head?,
          (rtRingbufferGet rb 1).2.2) := by
  intro start rb
  obtain ⟨hvalid, hempty⟩ := valid_init pool hlow hhigh
  obtain ⟨hresults, hfinal, hsize, hcontents⟩ := hvalid.runOps ops
  rw [hempty] at hresults hcontents
  have hbounded := hfinal.bounded
  exact ⟨hresults, hcontents, Bounded.length_contents _, hbounded.dataLen_le, hsize,
    hbounded.read_lt, hbounded.write_lt, hbounded.putchar_eq, hfinal.getchar_eq⟩

theorem ringbuffer_refines_queue_in_sample :
    let start := rtRingbufferInit wordAlign (fun _ => 0) 10
    let ops : List Op := [.put [1, 2, 3, 4, 5, 6], .get 4, .put [7, 8, 9, 10, 11, 12, 13],
      .getchar, .putchar 14]
    let rb := (runOps execute ops start).1
    start.bufferSize = 8 ∧ contents rb = [6, 7, 8, 9, 10, 11, 12, 14] ∧
      contents rb = (runOps (queueStep start.bufferSize) ops []).1 := by
  refine ⟨by decide, by decide, ?_⟩
  exact (ringbuffer_refines_queue wordAlign (fun _ => 0) 10 (by decide) (by norm_num) _).2.1

end RtThread.RingBuffer
