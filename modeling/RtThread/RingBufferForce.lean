import RtThread.RingBufferQueue

/-!
# Forced writes

`rt_ringbuffer_put_force` cuts a long block to its first bytes, and it moves the read side
only when the buffer was full before.  A block which overruns the unread bytes of a buffer
that was not full leaves the read side where it was, so that most of the bytes are lost.
After that the mirror bits no longer agree with the indices.
-/

namespace RtThread.RingBuffer

open List CircularBuffer

def lastBytes (n : ℕ) (bytes : List UInt8) : List UInt8 := bytes.drop (bytes.length - n)

inductive ForceOp where
  | op (op : Op)
  | putForce (ptr : List UInt8)
  | putcharForce (ch : UInt8)

def executeForce (rb : RtRingbuffer) : ForceOp → RtRingbuffer
  | .op op => (execute rb op).1
  | .putForce ptr => (rtRingbufferPutForce rb ptr ptr.length).1
  | .putcharForce ch => (rtRingbufferPutcharForce rb ch).1

/-- The block overruns no unread byte, or the buffer is full; a block which fills the
buffer is told from an empty buffer by the mirrors only. -/
def Fits (rb : RtRingbuffer) (length : ℕ) : Prop :=
  rtRingbufferDataLen rb = rb.bufferSize ∨
    rtRingbufferDataLen rb + min length rb.bufferSize < rb.bufferSize ∨
    rtRingbufferDataLen rb + min length rb.bufferSize = rb.bufferSize ∧ Ordered rb

def FirstAreLast (n : ℕ) (block : List UInt8) : Prop :=
  block.length ≤ n ∨ block.take n = block.drop (block.length - n)

variable {rb : RtRingbuffer} {block : List UInt8} {length : ℕ}

namespace Bounded

section

variable (hbounded : Bounded rb)
include hbounded

theorem status_full_iff :
    rtRingbufferStatus rb = .full ↔ rtRingbufferDataLen rb = rb.bufferSize := by
  have hwrite := hbounded.write_lt
  unfold rtRingbufferStatus
  rw [dataLen_eq]
  split_ifs <;> simp <;> lia

theorem writeBlock (hlength : length ≤ rb.bufferSize) (ptr : List UInt8) :
    Bounded (writeBlock rb ptr length) := by
  rw [hbounded.writeBlock_eq hlength]
  exact ⟨hbounded.size_pos, hbounded.size_le, hbounded.read_lt, Nat.mod_lt _ hbounded.size_pos⟩

theorem put (ptr : List UInt8) (length : ℕ) : Bounded (rtRingbufferPut rb ptr length).1 := by
  unfold rtRingbufferPut
  by_cases hfull : rtRingbufferSpaceLen rb = 0
  · simp only [if_pos hfull]
    exact hbounded
  · simp only [if_neg hfull]
    apply hbounded.writeBlock
    exact (Nat.min_le_right _ _).trans (Nat.sub_le _ _)

theorem putForce (ptr : List UInt8) (length : ℕ) :
    Bounded (rtRingbufferPutForce rb ptr length).1 := by
  have hwritten := hbounded.writeBlock (Nat.min_le_right (toLength length) rb.bufferSize) ptr
  unfold rtRingbufferPutForce
  by_cases hfull : rtRingbufferStatus rb = .full
  · simp only [if_pos hfull]
    exact ⟨hwritten.size_pos, hwritten.size_le, hwritten.write_lt, hwritten.write_lt⟩
  · simp only [if_neg hfull]
    exact hwritten

theorem get (length : ℕ) : Bounded (rtRingbufferGet rb length).1 := by
  have hsize := hbounded.size_le
  have hread := hbounded.read_lt
  have hle := hbounded.dataLen_le
  unfold rtRingbufferGet
  by_cases hempty : rtRingbufferDataLen rb = 0
  · simp only [if_pos hempty]
    exact hbounded
  · simp only [if_neg hempty, toIndex]
    split_ifs with hend
    · exact ⟨hbounded.size_pos, hsize, by dsimp only; lia, hbounded.write_lt⟩
    · exact ⟨hbounded.size_pos, hsize, by dsimp only; lia, hbounded.write_lt⟩

theorem getchar : Bounded (rtRingbufferGetchar rb).1 := by
  have hsize := hbounded.size_le
  have hread := hbounded.read_lt
  unfold rtRingbufferGetchar
  by_cases hempty : rtRingbufferDataLen rb = 0
  · simp only [if_pos hempty]
    exact hbounded
  · simp only [if_neg hempty, toIndex]
    split_ifs with hlast
    · exact ⟨hbounded.size_pos, hsize, hbounded.size_pos, hbounded.write_lt⟩
    · exact ⟨hbounded.size_pos, hsize, by dsimp only; omega, hbounded.write_lt⟩

theorem putcharForce_eq (ch : UInt8) :
    rtRingbufferPutcharForce rb ch = rtRingbufferPutForce rb [ch] 1 := by
  have hwrite := hbounded.write_lt
  have hone : min (toLength 1) rb.bufferSize = 1 := by
    unfold toLength
    lia
  unfold rtRingbufferPutcharForce rtRingbufferPutForce
  simp only [hone, hbounded.writeChar_eq ch]
  by_cases hlast : rb.writeIndex = rb.bufferSize - 1
  · have hend : ¬1 < rb.bufferSize - rb.writeIndex := by lia
    simp only [if_pos hlast, if_neg hend]
  · have hend : 1 < rb.bufferSize - rb.writeIndex := by lia
    simp only [if_neg hlast, if_pos hend]

theorem executeForce (op : ForceOp) : Bounded (executeForce rb op) := by
  cases op with
  | putForce ptr => exact hbounded.putForce ptr ptr.length
  | putcharForce ch =>
    simp only [RingBuffer.executeForce, hbounded.putcharForce_eq ch]
    exact hbounded.putForce [ch] 1
  | op op =>
    cases op with
    | put ptr => exact hbounded.put ptr ptr.length
    | get length => exact hbounded.get length
    | putchar ch =>
      simp only [RingBuffer.executeForce, execute, hbounded.putchar_eq ch]
      exact hbounded.put [ch] 1
    | getchar => exact hbounded.getchar

theorem foldl_executeForce (ops : List ForceOp) :
    Bounded (ops.foldl RingBuffer.executeForce rb) := by
  induction ops generalizing rb with
  | nil => exact hbounded
  | cons op ops ih => exact ih (hbounded.executeForce op)

theorem dataLen_cases (hnot : rtRingbufferDataLen rb ≠ rb.bufferSize) :
    rtRingbufferDataLen rb < rb.bufferSize ∧
      (rb.readIndex = rb.writeIndex → rb.readMirror = rb.writeMirror) ∧
      (rb.readIndex ≤ rb.writeIndex ∧ rtRingbufferDataLen rb + rb.readIndex = rb.writeIndex ∨
        rb.writeIndex < rb.readIndex ∧
          rtRingbufferDataLen rb + rb.readIndex = rb.bufferSize + rb.writeIndex) := by
  have hread := hbounded.read_lt
  have hwrite := hbounded.write_lt
  rw [dataLen_eq] at hnot ⊢
  split_ifs at hnot ⊢ with heq hmirror hlt
  · exact ⟨hbounded.size_pos, fun _ => hmirror, .inl ⟨heq.le, by lia⟩⟩
  · contradiction
  · exact ⟨by lia, fun h => absurd h heq, .inl ⟨hlt.le, by lia⟩⟩
  · exact ⟨by lia, fun h => absurd h heq, .inr ⟨by lia, by lia⟩⟩

theorem dataLen_writeBlock (hlength : length ≤ rb.bufferSize)
    (hnot : rtRingbufferDataLen rb ≠ rb.bufferSize) (ptr : List UInt8) :
    rtRingbufferDataLen (RingBuffer.writeBlock rb ptr length) =
      if rtRingbufferDataLen rb + length < rb.bufferSize then rtRingbufferDataLen rb + length
      else if rtRingbufferDataLen rb + length = rb.bufferSize then
        if Ordered rb then rb.bufferSize else 0
      else rtRingbufferDataLen rb + length - rb.bufferSize := by
  have hread := hbounded.read_lt
  have hwrite := hbounded.write_lt
  obtain ⟨hlt, hempty, hcases⟩ := hbounded.dataLen_cases hnot
  rw [hbounded.writeBlock_eq hlength, dataLen_eq (RtRingbuffer.mk _ _ _ _ _ _)]
  simp only [moveWrite, add_mod_size hwrite hlength]
  generalize rtRingbufferDataLen rb = data at *
  have hordered : Ordered rb ↔ (rb.readMirror = rb.writeMirror ↔ rb.readIndex ≤ rb.writeIndex) := by
    unfold Ordered
    by_cases hmirror : rb.readMirror = rb.writeMirror
    · simp [hmirror]
    · have hne : rb.readIndex ≠ rb.writeIndex := fun heq => hmirror (hempty heq)
      lia
  by_cases hend : length < rb.bufferSize - rb.writeIndex
  · simp only [if_pos hend]
    obtain ⟨hle, hdata⟩ | ⟨hgt, hdata⟩ := hcases
    · -- Both indices stay in front of the end.
      rw [if_pos (by lia : data + length < rb.bufferSize)]
      split_ifs with heq hmirror
      · lia
      · exact absurd (hempty (by lia)) hmirror
      · lia
      · lia
    · simp only [hordered, hgt.not_ge, iff_false]
      split_ifs <;> lia
  · have hflip : rb.readMirror = !rb.writeMirror ↔ ¬rb.readMirror = rb.writeMirror := by
      cases rb.readMirror <;> cases rb.writeMirror <;> simp
    obtain ⟨hle, hdata⟩ | ⟨hgt, hdata⟩ := hcases
    · simp only [hordered, hle, iff_true]
      split_ifs <;> lia
    · -- The block goes round the end and past the read side.
      rw [if_neg (by lia : ¬data + length < rb.bufferSize),
        if_neg (by lia : data + length ≠ rb.bufferSize)]
      split_ifs <;> lia

theorem contents_putForce_of_full
    (hfull : rtRingbufferDataLen rb = rb.bufferSize) (hptr : length ≤ block.length)
    (hlength : length < 65536) : contents (rtRingbufferPutForce rb block length).1 =
      (contents rb).drop (min length rb.bufferSize) ++ block.take (min length rb.bufferSize) := by
  have hstatus := hbounded.status_full_iff.mpr hfull
  have hread := hbounded.read_lt
  have hcount : min (toLength length) rb.bufferSize = min length rb.bufferSize := by
    rw [toLength, Nat.mod_eq_of_lt hlength]
  generalize hn : min length rb.bufferSize = n at hcount ⊢
  have hle : n ≤ rb.bufferSize := by lia
  have hequal : rb.readIndex = rb.writeIndex ∧ ¬rb.readMirror = rb.writeMirror := by
    unfold rtRingbufferStatus at hstatus
    split_ifs at hstatus with heq hmirror
    exact ⟨heq, hmirror⟩
  unfold rtRingbufferPutForce
  simp only [if_pos hstatus, hcount, hbounded.writeBlock_eq hle, moveWrite]
  have hmirrors : ¬(if n < rb.bufferSize - rb.writeIndex then rb.readMirror else !rb.readMirror) =
      (if n < rb.bufferSize - rb.writeIndex then rb.writeMirror else !rb.writeMirror) := by
    split_ifs
    · exact hequal.2
    · simpa using hequal.2
  have hbase : rb.writeIndex = (rb.readIndex + n + (rb.bufferSize - n)) % rb.bufferSize := by
    rw [Nat.add_assoc, Nat.add_sub_of_le hle, Nat.add_mod_right, Nat.mod_eq_of_lt hread, hequal.1]
  have htake : (block.take n).length = n := by
    rw [length_take]
    lia
  have hwindow : window
      (blitRound rb.bufferPtr rb.bufferSize rb.writeIndex (block.take n)) rb.bufferSize
      (rb.readIndex + n) (rb.bufferSize - n + (block.take n).length) =
      window rb.bufferPtr rb.bufferSize (rb.readIndex + n) (rb.bufferSize - n) ++
        block.take n := by
    apply window_blitRound hbounded.size_pos hbase
    rw [htake]
    lia
  rw [htake, Nat.sub_add_cancel hle] at hwindow
  unfold contents
  rw [dataLen_eq (RtRingbuffer.mk _ _ _ _ _ _), if_pos rfl, if_neg hmirrors, hfull,
    drop_window hle, ← hwindow, ← hequal.1, window_mod]

theorem contents_writeBlock (hlength : length ≤ rb.bufferSize)
    (hptr : length ≤ block.length) (hroom : rtRingbufferDataLen rb + length ≤ rb.bufferSize)
    (hnew : rtRingbufferDataLen (RingBuffer.writeBlock rb block length) =
      rtRingbufferDataLen rb + length) :
    contents (RingBuffer.writeBlock rb block length) = contents rb ++ block.take length := by
  have htake : (block.take length).length = length := by
    rw [length_take]
    omega
  unfold contents
  rw [hnew, hbounded.writeBlock_eq hlength]
  have hwindow : window
      (blitRound rb.bufferPtr rb.bufferSize rb.writeIndex (block.take length)) rb.bufferSize
      rb.readIndex (rtRingbufferDataLen rb + (block.take length).length) =
      window rb.bufferPtr rb.bufferSize rb.readIndex (rtRingbufferDataLen rb) ++
        block.take length := by
    apply window_blitRound hbounded.size_pos hbounded.writeIndex_eq
    rw [htake]
    exact hroom
  rw [htake] at hwindow
  exact hwindow

end

end Bounded

theorem length_lastBytes (n : ℕ) (bytes : List UInt8) :
    (lastBytes n bytes).length = min n bytes.length := by
  rw [lastBytes, length_drop]
  lia

theorem lastBytes_of_le {n : ℕ} {bytes : List UInt8} (hle : bytes.length ≤ n) :
    lastBytes n bytes = bytes := by
  rw [lastBytes, Nat.sub_eq_zero_of_le hle, drop_zero]

/-- A forced put keeps the last bytes exactly when its condition holds. -/
theorem Bounded.putForce_iff (hbounded : Bounded rb) (hblock : block.length < 65536) :
    contents (rtRingbufferPutForce rb block block.length).1 =
        lastBytes rb.bufferSize (contents rb ++ block) ↔
      Fits rb block.length ∧ FirstAreLast rb.bufferSize block := by
  have hcontents := length_contents rb
  have hlast := length_lastBytes rb.bufferSize (contents rb ++ block)
  rw [length_append, hcontents] at hlast
  by_cases hfull : rtRingbufferDataLen rb = rb.bufferSize
  · have hfits : Fits rb block.length := .inl hfull
    rw [hbounded.contents_putForce_of_full hfull le_rfl hblock]
    simp only [hfits, true_and, FirstAreLast]
    by_cases hshort : block.length ≤ rb.bufferSize
    · simp only [hshort, true_or, iff_true, Nat.min_eq_left hshort, take_length]
      rw [lastBytes, length_append, hcontents, hfull, Nat.add_sub_cancel_left,
        drop_append_of_le_length (by rw [hcontents, hfull]; exact hshort)]
    · have hmin : min block.length rb.bufferSize = rb.bufferSize := by lia
      have hdrop : (contents rb).drop rb.bufferSize = [] :=
        drop_eq_nil_of_le (by rw [hcontents, hfull])
      have hlong : lastBytes rb.bufferSize (contents rb ++ block) =
          block.drop (block.length - rb.bufferSize) := by
        rw [lastBytes, length_append, hcontents, hfull, Nat.add_sub_cancel_left,
          drop_append, drop_eq_nil_of_le (by rw [hcontents, hfull]; lia),
          hcontents, hfull, nil_append]
      simp only [hshort, false_or, hmin, hdrop, nil_append, hlong]
  · have hstatus : rtRingbufferStatus rb ≠ .full := fun h => hfull (hbounded.status_full_iff.mp h)
    have hlt := (hbounded.dataLen_cases hfull).1
    have hcount : min (toLength block.length) rb.bufferSize = min block.length rb.bufferSize := by
      rw [toLength, Nat.mod_eq_of_lt hblock]
    have hforce : (rtRingbufferPutForce rb block block.length).1 =
        RingBuffer.writeBlock rb block (min block.length rb.bufferSize) := by
      unfold rtRingbufferPutForce
      simp only [if_neg hstatus, hcount]
    rw [hforce]
    unfold Fits FirstAreLast
    generalize hn : min block.length rb.bufferSize = n
    have hle : n ≤ rb.bufferSize := by lia
    have hnew := hbounded.dataLen_writeBlock hle hfull block
    have hlength := length_contents (RingBuffer.writeBlock rb block n)
    rw [hnew] at hlength
    -- A buffer with fewer bytes than the last ones cannot hold them.
    have hshorter : rtRingbufferDataLen (RingBuffer.writeBlock rb block n) <
        min rb.bufferSize (rtRingbufferDataLen rb + block.length) →
        contents (RingBuffer.writeBlock rb block n) ≠
          lastBytes rb.bufferSize (contents rb ++ block) := by
      intro hless heq
      have hsame := congrArg List.length heq
      rw [hlast, hlength, ← hnew] at hsame
      lia
    by_cases hroom : rtRingbufferDataLen rb + n < rb.bufferSize
    · rw [if_pos hroom] at hnew
      have hshort : block.length ≤ rb.bufferSize := by lia
      have hall : block.take n = block := take_of_length_le (by lia)
      rw [hbounded.contents_writeBlock hle (by lia) hroom.le hnew, hall]
      simp only [hroom, hshort, true_or, or_true, and_true, iff_true]
      rw [lastBytes_of_le]
      rw [length_append, hcontents]
      lia
    by_cases hexact : rtRingbufferDataLen rb + n = rb.bufferSize
    · rw [if_neg hroom, if_pos hexact] at hnew
      by_cases hordered : Ordered rb
      · rw [if_pos hordered] at hnew
        rw [hbounded.contents_writeBlock hle (by lia) hexact.le (hnew.trans hexact.symm)]
        simp only [hexact, hordered, true_and, or_true]
        by_cases hshort : block.length ≤ rb.bufferSize
        · have hall : block.take n = block := take_of_length_le (by lia)
          simp only [hshort, true_or, iff_true, hall]
          rw [lastBytes_of_le]
          rw [length_append, hcontents]
          lia
        · have hzero : rtRingbufferDataLen rb = 0 := by lia
          have hnil : contents rb = [] := by
            apply eq_nil_of_length_eq_zero
            rw [hcontents, hzero]
          have hsize : n = rb.bufferSize := by lia
          simp only [hshort, false_or, hnil, nil_append, hsize, lastBytes]
      · rw [if_neg hordered] at hnew
        have hbytes := hshorter (by lia)
        simp only [hbytes, hfull, hroom, hordered, and_false, or_false, false_and]
    · rw [if_neg hroom, if_neg hexact] at hnew
      have hbytes := hshorter (by lia)
      simp only [hbytes, hfull, hroom, hexact, false_and, or_false]

/-- In every state which the operations lead to, forced ones included. -/
theorem putForce_keeps_last_iff (a : AlignSize) (pool : ℕ → UInt8) (size : ℕ)
    (hlow : a.bytes ≤ size) (hhigh : size ≤ 32767) (ops : List ForceOp) (block : List UInt8)
    (hblock : block.length < 65536) :
    let rb := ops.foldl executeForce (rtRingbufferInit a pool size)
    (contents (rtRingbufferPutForce rb block block.length).1 =
        lastBytes rb.bufferSize (contents rb ++ block) ↔
      Fits rb block.length ∧ FirstAreLast rb.bufferSize block) ∧
    ∀ ch, rtRingbufferPutcharForce rb ch = rtRingbufferPutForce rb [ch] 1 := by
  intro rb
  have hbounded : Bounded rb := (valid_init pool hlow hhigh).1.bounded.foldl_executeForce ops
  exact ⟨hbounded.putForce_iff hblock, hbounded.putcharForce_eq⟩

theorem putForce_keeps_last_in_sample :
    let rb := [ForceOp.op (.put [1, 2, 3, 4])].foldl executeForce
      (rtRingbufferInit wordAlign (fun _ => 0) 8)
    contents (rtRingbufferPutForce rb [5, 6, 7, 8] 4).1 = [1, 2, 3, 4, 5, 6, 7, 8] ∧
      ((contents (rtRingbufferPutForce rb [5, 6, 7, 8] 4).1 =
          lastBytes rb.bufferSize (contents rb ++ [5, 6, 7, 8]) ↔
        Fits rb 4 ∧ FirstAreLast rb.bufferSize [5, 6, 7, 8]) ∧
      ∀ ch, rtRingbufferPutcharForce rb ch = rtRingbufferPutForce rb [ch] 1) := by
  refine ⟨by decide, ?_⟩
  exact putForce_keeps_last_iff wordAlign (fun _ => 0) 8 (by decide) (by norm_num)
    [.op (.put [1, 2, 3, 4])] [5, 6, 7, 8] (by norm_num)

/-- Four bytes are in the buffer and six are forced into it: two are left.  A block of ten
bytes leaves its first eight. -/
theorem putForce_loses_bytes :
    let start := rtRingbufferInit wordAlign (fun _ => 0) 8
    let rb := [ForceOp.op (.put [1, 2, 3, 4])].foldl executeForce start
    contents (rtRingbufferPutForce rb [5, 6, 7, 8, 9, 10] 6).1 = [9, 10] ∧
      lastBytes rb.bufferSize (contents rb ++ [5, 6, 7, 8, 9, 10]) = [3, 4, 5, 6, 7, 8, 9, 10] ∧
      contents (rtRingbufferPutForce start [1, 2, 3, 4, 5, 6, 7, 8, 9, 10] 10).1 =
        [1, 2, 3, 4, 5, 6, 7, 8] ∧
      lastBytes start.bufferSize (contents start ++ [1, 2, 3, 4, 5, 6, 7, 8, 9, 10]) =
        [3, 4, 5, 6, 7, 8, 9, 10] := by
  decide

end RtThread.RingBuffer
