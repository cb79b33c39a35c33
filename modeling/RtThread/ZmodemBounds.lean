import RtThread.ZmodemRuns

/-!
# What the ZMODEM receivers write

The line holds the bytes that have arrived so far; a receiver at its end waits for the next
one.  The loops test for room in front of every byte read, and go on when the buffer is just
full.
-/

namespace RtThread.Zmodem

open List DataState

/-- What the loop of `zrec_data16` and `zrec_data32` has stored when it returns, or waits for a
byte. -/
def zrecStored {w : ℕ} (upd : Byte → BitVec w → BitVec w) (crcBytes : ℕ) (mask : BitVec w)
    (room : ℕ → Bool) : ℕ → DataState w → List Byte → List Byte
  | 0, s, _ => s.buf
  | n + 1, s, line =>
    if room s.buf.length then
      match zreadByte line with
      | none => s.buf
      | some (res, line) =>
        match if isCode res then s.code upd res
          else s.byte upd crcBytes mask (BitVec.ofInt 8 res) with
        | .ok s => zrecStored upd crcBytes mask room n s line
        | .error _ => s.buf
    else s.buf

/-- What the loop of `zrec_data32r` does with a result of `zread_byte`: the new `c` and the new
variables, unless it returns. -/
def zrecRunRound (len c res : ℤ) (s : DataState 32) : Except ℤ (ℤ × DataState 32) :=
  let b := BitVec.ofInt 8 res
  if isCode res then (s.code updcrc32 res).map fun s => (res, s)
  else match s.frameEnd with
    | some end' => (s.check updcrc32 4 0xDEBB20E3 b end').map fun s => (c, s)
    | none =>
      match runDecode len c b s.buf with
      | some (c, buf) => .ok (c, { s with buf := buf, crc := updcrc32 b s.crc })
      | none => .error (-RT_ERROR)

def zrecRunStored (len : ℤ) : ℕ → ℤ → DataState 32 → List Byte → List Byte
  | 0, _, s, _ => s.buf
  | n + 1, c, s, line =>
    if (s.buf.length : ℤ) ≤ len then
      match zreadByte line with
      | none => s.buf
      | some (res, line) =>
        match zrecRunRound len c res s with
        | .ok (c, s) => zrecRunStored len n c s line
        | .error _ => s.buf
    else s.buf

def zgetStored (rxCRC : ℕ) (p c : ℤ) (len : ℕ) (line : List Byte) : List Byte :=
  if rxCRC = 0 then
    zrecStored updcrc16 2 (0xffff : BitVec 16) (fun stored => stored ≤ len) (line.length + 1)
      { buf := [], crc := 0, crcCnt := 0, frameEnd := none } line
  else if rxCRC = 1 then
    zrecStored updcrc32 4 0xDEBB20E3 (fun stored => (stored : ℤ) ≤ p + int16 len)
      (line.length + 1) { buf := [], crc := 0xffffffff, crcCnt := 0, frameEnd := none } line
  else if rxCRC = 2 then
    zrecRunStored (int16 len) (line.length + 1) c
      { buf := [], crc := 0xffffffff, crcCnt := 0, frameEnd := none } line
  else []

section Returns

variable {w : ℕ} {upd : Byte → BitVec w → BitVec w} {crcBytes n : ℕ} {mask : BitVec w}
  {room : ℕ → Bool} {len c : ℤ} {line : List Byte} {received : Received}

theorem zrecStored_of_zrecLoop {s : DataState w}
    (h : zrecLoop upd crcBytes mask room n s line = some received) :
    received.buf = zrecStored upd crcBytes mask room n s line ∧
      received.rxcount = received.buf.length % 65536 := by
  induction n generalizing s line with
  | zero => cases h
  | succ n ih =>
    rw [zrecLoop] at h
    rw [zrecStored]
    by_cases hroom : room s.buf.length = true
    · rw [if_pos hroom] at h ⊢
      cases hread : zreadByte line with
      | none =>
        rw [hread] at h
        cases h
      | some next =>
        rw [hread, Option.bind_some] at h
        dsimp only at h ⊢
        cases hround : (if isCode next.1 then s.code upd next.1
            else s.byte upd crcBytes mask (BitVec.ofInt 8 next.1)) with
        | ok s' =>
          rw [hround] at h
          exact ih h
        | error result =>
          rw [hround] at h
          cases h
          exact ⟨rfl, rfl⟩
    · rw [if_neg hroom] at h ⊢
      cases h
      exact ⟨rfl, rfl⟩

theorem zrecRunLoop_succ (n : ℕ) (s : DataState 32) (line : List Byte) :
    zrecRunLoop len (n + 1) c s line =
      if (s.buf.length : ℤ) ≤ len then
        (zreadByte line).bind fun (res, line) =>
          match zrecRunRound len c res s with
          | .ok (c, s) => zrecRunLoop len n c s line
          | .error result => some (s.finish result line)
      else some (s.finish (-RT_ERROR) line) := rfl

theorem zrecRunStored_of_zrecRunLoop {s : DataState 32}
    (h : zrecRunLoop len n c s line = some received) : received.buf = zrecRunStored len n c s line ∧
      received.rxcount = received.buf.length % 65536 := by
  induction n generalizing c s line with
  | zero => cases h
  | succ n ih =>
    rw [zrecRunLoop_succ] at h
    rw [zrecRunStored]
    by_cases hroom : (s.buf.length : ℤ) ≤ len
    · rw [if_pos hroom] at h ⊢
      cases hread : zreadByte line with
      | none =>
        rw [hread] at h
        cases h
      | some next =>
        rw [hread, Option.bind_some] at h
        dsimp only at h ⊢
        cases hround : zrecRunRound len c next.1 s with
        | ok s' =>
          rw [hround] at h
          exact ih h
        | error result =>
          rw [hround] at h
          cases h
          exact ⟨rfl, rfl⟩
    · rw [if_neg hroom] at h ⊢
      cases h
      exact ⟨rfl, rfl⟩

theorem zgetStored_of_zgetData {rxCRC limit : ℕ} {p : ℤ}
    (h : zgetData rxCRC p c limit line = some received) :
    received.buf = zgetStored rxCRC p c limit line ∧
      received.rxcount = received.buf.length % 65536 := by
  unfold zgetData at h
  unfold zgetStored
  split_ifs at h ⊢
  · exact zrecStored_of_zrecLoop h
  · exact zrecStored_of_zrecLoop h
  · exact zrecRunStored_of_zrecRunLoop h
  · cases h
    exact ⟨rfl, rfl⟩

end Returns

/-- The bytes that `zread_byte` reads up to the first result that is not a byte, at most `n`. -/
def dataRounds : ℕ → List Byte → List Byte
  | 0, _ => []
  | n + 1, line =>
    match zreadByte line with
    | none => []
    | some (res, line) => if isCode res then [] else BitVec.ofInt 8 res :: dataRounds n line

def dataBytes (line : List Byte) : List Byte := dataRounds (line.length + 1) line

/-- A piece of run-length coded data: the room that the decoder asks for, and the bytes that it
then stores. -/
structure RunPiece where
  announced : ℤ
  bytes : List Byte

inductive RunStep where
  | waits (c : ℤ)
  | stores (piece : RunPiece)
  | stops

def runStep (c : ℤ) (res : Byte) : RunStep :=
  if c = 0 then
    if res = ZRESC then .waits (-1) else .stores { announced := 0, bytes := [res] }
  else if c = -1 then
    if 0o40 ≤ res ∧ res < 0o100 then
      .stores { announced := res.toNat - 0o35, bytes := descending 0o40 }
    else if res = 0o100 then .stores { announced := 0, bytes := [ZRESC] }
    else .waits res.toNat
  else if int16 (c - 0o100) < 1 then .stops
  else .stores { announced := int16 (c - 0o100), bytes := descending res }

def runPieces : ℤ → List Byte → List RunPiece
  | _, [] => []
  | c, res :: bytes =>
    match runStep c res with
    | .waits c => runPieces c bytes
    | .stores piece => piece :: runPieces 0 bytes
    | .stops => []

def runSize (pieces : List RunPiece) : ℕ := (pieces.map fun piece => piece.bytes.length).sum

/-- Behind `stored` bytes, a piece that expands beyond the limit is, or stands behind, one that
announces that it does. -/
def RunsFit (len : ℤ) (stored : ℕ) (pieces : List RunPiece) : Prop :=
  ∀ k piece, pieces[k]? = some piece → len < stored + runSize (pieces.take k) + piece.bytes.length →
    ∃ j ≤ k, ∃ run, pieces[j]? = some run ∧ len < stored + runSize (pieces.take j) + run.announced

/-- The data bytes fit the buffer, or the receiver stops before its end. -/
def HasRoom (rxCRC : ℕ) (p c : ℤ) (len : BitVec 16) (line : List Byte) : Prop :=
  (rxCRC = 0 → (dataBytes line).length ≤ len.toNat) ∧
  (rxCRC = 1 → (dataBytes line).length ≤ len.toNat ∨ p + int16 len.toNat < len.toNat) ∧
  (rxCRC = 2 → int16 len.toNat < 0 ∨ RunsFit len.toNat 0 (runPieces c (dataBytes line)))

/-- Nothing is stored behind the first `len` bytes of the buffer, and `Rxcount`, which counts
the bytes stored, has always been at most `len`. -/
def StaysInside (rxCRC : ℕ) (p c : ℤ) (len : BitVec 16) (line : List Byte) : Prop :=
  (∀ pos < (zgetStored rxCRC p c len.toNat line).length, pos < len.toNat) ∧
    ∀ count ≤ (zgetStored rxCRC p c len.toNat line).length, count % 65536 ≤ len.toNat

theorem staysInside_of_stored (rxCRC : ℕ) (p c : ℤ) (len : BitVec 16) (line : List Byte) :
    StaysInside rxCRC p c len line ↔ (zgetStored rxCRC p c len.toNat line).length ≤ len.toNat := by
  constructor
  · intro hinside
    by_contra hbeyond
    exact lt_irrefl _ (hinside.1 len.toNat (not_le.mp hbeyond))
  · intro hstored
    constructor
    · intro pos hpos
      exact lt_of_lt_of_le hpos hstored
    · intro count hcount
      exact (Nat.mod_le _ _).trans (hcount.trans hstored)

section Plain

variable {w : ℕ} {upd : Byte → BitVec w → BitVec w} {crcBytes n : ℕ} {mask : BitVec w}
  {room : ℕ → Bool} {s : DataState w} {line : List Byte}

theorem zrecStored_frameEnd {c : ℤ} (hflag : s.frameEnd = some c) :
    zrecStored upd crcBytes mask room n s line = s.buf := by
  induction n generalizing s line c with
  | zero => rfl
  | succ n ih =>
      rw [zrecStored]
      by_cases hroom : room s.buf.length = true
      · rw [if_pos hroom]
        cases zreadByte line with
        | none => rfl
        | some next =>
            dsimp only
            cases hround : (if isCode next.1 then s.code upd next.1
                else s.byte upd crcBytes mask (BitVec.ofInt 8 next.1)) with
            | error result => rfl
            | ok s' =>
                have hkept : s'.buf = s.buf ∧ ∃ c, s'.frameEnd = some c := by
                  simp only [code, byte, hflag, check] at hround
                  split_ifs at hround
                  all_goals
                    cases hround
                    exact ⟨rfl, _, rfl⟩
                obtain ⟨hbuf, c', hflag'⟩ := hkept
                exact (ih hflag').trans hbuf
      · rw [if_neg hroom]

theorem length_le_zrecStored :
    s.buf.length ≤ (zrecStored upd crcBytes mask room n s line).length := by
  induction n generalizing s line with
  | zero => exact le_refl _
  | succ n ih =>
      cases hflag : s.frameEnd with
      | some c => rw [zrecStored_frameEnd hflag]
      | none =>
          rw [zrecStored]
          by_cases hroom : room s.buf.length = true
          · rw [if_pos hroom]
            cases zreadByte line with
            | none => exact le_refl _
            | some next =>
                dsimp only
                cases hround : (if isCode next.1 then s.code upd next.1
                    else s.byte upd crcBytes mask (BitVec.ofInt 8 next.1)) with
                | error result => exact le_refl _
                | ok s' =>
                    have hgrows : s.buf.length ≤ s'.buf.length := by
                      simp only [code, byte, hflag] at hround
                      split_ifs at hround
                      all_goals
                        cases hround
                        simp
                    exact hgrows.trans ih
          · rw [if_neg hroom]

def DataState.store (upd : Byte → BitVec w → BitVec w) (res : Byte) (s : DataState w) :
    DataState w :=
  { s with buf := s.buf ++ [res], crc := upd res s.crc }

theorem DataState.length_store (res : Byte) : (s.store upd res).buf.length = s.buf.length + 1 :=
  length_append

theorem DataState.byte_store (hflag : s.frameEnd = none) (res : Byte) :
    s.byte upd crcBytes mask res = .ok (s.store upd res) := by
  unfold byte store
  simp only [hflag]

theorem zrecStored_round (hflag : s.frameEnd = none) (hroom : room s.buf.length = true) :
    zrecStored upd crcBytes mask room (n + 1) s line = match zreadByte line with
      | none => s.buf
      | some (res, line) =>
          if isCode res then s.buf
          else zrecStored upd crcBytes mask room n (s.store upd (BitVec.ofInt 8 res)) line := by
  rw [zrecStored, if_pos hroom]
  cases zreadByte line with
  | none => rfl
  | some next =>
      dsimp only
      by_cases hcode : isCode next.1 = true
      · rw [if_pos hcode, if_pos hcode]
        unfold code
        split_ifs
        · exact zrecStored_frameEnd rfl
        · rfl
        · rfl
      · rw [if_neg hcode, if_neg hcode, byte_store hflag]

/-- When the bytes stored stay within `len`. -/
theorem zrecStored_le_iff {len : ℕ} (hflag : s.frameEnd = none) (hstored : s.buf.length ≤ len) :
    (zrecStored upd crcBytes mask room n s line).length ≤ len ↔
      s.buf.length + (dataRounds n line).length ≤ len ∨
        ∃ k ≤ len, s.buf.length ≤ k ∧ room k = false := by
  induction n generalizing s line with
  | zero => exact iff_of_true hstored (.inl hstored)
  | succ n ih =>
      by_cases hroom : room s.buf.length = true
      · rw [zrecStored_round hflag hroom, dataRounds]
        cases zreadByte line with
        | none => exact iff_of_true hstored (.inl hstored)
        | some next =>
            dsimp only
            by_cases hcode : isCode next.1 = true
            · rw [if_pos hcode, if_pos hcode]
              exact iff_of_true hstored (.inl hstored)
            · rw [if_neg hcode, if_neg hcode, length_cons]
              have hlength : (s.store upd (BitVec.ofInt 8 next.1)).buf.length = s.buf.length + 1 :=
                s.length_store _
              have hflag' : (s.store upd (BitVec.ofInt 8 next.1)).frameEnd = none := hflag
              generalize s.store upd (BitVec.ofInt 8 next.1) = s' at hlength hflag' ⊢
              have hlater : (∃ k ≤ len, s'.buf.length ≤ k ∧ room k = false) ↔
                  ∃ k ≤ len, s.buf.length ≤ k ∧ room k = false := by
                constructor
                · intro ⟨k, hk, hfrom, hfull⟩
                  exact ⟨k, hk, by omega, hfull⟩
                · intro ⟨k, hk, hfrom, hfull⟩
                  have hne : k ≠ s.buf.length := by
                    intro heq
                    rw [heq, hroom] at hfull
                    cases hfull
                  exact ⟨k, hk, by omega, hfull⟩
              by_cases hmore : s'.buf.length ≤ len
              · rw [ih hflag' hmore, hlater, hlength, Nat.add_assoc, Nat.add_comm 1]
              · apply iff_of_false
                · intro hle
                  exact hmore (length_le_zrecStored.trans hle)
                · intro hright
                  cases hright with
                  | inl hfits => omega
                  | inr hfull =>
                      obtain ⟨k, hk, hfrom, _⟩ := hlater.mpr hfull
                      exact hmore (hfrom.trans hk)
      · have hfull : room s.buf.length = false := Bool.eq_false_iff.mpr hroom
        have hends : zrecStored upd crcBytes mask room (n + 1) s line = s.buf := by
          rw [zrecStored, if_neg hroom]
        rw [hends]
        exact iff_of_true hstored (.inr ⟨s.buf.length, hstored, le_refl _, hfull⟩)

end Plain

section Runs

variable {n : ℕ} {len c : ℤ} {s : DataState 32} {line : List Byte}

theorem zrecRunRound_keeps {res : ℤ} {next : ℤ × DataState 32}
    (hends : isCode res = true ∨ ∃ end', s.frameEnd = some end')
    (h : zrecRunRound len c res s = .ok next) :
    next.2.buf = s.buf ∧ ∃ end', next.2.frameEnd = some end' := by
  unfold zrecRunRound at h
  by_cases hcode : isCode res = true
  · simp only [if_pos hcode, code] at h
    split_ifs at h
    · cases h
      exact ⟨rfl, _, rfl⟩
    · cases h
    · cases h
  · obtain ⟨end', hflag⟩ := hends.resolve_left hcode
    simp only [if_neg hcode, hflag, check] at h
    split_ifs at h
    · cases h
      exact ⟨rfl, _, rfl⟩
    · cases h
    · cases h

theorem zrecRunRound_data {res : ℤ} (hcode : ¬isCode res = true) (hflag : s.frameEnd = none) :
    zrecRunRound len c res s = match runDecode len c (BitVec.ofInt 8 res) s.buf with
      | some (c, buf) =>
        .ok (c, { s with buf := buf, crc := updcrc32 (BitVec.ofInt 8 res) s.crc })
      | none => .error (-RT_ERROR) := by
  rw [zrecRunRound, if_neg hcode]
  simp only [hflag]

theorem zrecRunStored_frameEnd {end' : ℤ} (hflag : s.frameEnd = some end') :
    zrecRunStored len n c s line = s.buf := by
  induction n generalizing c s line end' with
  | zero => rfl
  | succ n ih =>
      rw [zrecRunStored]
      by_cases hroom : (s.buf.length : ℤ) ≤ len
      · rw [if_pos hroom]
        cases zreadByte line with
        | none => rfl
        | some next =>
            dsimp only
            cases hround : zrecRunRound len c next.1 s with
            | error result => rfl
            | ok next' =>
                obtain ⟨hbuf, end'', hflag'⟩ := zrecRunRound_keeps (.inr ⟨end', hflag⟩) hround
                exact (ih hflag').trans hbuf
      · rw [if_neg hroom]

theorem length_le_runDecode {res : Byte} {buf buf' : List Byte} {c' : ℤ}
    (h : runDecode len c res buf = some (c', buf')) : buf.length ≤ buf'.length := by
  unfold runDecode runSpaces at h
  split_ifs at h
  all_goals
    cases h
    simp

theorem length_le_zrecRunStored : s.buf.length ≤ (zrecRunStored len n c s line).length := by
  induction n generalizing c s line with
  | zero => exact le_refl _
  | succ n ih =>
    cases hflag : s.frameEnd with
    | some end' => rw [zrecRunStored_frameEnd hflag]
    | none =>
      rw [zrecRunStored]
      by_cases hroom : (s.buf.length : ℤ) ≤ len
      · rw [if_pos hroom]
        cases zreadByte line with
        | none => exact le_refl _
        | some next =>
          dsimp only
          cases hround : zrecRunRound len c next.1 s with
          | error result => exact le_refl _
          | ok next' =>
            have hgrows : s.buf.length ≤ next'.2.buf.length := by
              by_cases hcode : isCode next.1 = true
              · exact (congrArg List.length (zrecRunRound_keeps (.inl hcode) hround).1).ge
              · rw [zrecRunRound_data hcode hflag] at hround
                cases hdecode : runDecode len c (BitVec.ofInt 8 next.1) s.buf with
                | none =>
                  rw [hdecode] at hround
                  cases hround
                | some decoded =>
                  rw [hdecode] at hround
                  cases hround
                  exact length_le_runDecode hdecode
            exact hgrows.trans ih
      · rw [if_neg hroom]

theorem runDecode_eq (res : Byte) {buf : List Byte} (hbuf : (buf.length : ℤ) ≤ len) :
    runDecode len c res buf = match runStep c res with
      | .waits c => some (c, buf)
      | .stores piece =>
        if len < buf.length + piece.announced then none else some (0, buf ++ piece.bytes)
      | .stops => none := by
  unfold runDecode runSpaces runStep
  split_ifs <;> simp_all

theorem runsFit_nil (len : ℤ) (stored : ℕ) : RunsFit len stored [] := by
  intro k piece hpiece
  rw [getElem?_nil] at hpiece
  cases hpiece

theorem runsFit_cons (len : ℤ) (stored : ℕ) (piece : RunPiece) (pieces : List RunPiece) :
    RunsFit len stored (piece :: pieces) ↔ len < stored + piece.announced ∨
        (stored : ℤ) + piece.bytes.length ≤ len ∧
          RunsFit len (stored + piece.bytes.length) pieces := by
  have hsize : ∀ k, (stored : ℤ) + runSize ((piece :: pieces).take (k + 1)) =
      (stored + piece.bytes.length : ℕ) + runSize (pieces.take k) := by
    intro k
    rw [take_succ_cons, runSize, map_cons, sum_cons, runSize]
    push_cast
    ring
  have hfirst : (stored : ℤ) + runSize ((piece :: pieces).take 0) = stored := by
    rw [take_zero, runSize, map_nil, sum_nil, Nat.cast_zero, add_zero]
  constructor
  · intro hfit
    by_cases hrefused : len < stored + piece.announced
    · exact .inl hrefused
    · right
      constructor
      · by_contra hbeyond
        obtain ⟨j, hj, run, hrun, hannounced⟩ := hfit 0 piece rfl (by rw [hfirst]; omega)
        rw [Nat.le_zero.mp hj] at hrun hannounced
        rw [hfirst] at hannounced
        cases hrun
        exact hrefused hannounced
      · intro k next hnext hbeyond
        obtain ⟨j, hj, run, hrun, hannounced⟩ := hfit (k + 1) next hnext (by rw [hsize]; exact hbeyond)
        cases j with
        | zero =>
          rw [hfirst] at hannounced
          cases hrun
          contradiction
        | succ j =>
          rw [hsize] at hannounced
          exact ⟨j, Nat.le_of_succ_le_succ hj, run, hrun, hannounced⟩
  · intro hfit k next hnext hbeyond
    by_cases hrefused : len < stored + piece.announced
    · exact ⟨0, Nat.zero_le k, piece, rfl, by rw [hfirst]; exact hrefused⟩
    · obtain ⟨hroom, hrest⟩ := hfit.resolve_left hrefused
      cases k with
      | zero =>
        cases hnext
        rw [hfirst] at hbeyond
        exact absurd hroom (not_le.mpr hbeyond)
      | succ k =>
        rw [hsize] at hbeyond
        obtain ⟨j, hj, run, hrun, hannounced⟩ := hrest k next hnext hbeyond
        exact ⟨j + 1, Nat.succ_le_succ hj, run, hrun, by rw [hsize]; exact hannounced⟩

theorem zrecRunStored_le_iff (hflag : s.frameEnd = none) (hstored : (s.buf.length : ℤ) ≤ len) :
    ((zrecRunStored len n c s line).length : ℤ) ≤ len ↔
      RunsFit len s.buf.length (runPieces c (dataRounds n line)) := by
  induction n generalizing c s line with
  | zero => exact iff_of_true hstored (runsFit_nil _ _)
  | succ n ih =>
    rw [zrecRunStored, if_pos hstored, dataRounds]
    cases zreadByte line with
    | none => exact iff_of_true hstored (runsFit_nil _ _)
    | some next =>
      dsimp only
      by_cases hcode : isCode next.1 = true
      · rw [if_pos hcode]
        have hends : (match zrecRunRound len c next.1 s with
            | .ok (c, s) => zrecRunStored len n c s next.2
            | .error _ => s.buf) = s.buf := by
          cases hround : zrecRunRound len c next.1 s with
          | error result => rfl
          | ok next' =>
            obtain ⟨hbuf, end', hflag'⟩ := zrecRunRound_keeps (.inl hcode) hround
            exact (zrecRunStored_frameEnd hflag').trans hbuf
        rw [hends]
        exact iff_of_true hstored (runsFit_nil _ _)
      · rw [if_neg hcode, zrecRunRound_data hcode hflag, runPieces, runDecode_eq _ hstored]
        cases runStep c (BitVec.ofInt 8 next.1) with
        | waits c' => exact ih hflag hstored
        | stops => exact iff_of_true hstored (runsFit_nil _ _)
        | stores piece =>
          dsimp only
          rw [runsFit_cons]
          by_cases hrefused : len < s.buf.length + piece.announced
          · rw [if_pos hrefused]
            exact iff_of_true hstored (.inl hrefused)
          · rw [if_neg hrefused, or_iff_right hrefused]
            have hlength : (s.buf ++ piece.bytes).length =
                s.buf.length + piece.bytes.length := length_append
            by_cases hmore : ((s.buf ++ piece.bytes).length : ℤ) ≤ len
            · have hfits : (s.buf.length : ℤ) + piece.bytes.length ≤ len := by
                rw [hlength] at hmore
                exact_mod_cast hmore
              rw [and_iff_right hfits, ← hlength]
              exact ih hflag hmore
            · apply iff_of_false
              · intro hle
                have hgrows := @length_le_zrecRunStored n len 0
                  { s with
                    buf := s.buf ++ piece.bytes
                    crc := updcrc32 (BitVec.ofInt 8 next.1) s.crc }
                  next.2
                exact hmore (le_trans (by exact_mod_cast hgrows) hle)
              · intro hfits
                apply hmore
                rw [hlength]
                exact_mod_cast hfits.1

end Runs

theorem int16_limit (len : BitVec 16) : int16 len.toNat = len.toNat ∨ int16 len.toNat < 0 := by
  have hvalue : int16 len.toNat = len.toInt := by
    rw [int16, BitVec.ofInt_natCast, BitVec.ofNat_toNat, BitVec.setWidth_eq]
  rw [hvalue, BitVec.toInt_eq_toNat_cond]
  split_ifs
  · exact .inl rfl
  · right
    omega

theorem zrecRunStored_negative {n : ℕ} {len c : ℤ} {s : DataState 32} {line : List Byte}
    (hlen : len < 0) : zrecRunStored len n c s line = s.buf := by
  cases n with
  | zero => rfl
  | succ n => rw [zrecRunStored, if_neg (by omega)]

/-- `zget_data` stays inside its buffer exactly when the data has room in it: up to the first
frame end the line says so itself, and for the uninitialised pointer of the second mode also
the value it happens to have. -/
theorem staysInside_iff (rxCRC : ℕ) (p c : ℤ) (len : BitVec 16) (line : List Byte) :
    StaysInside rxCRC p c len line ↔ HasRoom rxCRC p c len line := by
  rw [staysInside_of_stored]
  match rxCRC with
  | 0 =>
      have hroom : ¬∃ k ≤ len.toNat, ([] : List Byte).length ≤ k ∧
          decide (k ≤ len.toNat) = false := by
        intro ⟨k, hk, _, hfull⟩
        rw [decide_eq_true hk] at hfull
        cases hfull
      have hstored := @zrecStored_le_iff 16 updcrc16 2 (line.length + 1) 0xffff
        (fun stored => stored ≤ len.toNat) { buf := [], crc := 0, crcCnt := 0, frameEnd := none }
        line len.toNat rfl (Nat.zero_le _)
      rw [or_iff_left hroom, length_nil, Nat.zero_add] at hstored
      rw [zgetStored, if_pos rfl, hstored]
      constructor
      · intro hfits
        exact ⟨fun _ => hfits, fun h => absurd h zero_ne_one, fun h => absurd h (by lia)⟩
      · intro hfits
        exact hfits.1 rfl
  | 1 =>
      have hroom : (∃ k ≤ len.toNat, ([] : List Byte).length ≤ k ∧
          decide ((k : ℤ) ≤ p + int16 len.toNat) = false) ↔ p + int16 len.toNat < len.toNat := by
        constructor
        · intro ⟨k, hk, _, hfull⟩
          lia
        · intro hfull
          exact ⟨len.toNat, le_refl _, Nat.zero_le _, decide_eq_false (not_le.mpr hfull)⟩
      have hstored := @zrecStored_le_iff 32 updcrc32 4 (line.length + 1) 0xDEBB20E3
        (fun stored => (stored : ℤ) ≤ p + int16 len.toNat)
        { buf := [], crc := 0xffffffff, crcCnt := 0, frameEnd := none }
        line len.toNat rfl (Nat.zero_le _)
      rw [hroom, length_nil, Nat.zero_add] at hstored
      rw [zgetStored, if_neg one_ne_zero, if_pos rfl, hstored]
      constructor
      · intro hfits
        exact ⟨fun h => absurd h one_ne_zero, fun _ => hfits, fun h => absurd h (by lia)⟩
      · intro hfits
        exact hfits.2.1 rfl
  | 2 =>
      have hmode : HasRoom 2 p c len line ↔ int16 len.toNat < 0 ∨
          RunsFit len.toNat 0 (runPieces c (dataBytes line)) := by
        constructor
        · intro hfits
          exact hfits.2.2 rfl
        · intro hfits
          exact ⟨fun h => absurd h two_ne_zero, fun h => absurd h (by lia), fun _ => hfits⟩
      rw [zgetStored, if_neg two_ne_zero, if_neg (by decide), if_pos rfl, hmode]
      cases int16_limit len with
      | inl hlimit =>
          have hstored := @zrecRunStored_le_iff (line.length + 1) len.toNat c
            { buf := [], crc := 0xffffffff, crcCnt := 0, frameEnd := none } line rfl
            (Nat.cast_nonneg len.toNat)
          have hpositive : ¬int16 len.toNat < 0 := by lia
          rw [or_iff_right hpositive, hlimit, ← Nat.cast_le (α := ℤ)]
          exact hstored
      | inr hnegative =>
          rw [zrecRunStored_negative hnegative]
          exact iff_of_true (Nat.zero_le _) (.inl hnegative)
  | n + 3 =>
      apply iff_of_true (Nat.zero_le _)
      exact ⟨fun h => absurd h (by lia), fun h => absurd h (by lia), fun h => absurd h (by lia)⟩

/-- One byte more than the buffer has, and a run longer than the one checked for. -/
theorem not_staysInside_full : ¬StaysInside 0 0 0 32 (List.replicate 33 0x41) ∧
      ¬StaysInside 2 0 0 32 [ZRESC, 0x41, 0xff] := by
  constructor
  · intro hinside
    have hstored : (zgetStored 0 0 0 (32 : BitVec 16).toNat (List.replicate 33 0x41)).length =
        33 := by
      decide
    exact lt_irrefl 32 (hinside.1 32 (by rw [hstored]; decide))
  · intro hinside
    have hstored : (zgetStored 2 0 0 (32 : BitVec 16).toNat [ZRESC, 0x41, 0xff]).length = 255 := by
      decide +kernel
    exact lt_irrefl 32 (hinside.1 32 (by rw [hstored]; decide))

end RtThread.Zmodem
