import RtThread.ZmodemData

/-!
# Run-length coded ZMODEM subpackets

The encoder looks one byte ahead, also behind the last byte of the block.  The decoder tests
the register in the same way as the receiver without runs, and stores descending bytes where
the encoder had counted equal ones.
-/

namespace RtThread.Zmodem

open List

section Encoder

variable {buf : ℕ → Byte} {pos left len : ℕ} {s : RunState}

theorem RunState.reads_round : (s.round buf pos left).reads = s.reads ++ [pos] := by
  unfold RunState.round
  dsimp only
  split_ifs <;> rfl

theorem reads_runRounds :
    (runRounds buf pos len s).reads = s.reads ++ (List.range len).map (pos + ·) := by
  induction len generalizing pos s with
  | zero => simp [runRounds]
  | succ len ih =>
    have hrange : (List.range (len + 1)).map (pos + ·) =
        pos :: (List.range len).map (pos + 1 + ·) := by
      rw [range_succ_eq_map, map_cons, map_map, Nat.add_zero]
      congr 1
      apply map_congr_left
      intro k _
      rw [Function.comp_apply]
      omega
    rw [runRounds, ih, RunState.reads_round, append_assoc, hrange]
    rfl

theorem reads_runEncode : (runEncode buf len).reads = List.range (len + 1) := by
  have hnext : (List.range len).map (1 + ·) = (List.range len).map Nat.succ := by
    apply map_congr_left
    intro k _
    exact Nat.add_comm 1 k
  rw [runEncode, reads_runRounds, range_succ_eq_map, hnext]
  rfl

end Encoder

section Decoder

variable {n crcCnt : ℕ} {len : ℤ} {s : DataState 32} {sent check rest : List Byte} {b frameend : Byte}
  {c : ℤ}

theorem zrecRunLoop_byte (hflag : s.frameEnd = none) (hroom : (s.buf.length : ℤ) ≤ len) :
    zrecRunLoop len (n + 1) c s (zsendZdleChar b ++ rest) = match runDecode len c b s.buf with
      | some (c, buf) => zrecRunLoop len n c { s with buf := buf, crc := updcrc32 b s.crc } rest
      | none => some (s.finish (-RT_ERROR) rest) := by
  rw [zrecRunLoop, if_pos hroom, zreadByte_zsendZdleChar, Option.bind_some]
  cases hnext : runDecode len c b s.buf <;>
    simp only [toNat_lt_code, Bool.false_eq_true, if_false, ofInt_toNat, hflag, hnext]

theorem zrecRunLoop_full (hroom : ¬(s.buf.length : ℤ) ≤ len) (line : List Byte) :
    zrecRunLoop len (n + 1) c s line = some (s.finish (-RT_ERROR) line) := by
  rw [zrecRunLoop, if_neg hroom]

theorem zrecRunLoop_check {end' : ℤ} (hflag : s.frameEnd = some end') (line : List Byte)
    (hline : line = zsendZdleChars check ++ rest) (hcheck : check ≠ [])
    (hcount : s.crcCnt + check.length = 4) (herror : feed updcrc32 check s.crc &&& 0xDEBB20E3 ≠ 0) :
    ∃ received, zrecRunLoop len (n + check.length) c s line = some received ∧
      received.result = -RT_ERROR := by
  induction check generalizing s line with
  | nil => contradiction
  | cons b check ih =>
    have hnext : line = zsendZdleChar b ++ (zsendZdleChars check ++ rest) := by
      rw [hline, zsendZdleChars, flatMap_cons, append_assoc]
      rfl
    rw [length_cons, ← Nat.add_assoc]
    by_cases hroom : (s.buf.length : ℤ) ≤ len
    · rw [hnext, zrecRunLoop, if_pos hroom, zreadByte_zsendZdleChar, Option.bind_some]
      simp only [toNat_lt_code, Bool.false_eq_true, if_false, ofInt_toNat, hflag]
      unfold DataState.check
      cases check with
      | nil =>
        have hlast : ¬s.crcCnt + 1 < 4 := by
          rw [length_singleton] at hcount
          omega
        have hfold : updcrc32 b s.crc &&& 0xDEBB20E3 ≠ 0 := herror
        simp only [if_neg hlast, if_pos hfold]
        exact ⟨_, rfl, rfl⟩
      | cons b' check =>
        have hmore : s.crcCnt + 1 < 4 := by
          simp only [length_cons] at hcount
          omega
        have hcount' : s.crcCnt + 1 + (b' :: check).length = 4 := by
          rw [← hcount, length_cons, length_cons, length_cons]
          omega
        simp only [if_pos hmore]
        exact ih (s := { s with crc := updcrc32 b s.crc, crcCnt := s.crcCnt + 1 }) hflag _ rfl
          (cons_ne_nil _ _) hcount' herror
    · exact ⟨_, zrecRunLoop_full hroom line, rfl⟩

theorem zrecRunLoop_subpacket_error (n : ℕ) (len c : ℤ) (rest : List Byte)
    (hframe : frameend ∈ frameEnds) (hflag : s.frameEnd = none)
    (hcnt : s.crcCnt = 0) (hcheck : check.length = 4)
    (herror : feed updcrc32 (sent ++ frameend :: check) s.crc &&& 0xDEBB20E3 ≠ 0) :
    ∃ received, zrecRunLoop len (n + check.length + 1 + sent.length) c s
        (zsendZdleChars sent ++ ([ZDLE, frameend] ++ (zsendZdleChars check ++ rest))) =
      some received ∧ received.result = -RT_ERROR := by
  induction sent generalizing s c with
  | nil =>
    rw [zsendZdleChars, flatMap_nil, nil_append]
    by_cases hroom : (s.buf.length : ℤ) ≤ len
    · have hcode : isCode (gotFrameEnd frameend) = true ∧
          gotFrameEnd frameend ∈ frameEnds.map gotFrameEnd ∧
          BitVec.ofInt 8 (gotFrameEnd frameend) = frameend := code_frameEnd hframe
      have hsome : check ≠ [] := ne_nil_of_length_pos (by omega)
      have hcount : s.crcCnt + check.length = 4 := by rw [hcnt, hcheck]
      rw [length_nil, Nat.add_zero, cons_append, singleton_append, zrecRunLoop,
        if_pos hroom, zreadByte_frameEnd hframe, Option.bind_some]
      simp only [hcode.1, if_true, DataState.code, if_pos hcode.2.1, hcode.2.2]
      exact zrecRunLoop_check
        (s := { s with
          crc := updcrc32 frameend s.crc, frameEnd := some (gotFrameEnd frameend) })
        rfl _ rfl hsome hcount herror
    · exact ⟨_, zrecRunLoop_full hroom _, rfl⟩
  | cons b sent ih =>
    have hline : zsendZdleChars (b :: sent) ++
        ([ZDLE, frameend] ++ (zsendZdleChars check ++ rest)) =
        zsendZdleChar b ++ (zsendZdleChars sent ++
          ([ZDLE, frameend] ++ (zsendZdleChars check ++ rest))) := by
      rw [zsendZdleChars, flatMap_cons, append_assoc]
      rfl
    rw [length_cons, ← Nat.add_assoc]
    by_cases hroom : (s.buf.length : ℤ) ≤ len
    · rw [hline, zrecRunLoop_byte hflag hroom]
      cases runDecode len c b s.buf with
      | none => exact ⟨_, rfl, rfl⟩
      | some next =>
        exact ih next.1 (s := { s with buf := next.2, crc := updcrc32 b s.crc }) hflag hcnt herror
    · exact ⟨_, zrecRunLoop_full hroom _, rfl⟩

end Decoder

section RoundTrip

variable {buf : ℕ → Byte} {len : ℕ} {frameend : Byte}

def blockAt (buf : ℕ → Byte) (len : ℕ) : List Byte := (List.range len).map buf

/-- The receiver gets the block and its frame end. -/
def DecodesBack (buf : ℕ → Byte) (len : ℕ) (frameend : Byte) (c : ℤ) : Prop :=
  ∃ line, zgetData 2 0 c 1024 (zsendBinDataRle buf len frameend) =
    some { result := gotFrameEnd frameend
           buf := blockAt buf len
           rxcount := len
           line := line }

def ReadsInside (buf : ℕ → Byte) (len : ℕ) : Prop := ∀ pos ∈ (runEncode buf len).reads, pos < len

/-- Whatever the uninitialised `c` of the decoder holds, it answers every subpacket of the
encoder with an error; and the encoder reads the byte behind every block. -/
theorem runs_fail (buf : ℕ → Byte) (len : ℕ) (frameend : Byte) (c : ℤ)
    (hframe : frameend ∈ frameEnds) : ¬DecodesBack buf len frameend c ∧ ¬ReadsInside buf len := by
  constructor
  · rintro ⟨line, hback⟩
    have hsent : zsendBinDataRle buf len frameend = subpacket (runEncode buf len).sent frameend
            (checkBytes 2 ((runEncode buf len).sent ++ [frameend])) ++
          if frameend = ZCRCW then [XON] else [] := by
      simp only [zsendBinDataRle, zsendFrameEnd, subpacket, append_assoc]
    have hregister : feed updcrc32 ((runEncode buf len).sent ++
        frameend :: checkBytes 2 ((runEncode buf len).sent ++ [frameend])) 0xFFFFFFFF =
        0xDEBB20E3 := by
      have hbytes := crc32_checkBytes (Nat.succ_ne_zero 1) ((runEncode buf len).sent ++ [frameend])
      rw [append_assoc] at hbytes
      exact hbytes
    have herror : feed updcrc32 ((runEncode buf len).sent ++
        frameend :: checkBytes 2 ((runEncode buf len).sent ++ [frameend])) 0xFFFFFFFF &&&
        0xDEBB20E3 ≠ 0 := by
      rw [hregister]
      decide
    obtain ⟨n, hn⟩ := length_subpacket (runEncode buf len).sent frameend
      (checkBytes 2 ((runEncode buf len).sent ++ [frameend])) (if frameend = ZCRCW then [XON] else [])
    rw [zgetData, if_neg (by decide), if_neg (by decide), if_pos rfl, zrecData32r, hsent, hn,
      subpacket, append_assoc, append_assoc] at hback
    obtain ⟨received, hreceived, hresult⟩ := zrecRunLoop_subpacket_error n (int16 (1024 : ℕ)) c
      (if frameend = ZCRCW then [XON] else [])
      (s := { buf := [], crc := 0xffffffff, crcCnt := 0, frameEnd := none })
      hframe rfl rfl rfl herror
    rw [hback, Option.some_inj] at hreceived
    rw [← hreceived] at hresult
    exact gotFrameEnd_ne_error hframe hresult
  · intro hinside
    have hbehind : len ∈ (runEncode buf len).reads := by
      rw [reads_runEncode]
      exact mem_range.mpr (Nat.lt_succ_self len)
    exact lt_irrefl len (hinside len hbehind)

theorem runs_fail_single :
    ¬DecodesBack (fun _ => 0x41) 1 ZCRCE 0 ∧ ¬ReadsInside (fun _ => 0x41) 1 :=
  runs_fail (fun _ => 0x41) 1 ZCRCE 0 (by decide)

/-- Three equal bytes, of which the receiver makes others. -/
theorem not_decodesBack_run :
    ¬DecodesBack (fun _ => 3) 3 ZCRCE 0 ∧
      (zgetData 2 0 0 1024 (zsendBinDataRle (fun _ => 3) 3 ZCRCE)).map
        (fun received => (received.result, received.buf)) = some (-RT_ERROR, [2, 1, 0]) ∧
      3 ∈ (runEncode (fun _ => 3) 3).reads := by
  have hrun : (zgetData 2 0 0 1024 (zsendBinDataRle (fun _ => 3) 3 ZCRCE)).map
      (fun received => (received.result, received.buf)) = some (-RT_ERROR, [2, 1, 0]) := by
    decide
  refine ⟨?_, hrun, by decide⟩
  rintro ⟨line, hback⟩
  rw [hback] at hrun
  cases hrun

end RoundTrip

end RtThread.Zmodem
