import RtThread.ZmodemHeaders

/-!
# ZMODEM data subpackets

A receiver of data stores the bytes before the frame end and then takes the
check bytes into its register.  With the 16-bit checksum a correct subpacket
leaves zero there; with the 32-bit checksum it leaves a constant, which the
receiver does not compare but uses as a mask.
-/

namespace RtThread.Zmodem

open List

section Loop

variable {w : ℕ} {upd : Byte → BitVec w → BitVec w} {crcBytes n : ℕ} {mask : BitVec w}
  {room : ℕ → Bool} {s : DataState w} {block check rest : List Byte} {b frameend : Byte} {c : ℤ}

theorem ofInt_toNat (b : Byte) : BitVec.ofInt 8 (b.toNat : ℤ) = b := by
  rw [BitVec.ofInt_natCast, BitVec.ofNat_toNat, BitVec.setWidth_eq]

def feed (upd : Byte → BitVec w → BitVec w) (bytes : List Byte) (crc : BitVec w) : BitVec w :=
  bytes.foldl (fun crc b => upd b crc) crc

theorem feed_append (bytes bytes' : List Byte) (crc : BitVec w) :
    feed upd (bytes ++ bytes') crc = feed upd bytes' (feed upd bytes crc) :=
  foldl_append

theorem zrecLoop_byte (hroom : room s.buf.length = true) :
    zrecLoop upd crcBytes mask room (n + 1) s (zsendZdleChar b ++ rest) =
      match s.byte upd crcBytes mask b with
      | .ok s => zrecLoop upd crcBytes mask room n s rest
      | .error result => some (s.finish result rest) := by
  rw [zrecLoop, if_pos hroom, zreadByte_zsendZdleChar, Option.bind_some]
  cases hnext : s.byte upd crcBytes mask b <;>
    simp only [toNat_lt_code, Bool.false_eq_true, if_false, ofInt_toNat, hnext]

theorem zrecLoop_full (hroom : room s.buf.length = false) (line : List Byte) :
    zrecLoop upd crcBytes mask room (n + 1) s line = some (s.finish (-RT_ERROR) line) := by
  rw [zrecLoop, hroom]
  rfl

theorem zrecLoop_store (hflag : s.frameEnd = none) (hroom : room s.buf.length = true) :
    zrecLoop upd crcBytes mask room (n + 1) s (zsendZdleChar b ++ rest) =
      zrecLoop upd crcBytes mask room n { s with buf := s.buf ++ [b], crc := upd b s.crc }
        rest := by
  rw [zrecLoop_byte hroom, DataState.byte, hflag]

theorem zrecLoop_block (n : ℕ) (rest : List Byte) (hflag : s.frameEnd = none) :
    zrecLoop upd crcBytes mask room (n + block.length) s (zsendZdleChars block ++ rest) =
        zrecLoop upd crcBytes mask room n
          { s with buf := s.buf ++ block, crc := feed upd block s.crc } rest ∨
      (∃ k < block.length, room (s.buf.length + k) = false) ∧
        ∃ received, zrecLoop upd crcBytes mask room (n + block.length) s
            (zsendZdleChars block ++ rest) = some received ∧ received.result = -RT_ERROR := by
  induction block generalizing s with
  | nil =>
    left
    simp [zsendZdleChars, feed]
  | cons b block ih =>
    have hline : zsendZdleChars (b :: block) ++ rest =
        zsendZdleChar b ++ (zsendZdleChars block ++ rest) := by
      rw [zsendZdleChars, flatMap_cons, append_assoc]
      rfl
    rw [hline, length_cons, ← Nat.add_assoc]
    cases hroom : room s.buf.length with
    | false =>
      right
      exact ⟨⟨0, Nat.zero_lt_succ _, hroom⟩, _, zrecLoop_full hroom _, rfl⟩
    | true =>
      have hnext : ({ s with buf := s.buf ++ [b], crc := upd b s.crc } : DataState w).frameEnd =
          none := hflag
      rw [zrecLoop_store hflag hroom]
      obtain hstored | ⟨⟨k, hk, hfull⟩, hfails⟩ := ih hnext
      · left
        rw [hstored]
        rw [append_assoc]
        rfl
      · right
        refine ⟨⟨k + 1, Nat.succ_lt_succ hk, ?_⟩, hfails⟩
        rw [length_append, length_singleton, Nat.add_assoc, Nat.add_comm 1] at hfull
        exact hfull

section

variable (hframe : frameend ∈ frameEnds)
include hframe

theorem zreadByte_frameEnd :
    zreadByte (ZDLE :: frameend :: rest) = some (gotFrameEnd frameend, rest) := by
  simp only [frameEnds, mem_cons, not_mem_nil, or_false] at hframe
  obtain rfl | rfl | rfl | rfl := hframe <;> rfl

theorem code_frameEnd :
    isCode (gotFrameEnd frameend) = true ∧ gotFrameEnd frameend ∈ frameEnds.map gotFrameEnd ∧
      BitVec.ofInt 8 (gotFrameEnd frameend) = frameend := by
  simp only [frameEnds, mem_cons, not_mem_nil, or_false] at hframe
  obtain rfl | rfl | rfl | rfl := hframe <;> decide

theorem zrecLoop_frameEnd (hroom : room s.buf.length = true) :
    zrecLoop upd crcBytes mask room (n + 1) s (ZDLE :: frameend :: rest) =
      zrecLoop upd crcBytes mask room n
        { s with crc := upd frameend s.crc, frameEnd := some (gotFrameEnd frameend) } rest := by
  have hcode := code_frameEnd hframe
  rw [zrecLoop, if_pos hroom, zreadByte_frameEnd hframe, Option.bind_some]
  simp only [hcode.1, if_true, DataState.code, if_pos hcode.2.1, hcode.2.2]

end

theorem zrecLoop_check (hflag : s.frameEnd = some c) (hroom : room s.buf.length = true)
    (hcheck : check ≠ []) (hcount : s.crcCnt + check.length = crcBytes) :
    zrecLoop upd crcBytes mask room (n + check.length) s (zsendZdleChars check ++ rest) =
      some { result := if feed upd check s.crc &&& mask ≠ 0 then -RT_ERROR else c
             buf := s.buf
             rxcount := s.buf.length % 65536
             line := rest } := by
  induction check generalizing s with
  | nil => contradiction
  | cons b check ih =>
    have hline : zsendZdleChars (b :: check) ++ rest =
        zsendZdleChar b ++ (zsendZdleChars check ++ rest) := by
      rw [zsendZdleChars, flatMap_cons, append_assoc]
      rfl
    rw [hline, length_cons, ← Nat.add_assoc, zrecLoop_byte hroom, DataState.byte, hflag]
    unfold DataState.check
    cases check with
    | nil =>
      have hlast : ¬s.crcCnt + 1 < crcBytes := by
        rw [← hcount]
        simp
      simp only [if_neg hlast]
      by_cases herror : upd b s.crc &&& mask ≠ 0
      · have hfold : feed upd [b] s.crc &&& mask ≠ 0 := herror
        rw [if_pos herror, if_pos hfold]
        rfl
      · have hfold : ¬feed upd [b] s.crc &&& mask ≠ 0 := herror
        rw [if_neg herror, if_neg hfold]
        rfl
    | cons b' check =>
      have hmore : s.crcCnt + 1 < crcBytes := by
        rw [← hcount, length_cons, length_cons]
        omega
      simp only [if_pos hmore]
      have hrest := ih (s := { s with crc := upd b s.crc, crcCnt := s.crcCnt + 1 }) hflag hroom
        (cons_ne_nil _ _) (by rw [← hcount]; simp only [length_cons]; omega)
      exact hrest

section

variable (hframe : frameend ∈ frameEnds)
include hframe

theorem zrecLoop_tail (hcnt : s.crcCnt = 0) (hcheck : check ≠ [])
    (hcount : check.length = crcBytes) (hroom : room s.buf.length = true) :
    zrecLoop upd crcBytes mask room (n + check.length + 1) s
        ([ZDLE, frameend] ++ (zsendZdleChars check ++ rest)) =
      some { result := if feed upd (frameend :: check) s.crc &&& mask ≠ 0 then -RT_ERROR
               else gotFrameEnd frameend
             buf := s.buf
             rxcount := s.buf.length % 65536
             line := rest } := by
  have hcnt' : s.crcCnt + check.length = crcBytes := by rw [hcnt, hcount, Nat.zero_add]
  rw [cons_append, singleton_append, zrecLoop_frameEnd hframe hroom]
  exact zrecLoop_check (s := { s with
    crc := upd frameend s.crc, frameEnd := some (gotFrameEnd frameend) }) rfl hroom hcheck hcnt'

theorem zrecLoop_subpacket (hflag : s.frameEnd = none)
    (hcnt : s.crcCnt = 0) (hcheck : check ≠ []) (hcount : check.length = crcBytes)
    (hroom : ∀ k ≤ block.length, room (s.buf.length + k) = true) :
    zrecLoop upd crcBytes mask room (n + check.length + 1 + block.length) s
        (zsendZdleChars block ++ ([ZDLE, frameend] ++ (zsendZdleChars check ++ rest))) =
      some { result := if feed upd (block ++ frameend :: check) s.crc &&& mask ≠ 0
               then -RT_ERROR else gotFrameEnd frameend
             buf := s.buf ++ block
             rxcount := (s.buf.length + block.length) % 65536
             line := rest } := by
  have hend : room (s.buf ++ block).length = true := by
    rw [length_append]
    exact hroom block.length (le_refl _)
  obtain hstored | ⟨⟨k, hk, hfull⟩, _⟩ := zrecLoop_block (n + check.length + 1)
    ([ZDLE, frameend] ++ (zsendZdleChars check ++ rest)) hflag
  · rw [hstored, feed_append, ← length_append]
    exact zrecLoop_tail (s := { s with buf := s.buf ++ block, crc := feed upd block s.crc })
      hframe hcnt hcheck hcount hend
  · rw [hroom k hk.le] at hfull
    cases hfull

theorem zrecLoop_subpacket_error (hflag : s.frameEnd = none)
    (hcnt : s.crcCnt = 0) (hcheck : check ≠ []) (hcount : check.length = crcBytes)
    (herror : feed upd (block ++ frameend :: check) s.crc &&& mask ≠ 0) :
    ∃ received, zrecLoop upd crcBytes mask room (n + check.length + 1 + block.length) s
        (zsendZdleChars block ++ ([ZDLE, frameend] ++ (zsendZdleChars check ++ rest))) =
      some received ∧ received.result = -RT_ERROR := by
  obtain hstored | ⟨_, hfails⟩ := zrecLoop_block (n + check.length + 1)
    ([ZDLE, frameend] ++ (zsendZdleChars check ++ rest)) hflag
  · rw [hstored]
    cases hend : room (s.buf ++ block).length with
    | false => exact ⟨_, zrecLoop_full hend _, rfl⟩
    | true =>
      have hfold : feed upd (frameend :: check) (feed upd block s.crc) &&& mask ≠ 0 := by
        rw [feed_append] at herror
        exact herror
      exact ⟨_, zrecLoop_tail (s := { s with buf := s.buf ++ block, crc := feed upd block s.crc })
        hframe hcnt hcheck hcount hend, if_pos hfold⟩
  · exact hfails

end

end Loop

section Subpackets

variable {p c : ℤ} {frameend : Byte} {block check rest : List Byte}

theorem length_zsendZdleChars (bytes : List Byte) :
    bytes.length ≤ (zsendZdleChars bytes).length := by
  rw [zsendZdleChars, length_flatMap]
  induction bytes with
  | nil => exact le_refl _
  | cons b bytes ih =>
    have hone : 1 ≤ (zsendZdleChar b).length := by
      unfold zsendZdleChar
      split <;> simp
    rw [map_cons, sum_cons, length_cons]
    omega

def subpacket (block : List Byte) (frameend : Byte) (check : List Byte) : List Byte :=
  zsendZdleChars block ++ ([ZDLE, frameend] ++ zsendZdleChars check)

theorem length_subpacket (block : List Byte) (frameend : Byte) (check rest : List Byte) :
    ∃ n, (subpacket block frameend check ++ rest).length + 1 =
      n + check.length + 1 + block.length := by
  have hblock := length_zsendZdleChars block
  have hcheck := length_zsendZdleChars check
  refine ⟨(subpacket block frameend check ++ rest).length - check.length - block.length, ?_⟩
  simp only [subpacket, length_append, length_cons, length_nil]
  omega

theorem zsendBinData_eq_subpacket (txCRC : ℕ) : zsendBinData txCRC block frameend =
      subpacket block frameend (checkBytes txCRC (block ++ [frameend])) ++
        if frameend = ZCRCW then [XON] else [] := by
  simp only [zsendBinData, zsendFrameEnd, subpacket, append_assoc]

/-- A subpacket sent with the 16-bit checksum is received: the frame end, the block, its length,
and no more than the `XON` is left on the line. -/
theorem zgetData_zsendBinData_crc16 (p c : ℤ) (block : List Byte) (frameend : Byte)
    (hlen : block.length ≤ 1024) (hframe : frameend ∈ frameEnds) :
    zgetData 0 p c 1024 (zsendBinData 0 block frameend) =
      some { result := gotFrameEnd frameend
             buf := block
             rxcount := block.length
             line := if frameend = ZCRCW then [XON] else [] } := by
  have hcorrect : feed updcrc16 (block ++ frameend :: checkBytes 0 (block ++ [frameend]))
      (0 : BitVec 16) = 0 := by
    have hbytes := crc16_checkBytes (block ++ [frameend])
    rw [append_assoc] at hbytes
    exact hbytes
  have hroom : ∀ k ≤ block.length, decide (([] : List Byte).length + k ≤ 1024) = true := by
    intro k hk
    rw [decide_eq_true_eq, length_nil]
    omega
  rw [zsendBinData_eq_subpacket, zgetData, if_pos rfl, zrecData16]
  obtain ⟨n, hn⟩ := length_subpacket block frameend (checkBytes 0 (block ++ [frameend]))
    (if frameend = ZCRCW then [XON] else [])
  have hcheck : checkBytes 0 (block ++ [frameend]) ≠ [] := cons_ne_nil _ _
  have hcount : (checkBytes 0 (block ++ [frameend])).length = 2 := rfl
  rw [hn, subpacket, append_assoc, append_assoc, zrecLoop_subpacket hframe rfl rfl
    hcheck hcount hroom, hcorrect]
  have hstored : (([] : List Byte).length + block.length) % 65536 = block.length := by
    rw [length_nil, Nat.zero_add, Nat.mod_eq_of_lt (by omega)]
  rw [hstored]
  rfl

theorem zgetData_zsendBinData_escaped :
    zgetData 0 0 0 1024 (zsendBinData 0 [0x18, 0x11, 0x41, 0x93] ZCRCW) =
      some { result := gotFrameEnd ZCRCW
             buf := [0x18, 0x11, 0x41, 0x93]
             rxcount := 4
             line := [XON] } :=
  zgetData_zsendBinData_crc16 0 0 _ ZCRCW (by decide) (by decide)

def register32 (block : List Byte) (frameend : Byte) (check : List Byte) : BitVec 32 :=
  crc32 (block ++ frameend :: check) 0xFFFFFFFF

/-- `zget_data` accepts the correct check bytes and no others, whatever its uninitialised
variables hold. -/
def ReceivesRight (block : List Byte) (frameend : Byte) (check rest : List Byte) : Prop :=
  (check = checkBytes 1 (block ++ [frameend]) →
    ∀ p c, zgetData 1 p c 1024 (subpacket block frameend check ++ rest) =
      some { result := gotFrameEnd frameend
             buf := block
             rxcount := block.length
             line := rest }) ∧
  (check ≠ checkBytes 1 (block ++ [frameend]) →
    ∀ p c, ∃ received, zgetData 1 p c 1024 (subpacket block frameend check ++ rest) =
      some received ∧ received.result = -RT_ERROR)

theorem register32_checkBytes (block : List Byte) (frameend : Byte) :
    register32 block frameend (checkBytes 1 (block ++ [frameend])) = 0xDEBB20E3 := by
  have hbytes := crc32_checkBytes Nat.one_ne_zero (block ++ [frameend])
  rw [append_assoc] at hbytes
  exact hbytes

theorem zgetData_crc32_error (rest : List Byte) (p c : ℤ) (hframe : frameend ∈ frameEnds) (hcheck : check.length = 4)
    (herror : register32 block frameend check &&& 0xDEBB20E3 ≠ 0) :
    ∃ received, zgetData 1 p c 1024 (subpacket block frameend check ++ rest) =
      some received ∧ received.result = -RT_ERROR := by
  obtain ⟨n, hn⟩ := length_subpacket block frameend check rest
  have hsome : check ≠ [] := ne_nil_of_length_pos (by omega)
  rw [zgetData, if_neg (by decide), if_pos rfl, zrecData32, hn, subpacket, append_assoc,
    append_assoc]
  exact zrecLoop_subpacket_error hframe rfl rfl hsome hcheck herror

theorem zgetData_crc32_accepted (hlen : block.length ≤ 1024) (hframe : frameend ∈ frameEnds)
    (hcheck : check.length = 4) (hclear : register32 block frameend check &&& 0xDEBB20E3 = 0) :
    zgetData 1 0 0 1024 (subpacket block frameend check ++ rest) =
      some { result := gotFrameEnd frameend
             buf := block
             rxcount := block.length
             line := rest } := by
  obtain ⟨n, hn⟩ := length_subpacket block frameend check rest
  have hsome : check ≠ [] := ne_nil_of_length_pos (by lia)
  have hroom : ∀ k ≤ block.length,
      decide (((([] : List Byte).length + k : ℕ) : ℤ) ≤ 0 + int16 (1024 : ℕ)) = true := by
    intro k hk
    have hlimit : int16 (1024 : ℕ) = 1024 := rfl
    rw [decide_eq_true_eq, length_nil, hlimit]
    lia
  have hstored : (([] : List Byte).length + block.length) % 65536 = block.length := by
    rw [length_nil, Nat.zero_add, Nat.mod_eq_of_lt (by lia)]
  have hfold : ¬feed updcrc32 (block ++ frameend :: check) 0xffffffff &&& 0xDEBB20E3 ≠ 0 :=
    not_not.mpr hclear
  rw [zgetData, if_neg (by decide), if_pos rfl, zrecData32, hn, subpacket, append_assoc,
    append_assoc, zrecLoop_subpacket hframe rfl rfl hsome hcheck hroom, if_neg hfold, hstored]
  rfl

theorem gotFrameEnd_ne_error (hframe : frameend ∈ frameEnds) :
    gotFrameEnd frameend ≠ -RT_ERROR := by
  simp only [frameEnds, mem_cons, not_mem_nil, or_false] at hframe
  obtain rfl | rfl | rfl | rfl := hframe <;> decide

/-- The receiver does right on the wrong check bytes that leave a bit of the mask, and only
there: the correct ones leave all of its bits. -/
theorem receivesRight_iff (block : List Byte) (frameend : Byte) (check rest : List Byte)
    (hlen : block.length ≤ 1024) (hframe : frameend ∈ frameEnds) (hcheck : check.length = 4) :
    ReceivesRight block frameend check rest ↔ check ≠ checkBytes 1 (block ++ [frameend]) ∧
        register32 block frameend check &&& 0xDEBB20E3 ≠ 0 := by
  constructor
  · intro hright
    by_cases hcorrect : check = checkBytes 1 (block ++ [frameend])
    · have herror : register32 block frameend check &&& 0xDEBB20E3 ≠ 0 := by
        rw [hcorrect, register32_checkBytes]
        decide
      obtain ⟨received, hreceived, hresult⟩ := zgetData_crc32_error rest 0 0 hframe hcheck herror
      rw [hright.1 hcorrect 0 0, Option.some_inj] at hreceived
      rw [← hreceived] at hresult
      exact absurd hresult (gotFrameEnd_ne_error hframe)
    · refine ⟨hcorrect, fun hclear => ?_⟩
      obtain ⟨received, hreceived, hresult⟩ := hright.2 hcorrect 0 0
      rw [zgetData_crc32_accepted hlen hframe hcheck hclear, Option.some_inj] at hreceived
      rw [← hreceived] at hresult
      exact gotFrameEnd_ne_error hframe hresult
  · rintro ⟨hwrong, herror⟩
    exact ⟨fun hcorrect => absurd hcorrect hwrong,
      fun _ p c => zgetData_crc32_error rest p c hframe hcheck herror⟩

theorem receivesRight_wrong : ReceivesRight [0x41] ZCRCE [0, 0, 0, 0] [] ↔
      ([0, 0, 0, 0] : List Byte) ≠ checkBytes 1 ([0x41] ++ [ZCRCE]) ∧
        register32 [0x41] ZCRCE [0, 0, 0, 0] &&& 0xDEBB20E3 ≠ 0 :=
  receivesRight_iff [0x41] ZCRCE [0, 0, 0, 0] [] (by decide) (by decide) rfl

/-- A subpacket with the two check bytes the sender makes. -/
theorem not_receivesRight_sent :
    ¬ReceivesRight [0x41] ZCRCE (checkBytes 1 ([0x41] ++ [ZCRCE])) [] := by
  intro hright
  have hrejected : (zgetData 1 0 0 1024
      (subpacket [0x41] ZCRCE (checkBytes 1 ([0x41] ++ [ZCRCE])) ++ [])).map Received.result =
      some (-RT_ERROR) := by
    decide
  rw [hright.1 rfl 0 0] at hrejected
  cases hrejected

end Subpackets

end RtThread.Zmodem
