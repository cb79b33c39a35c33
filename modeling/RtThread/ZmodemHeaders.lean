import RtThread.ZmodemModel

/-!
# ZMODEM headers arrive as they are sent
-/

namespace RtThread.Zmodem

open List

section Bytes

variable {b : Byte} {bytes rest : List Byte}

theorem zreadByte_zsendZdleChar (b : Byte) (rest : List Byte) :
    zreadByte (zsendZdleChar b ++ rest) = some ((b.toNat : ℤ), rest) := by
  unfold zsendZdleChar
  split
  · rename_i hescaped
    -- The five escaped bytes.
    have hcases : b = 0o30 ∨ b = 0o21 ∨ b = 0o23 ∨ b = 0o221 ∨ b = 0o223 := by
      simpa [ZDLE, isFlowControl, or_assoc] using hescaped
    obtain rfl | rfl | rfl | rfl | rfl := hcases <;> rfl
  · rename_i hplain
    simp only [Bool.or_eq_true, beq_iff_eq, not_or, Bool.not_eq_true] at hplain
    rw [singleton_append, zreadByte]
    split
    · rfl
    · rw [if_neg hplain.1, if_neg (by simp [hplain.2])]

theorem toNat_lt_code (b : Byte) : isCode (b.toNat : ℤ) = false := by
  simp only [isCode, Bool.or_eq_false_iff, decide_eq_false_iff_not]
  omega

theorem readBytes_flatMap {read : List Byte → Option (ℤ × List Byte)} {send : Byte → List Byte}
    (hread : ∀ b rest, read (send b ++ rest) = some ((b.toNat : ℤ), rest)) :
    readBytes read bytes.length (bytes.flatMap send ++ rest) = some (bytes, none, rest) := by
  induction bytes with
  | nil => rfl
  | cons b bytes ih =>
    have hback : BitVec.ofInt 8 (b.toNat : ℤ) = b := by
      rw [BitVec.ofInt_natCast, BitVec.ofNat_toNat, BitVec.setWidth_eq]
    rw [flatMap_cons, append_assoc, length_cons, readBytes, hread,
      Option.bind_some, toNat_lt_code, if_neg Bool.false_ne_true, ih, Option.map_some, hback]

theorem hexDigit_spec : ∀ n < 16, hexDigit n &&& 0o177 = hexDigit n ∧ hexDigit n ≠ XON ∧
    hexDigit n ≠ XOFF ∧ hexValue (hexDigit n) = n := by
  decide

theorem zxorRead_hexDigit {n : ℕ} (hn : n < 16) (rest : List Byte) :
    zxorRead (hexDigit n :: rest) = some (hexDigit n, rest) := by
  obtain ⟨hmask, hxon, hxoff, -⟩ := hexDigit_spec n hn
  rw [zxorRead, hmask, if_neg (not_or.mpr ⟨hxon, hxoff⟩)]

theorem zgetHex_zsendAscii (b : Byte) (rest : List Byte) :
    zgetHex (zsendAscii b ++ rest) = some ((b.toNat : ℤ), rest) := by
  have hhigh : b.toNat / 16 < 16 := by omega
  have hlow : b.toNat % 16 < 16 := Nat.mod_lt _ (by decide)
  have hvalue : ((b.toNat % 16 : ℕ) : ℤ) + 16 * ((b.toNat / 16 : ℕ) : ℤ) = b.toNat := by omega
  have hdigits : ∀ n : ℕ, n < 16 → ¬((n : ℤ) < 0 ∨ 15 < (n : ℤ)) := fun n hn => by omega
  simp only [zsendAscii, cons_append, nil_append, zgetHex, Option.bind_eq_bind,
    zxorRead_hexDigit hhigh, zxorRead_hexDigit hlow, Option.bind_some,
    (hexDigit_spec _ hhigh).2.2.2, (hexDigit_spec _ hlow).2.2.2, hvalue]
  rw [if_neg (hdigits _ hhigh), if_neg (hdigits _ hlow)]

theorem crc16_append {w : ℕ} (bytes rest : List Byte) (crc : BitVec w) :
    crc16 (bytes ++ rest) crc = crc16 rest (crc16 bytes crc) :=
  foldl_append

theorem setWidth_crc16 {w : ℕ} (hw : 16 ≤ w) (bytes : List Byte) (crc : BitVec w) :
    (crc16 bytes crc).setWidth 16 = crc16 bytes (crc.setWidth 16) := by
  induction bytes generalizing crc with
  | nil => rfl
  | cons b bytes ih =>
    change (crc16 bytes (updcrc16 b crc)).setWidth 16 = _
    rw [ih, updcrc16, TableCrc.setWidth_topFirst hw]
    rfl

theorem crc16_crcBytes16 (crc : BitVec 16) : crc16 (crcBytes16 (flush16 crc)) crc = 0 :=
  TableCrc.topFirst_flushed crc

theorem crcBytes16_setWidth (crc : BitVec 32) :
    crcBytes16 (flush16 crc) = crcBytes16 (flush16 (crc.setWidth 16)) := by
  have hflush : (flush16 crc).setWidth 16 = flush16 (crc.setWidth 16) := by
    unfold flush16 updcrc16
    rw [TableCrc.setWidth_topFirst (by decide), TableCrc.setWidth_topFirst (by decide)]
  rw [← hflush]
  generalize flush16 crc = sum
  have hlow : (sum.setWidth 16).setWidth 8 = sum.setWidth 8 := by
    apply BitVec.eq_of_getLsbD_eq
    intro i hi
    have hwide : i < 16 := by omega
    simp only [BitVec.getLsbD_setWidth, hi, hwide, decide_true, Bool.true_and]
  have hhigh : ((sum.setWidth 16) >>> 8).setWidth 8 = (sum >>> 8).setWidth 8 := by
    apply BitVec.eq_of_getLsbD_eq
    intro i hi
    have hwide : 8 + i < 16 := by omega
    simp [BitVec.getLsbD_ushiftRight, hi, hwide]
  rw [crcBytes16, crcBytes16, hlow, hhigh]

theorem crc32_append (bytes rest : List Byte) (crc : BitVec 32) :
    crc32 (bytes ++ rest) crc = crc32 rest (crc32 bytes crc) :=
  foldl_append

theorem residue_cr3tab : TableCrc.residue cr3tabEntry = 0xDEBB20E3 := by decide +kernel

theorem crc32_crcBytes32 (crc : BitVec 32) : crc32 (crcBytes32 crc) crc = 0xDEBB20E3 :=
  (TableCrc.foldl_lowBytes_complement crc).trans residue_cr3tab

end Bytes

section Headers

variable {charSigned : Bool} {getCan : BitVec 16} {type : Byte} {hdr check line rest : List Byte}
  {s : ZReceiver}

theorem charValue_of_lt (htype : type.toNat < 128) : charValue charSigned type = type.toNat := by
  cases charSigned with
  | false => rfl
  | true => exact BitVec.toInt_eq_toNat_of_lt (by omega)

theorem receiveHeader_sent {read : List Byte → Option (ℤ × List Byte)} {send : Byte → List Byte}
    {correct : List Byte → Bool} {n : ℕ}
    (hread : ∀ b rest, read (send b ++ rest) = some ((b.toNat : ℤ), rest))
    (hhdr : hdr.length = 4) (hcheck : check.length = n)
    (hcorrect : correct (type :: hdr ++ check) = true)
    (hline : s.line = (type :: hdr).flatMap send ++ (check.flatMap send ++ rest)) :
    receiveHeader read n correct s =
      some (none, { s with line := rest, headerType := type, hdr := hdr ++ s.hdr.drop 4 }) := by
  have hlength : (type :: hdr ++ check).length = 5 + n := by
    rw [length_append, length_cons, hhdr, hcheck]
  have hbytes : readBytes read (5 + n) s.line = some (type :: hdr ++ check, none, rest) := by
    rw [hline, ← append_assoc, ← flatMap_append, ← hlength]
    exact readBytes_flatMap hread
  have hstored : ((type :: hdr ++ check).drop 1).take 4 = hdr := by
    change (hdr ++ check).take 4 = hdr
    rw [← hhdr, take_left]
  rw [receiveHeader, hbytes, Option.map_some]
  simp only [hstored, hhdr, hcorrect, if_true, Option.or_none]
  rfl

theorem zgetHeader_frame :
    zgetHeader charSigned getCan { s with line := ZPAD :: ZDLE :: ZBIN :: line } =
        zgetBinHeader charSigned
          { s with line := line, rxCRC := 0, rxframeind := ZBIN, headerType := 0 } ∧
      zgetHeader charSigned getCan { s with line := ZPAD :: ZDLE :: ZBIN32 :: line } =
        zgetBinFcs charSigned
          { s with line := line, rxCRC := 1, rxframeind := ZBIN32, headerType := 0 } ∧
      zgetHeader charSigned getCan { s with line := ZPAD :: ZDLE :: ZBINR32 :: line } =
        zgetBinFcs charSigned
          { s with line := line, rxCRC := 2, rxframeind := ZBINR32, headerType := 0 } ∧
      zgetHeader charSigned getCan { s with line := ZPAD :: ZPAD :: ZDLE :: ZHEX :: line } =
        zgetHexHeader charSigned
          { s with line := line, rxCRC := 0, rxframeind := ZHEX, headerType := 0 } :=
  ⟨rfl, rfl, rfl, rfl⟩

theorem crc16_checkBytes (bytes : List Byte) :
    crc16 (bytes ++ checkBytes 0 bytes) (0 : BitVec 16) = 0 := by
  have hwidth : (crc16 bytes (0 : BitVec 32)).setWidth 16 = crc16 bytes 0 :=
    setWidth_crc16 (by decide) bytes 0
  rw [checkBytes, if_pos rfl, crcBytes16_setWidth, hwidth, crc16_append]
  exact crc16_crcBytes16 _

theorem crc32_checkBytes {txCRC : ℕ} (htx : txCRC ≠ 0) (bytes : List Byte) :
    crc32 (bytes ++ checkBytes txCRC bytes) 0xFFFFFFFF = 0xDEBB20E3 := by
  rw [checkBytes, if_neg htx, crc32_append]
  exact crc32_crcBytes32 _

theorem zgetBinHeader_sent (htype : type.toNat < 128) (hhdr : hdr.length = 4)
    (hline : s.line = zsendZdleChars (type :: hdr) ++
      (zsendZdleChars (checkBytes 0 (type :: hdr)) ++ rest)) :
    zgetBinHeader charSigned s = some ((type.toNat : ℤ),
      { s with line := rest, headerType := type, hdr := hdr ++ s.hdr.drop 4 }) := by
  have hcorrect : (crc16 (type :: hdr ++ checkBytes 0 (type :: hdr)) (0 : BitVec 16) == 0) = true :=
    beq_iff_eq.mpr (crc16_checkBytes _)
  have hcheck : (checkBytes 0 (type :: hdr)).length = 2 := rfl
  rw [zgetBinHeader, receiveHeader_sent zreadByte_zsendZdleChar hhdr hcheck hcorrect hline]
  exact congrArg (fun res => some (res, _)) (charValue_of_lt htype)

theorem zgetBinFcs_sent {txCRC : ℕ} (htx : txCRC ≠ 0) (htype : type.toNat < 128)
    (hhdr : hdr.length = 4) (hline : s.line = zsendZdleChars (type :: hdr) ++
      (zsendZdleChars (checkBytes txCRC (type :: hdr)) ++ rest)) :
    zgetBinFcs charSigned s = some ((type.toNat : ℤ),
      { s with line := rest, headerType := type, hdr := hdr ++ s.hdr.drop 4 }) := by
  have hcorrect :
      (crc32 (type :: hdr ++ checkBytes txCRC (type :: hdr)) 0xFFFFFFFF == 0xDEBB20E3) = true :=
    beq_iff_eq.mpr (crc32_checkBytes htx _)
  have hcheck : (checkBytes txCRC (type :: hdr)).length = 4 := by
    rw [checkBytes, if_neg htx]
    rfl
  rw [zgetBinFcs, receiveHeader_sent zreadByte_zsendZdleChar hhdr hcheck hcorrect hline]
  exact congrArg (fun res => some (res, _)) (charValue_of_lt htype)

theorem zgetHexHeader_sent {check : List Byte} {a b : Byte} (htype : type.toNat < 128)
    (hhdr : hdr.length = 4)
    (hcheck : check = crcBytes16 (flush16 (crc16 (type :: hdr) (0 : BitVec 16))))
    (hline : s.line = (type :: hdr).flatMap zsendAscii ++
      (check.flatMap zsendAscii ++ (a :: b :: rest))) :
    zgetHexHeader charSigned s = some ((type.toNat : ℤ),
      { s with line := rest, headerType := type, hdr := hdr ++ s.hdr.drop 4 }) := by
  have hcorrect : (crc16 (type :: hdr ++ check) (0 : BitVec 16) == 0) = true := by
    rw [beq_iff_eq, crc16_append, hcheck]
    exact crc16_crcBytes16 _
  have hlength : check.length = 2 := by
    rw [hcheck]
    rfl
  rw [zgetHexHeader, receiveHeader_sent zgetHex_zsendAscii hhdr hlength hcorrect hline]
  exact congrArg (fun res => some (res, _)) (charValue_of_lt htype)

inductive Encoding
  | hex
  | bin16
  | bin32
  | rle32
  deriving DecidableEq

def Encoding.send : Encoding → Byte → List Byte → List Byte
  | .hex => zsendHexHeader
  | .bin16 => zsendBinHeader 0
  | .bin32 => zsendBinHeader 1
  | .rle32 => zsendBinHeader 2

def Encoding.rxCRC : Encoding → ℕ
  | .hex | .bin16 => 0
  | .bin32 => 1
  | .rle32 => 2

theorem shift_or_low (pos : BitVec 32) :
    ((pos >>> 8) <<< 8) ||| (pos.setWidth 8).setWidth 32 = pos := by
  apply BitVec.eq_of_getLsbD_eq
  intro i hi
  rw [BitVec.getLsbD_or, BitVec.getLsbD_shiftLeft, BitVec.getLsbD_ushiftRight,
    BitVec.getLsbD_setWidth, BitVec.getLsbD_setWidth]
  by_cases hlow : i < 8
  · simp only [hi, hlow, decide_true, Bool.not_true, Bool.and_false, Bool.false_and,
      Bool.true_and, Bool.false_or]
  · have hplace : 8 + (i - 8) = i := by omega
    simp only [hi, hlow, hplace, decide_true, decide_false, Bool.not_false, Bool.true_and,
      Bool.and_false, Bool.false_and, Bool.or_false]

theorem zgetPos_lowBytes (n : ℕ) (pos : BitVec 32) (hpos : pos.toNat < 2 ^ (8 * n)) :
    zgetPos (TableCrc.lowBytes n pos) = pos := by
  induction n generalizing pos with
  | zero =>
    have hzero : pos.toNat = 0 := by omega
    exact (BitVec.eq_of_toNat_eq hzero).symm
  | succ n ih =>
    have hshift : (pos >>> 8).toNat < 2 ^ (8 * n) := by
      rw [BitVec.toNat_ushiftRight, Nat.shiftRight_eq_div_pow]
      apply Nat.div_lt_of_lt_mul
      rwa [← pow_add, Nat.add_comm, ← Nat.mul_succ]
    change ((zgetPos (TableCrc.lowBytes n (pos >>> 8))) <<< 8) |||
      (pos.setWidth 8).setWidth 32 = pos
    rw [ih _ hshift, shift_or_low]

theorem zgetPos_zputPos (pos : BitVec 32) : zgetPos (zputPos pos) = pos :=
  zgetPos_lowBytes 4 pos pos.isLt

/-- A header sent in any encoding is received: the type, the four bytes and the mode; a
position stored in it is recovered. -/
theorem zgetHeader_send (encoding : Encoding) (charSigned : Bool) (getCan : BitVec 16)
    (type : Byte) (hdr : List Byte) (s : ZReceiver) (htype : type.toNat < 128)
    (hhdr : hdr.length = 4) :
    ∃ next, zgetHeader charSigned getCan { s with line := encoding.send type hdr } =
        some ((type.toNat : ℤ), next) ∧
      next.headerType = type ∧ next.hdr.take 4 = hdr ∧ next.rxCRC = encoding.rxCRC ∧
      ∀ pos, hdr = zputPos pos → zgetPos (next.hdr.take 4) = pos := by
  suffices hreceived : ∃ next,
      zgetHeader charSigned getCan { s with line := encoding.send type hdr } =
        some ((type.toNat : ℤ), next) ∧
      next.headerType = type ∧ next.hdr = hdr ++ s.hdr.drop 4 ∧ next.rxCRC = encoding.rxCRC by
    obtain ⟨next, hresult, hnext, hstored, hmode⟩ := hreceived
    have htake : next.hdr.take 4 = hdr := by rw [hstored, ← hhdr, take_left]
    refine ⟨next, hresult, hnext, htake, hmode, ?_⟩
    intro pos hpos
    rw [htake, hpos]
    exact zgetPos_zputPos pos
  have hend : ∀ txCRC,
      zsendZdleChars (type :: hdr) ++ zsendZdleChars (checkBytes txCRC (type :: hdr)) =
        zsendZdleChars (type :: hdr) ++ (zsendZdleChars (checkBytes txCRC (type :: hdr)) ++ []) :=
    fun txCRC => by rw [append_nil]
  cases encoding with
  | bin16 =>
    exact ⟨_, zgetHeader_frame.1.trans (zgetBinHeader_sent htype hhdr (hend 0)), rfl, rfl, rfl⟩
  | bin32 =>
    exact ⟨_, zgetHeader_frame.2.1.trans (zgetBinFcs_sent (by decide) htype hhdr (hend 1)),
      rfl, rfl, rfl⟩
  | rle32 =>
    exact ⟨_, zgetHeader_frame.2.2.1.trans (zgetBinFcs_sent (by decide) htype hhdr (hend 2)),
      rfl, rfl, rfl⟩
  | hex =>
    have hline : zsendHexHeader type hdr = ZPAD :: ZPAD :: ZDLE :: ZHEX ::
        ((type :: hdr).flatMap zsendAscii ++
          ((crcBytes16 (flush16 (crc16 (type :: hdr) (0 : BitVec 16)))).flatMap zsendAscii ++
            (0o15 :: 0o212 :: if type ≠ ZFIN ∧ type ≠ ZACK then [XON] else []))) := by
      simp only [zsendHexHeader, append_assoc, cons_append, nil_append]
    rw [Encoding.send, hline]
    exact ⟨_, zgetHeader_frame.2.2.2.trans (zgetHexHeader_sent htype hhdr rfl rfl), rfl, rfl, rfl⟩

theorem zgetHeader_send_position :
    ∃ next, zgetHeader true 0 ⟨Encoding.rle32.send 9 (zputPos 0x11981318), 0, 0, 0, []⟩ =
        some (9, next) ∧
      next.headerType = 9 ∧ next.hdr.take 4 = zputPos 0x11981318 ∧ next.rxCRC = 2 ∧
      ∀ pos, zputPos 0x11981318 = zputPos pos → zgetPos (next.hdr.take 4) = pos :=
  zgetHeader_send .rle32 true 0 9 (zputPos 0x11981318) ⟨[], 0, 0, 0, []⟩ (by decide) rfl

end Headers

end RtThread.Zmodem
