import RtThread.YmodemModel
import RtThread.ZmodemHeaders

/-!
# The checksums of the file transfers against the bit-serial ones

The entries of both tables are what eight steps of the register make of a byte,
so each form of the update is the bit-serial one for every message.
-/

namespace RtThread

open TableCrc Zmodem

/-- `x^16 + x^12 + x^5 + 1` -/
def ccittPoly : BitVec 16 := 0x1021

def reflectedPoly : BitVec 32 := 0xEDB88320

theorem crctab_serial (b : BitVec 8) :
    serialHigh ccittPoly (List.replicate 8 false) (b.setWidth 16 <<< 8) = Zmodem.crctabEntry b :=
  (table_entry (f := fun b => serialHigh ccittPoly (List.replicate 8 false)
    (b.setWidth 16 <<< 8)) (by decide +kernel) b).symm

theorem cr3tab_serial (b : BitVec 8) :
    serialLow reflectedPoly (List.replicate 8 false) (b.setWidth 32) = Zmodem.cr3tabEntry b :=
  (table_entry (f := fun b => serialLow reflectedPoly (List.replicate 8 false)
    (b.setWidth 32)) (by decide +kernel) b).symm

theorem foldl_directHigh (bytes : List (BitVec 8)) (crc : BitVec 16) :
    bytes.foldl (directHigh Zmodem.crctabEntry) crc =
      serialHigh ccittPoly (bytes.flatMap highFirst) crc := by
  induction bytes generalizing crc with
  | nil => rfl
  | cons byte bytes ih =>
    have hbyte : directHigh crctabEntry crc byte =
        serialHigh ccittPoly (highFirst byte) crc := by
      rw [serialHigh_byte crctab_serial, directHigh, BitVec.xor_comm]
    rw [List.foldl_cons, ih, hbyte, List.flatMap_cons]
    exact List.foldl_append.symm

theorem crc32_serial (bytes : List (BitVec 8)) (crc : BitVec 32) :
    Zmodem.crc32 bytes crc = serialLow reflectedPoly (bytes.flatMap lowFirst) crc := by
  induction bytes generalizing crc with
  | nil => rfl
  | cons byte bytes ih =>
    have hbyte : updcrc32 byte crc = serialLow reflectedPoly (lowFirst byte) crc :=
      (serialLow_byte cr3tab_serial crc byte).symm
    change crc32 bytes (updcrc32 byte crc) = _
    rw [ih, hbyte, List.flatMap_cons]
    exact List.foldl_append.symm

theorem flush16_crc16 (bytes : List (BitVec 8)) (crc : BitVec 16) :
    Zmodem.flush16 (Zmodem.crc16 bytes crc) =
      bytes.foldl (directHigh Zmodem.crctabEntry) (Zmodem.flush16 crc) := by
  induction bytes generalizing crc with
  | nil => rfl
  | cons byte bytes ih =>
    have hbyte : flush16 (updcrc16 byte crc) =
        directHigh crctabEntry (flush16 crc) byte := topFirst_flush_step byte crc
    change flush16 (crc16 bytes (updcrc16 byte crc)) = _
    rw [ih, hbyte, List.foldl_cons]

/-- The table-driven checksums of both protocols are the bit-serial ones, for every message and for
a register of `updcrc16` of any width from 16 bits on. -/
theorem checksums_bitSerial (bytes : List (BitVec 8)) :
    Ymodem.crc16 bytes = serialHigh ccittPoly (bytes.flatMap highFirst) 0 ∧
      (∀ k, (Zmodem.crc16 (bytes ++ [0, 0]) (0 : BitVec (16 + k))).setWidth 16 =
        serialHigh ccittPoly (bytes.flatMap highFirst) 0) ∧ Zmodem.crc32 bytes 0xffffffff =
        serialLow reflectedPoly (bytes.flatMap lowFirst) 0xffffffff ∧
      Zmodem.crc32 (bytes ++ Zmodem.crcBytes32 (Zmodem.crc32 bytes 0xffffffff)) 0xffffffff =
        0xDEBB20E3 := by
  refine ⟨?_, fun k => ?_, crc32_serial bytes _, ?_⟩
  · rw [← foldl_directHigh, Ymodem.crc16, Ymodem.ccittEntry_eq]
    rfl
  · have hzero : (0 : BitVec (16 + k)).setWidth 16 = 0 := by
      simp
    have hflush : flush16 (0 : BitVec 16) = 0 := by decide
    rw [setWidth_crc16 (Nat.le_add_right 16 k), hzero, crc16_append]
    change flush16 (crc16 bytes 0) = _
    rw [flush16_crc16, hflush, foldl_directHigh]
  · rw [crc32_append]
    exact crc32_crcBytes32 _

end RtThread
