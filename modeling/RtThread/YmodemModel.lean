import RtThread.ZmodemModel

/-!
# Receiving a file by YMODEM

The receiver reads from a line on which a byte arrives in time or does not: an
item `none` is a wait that ends without a byte, and nothing arrives behind the
end of the list.  What the receiver sends and the data it gives to the callbacks
are kept as histories.
-/

namespace RtThread.Ymodem

abbrev Byte := BitVec 8

def RYM_CODE_NONE : Byte := 0x00
def RYM_CODE_SOH : Byte := 0x01
def RYM_CODE_STX : Byte := 0x02
def RYM_CODE_EOT : Byte := 0x04
def RYM_CODE_ACK : Byte := 0x06
def RYM_CODE_NAK : Byte := 0x15
def RYM_CODE_CAN : Byte := 0x18
def RYM_CODE_C : Byte := 0x43

def RT_EOK : ℤ := 0
def RT_ENOMEM : ℤ := 5
def RYM_ERR_TMO : ℤ := 0x70
def RYM_ERR_CODE : ℤ := 0x71
def RYM_ERR_SEQ : ℤ := 0x72
def RYM_ERR_CRC : ℤ := 0x73
def RYM_ERR_DSZ : ℤ := 0x74
def RYM_ERR_CAN : ℤ := 0x75

def sohRest : ℕ := 2 + 128 + 2

def ccittTable : List ℕ :=
  [0x0000, 0x1021, 0x2042, 0x3063, 0x4084, 0x50A5, 0x60C6, 0x70E7,
   0x8108, 0x9129, 0xA14A, 0xB16B, 0xC18C, 0xD1AD, 0xE1CE, 0xF1EF,
   0x1231, 0x0210, 0x3273, 0x2252, 0x52B5, 0x4294, 0x72F7, 0x62D6,
   0x9339, 0x8318, 0xB37B, 0xA35A, 0xD3BD, 0xC39C, 0xF3FF, 0xE3DE,
   0x2462, 0x3443, 0x0420, 0x1401, 0x64E6, 0x74C7, 0x44A4, 0x5485,
   0xA56A, 0xB54B, 0x8528, 0x9509, 0xE5EE, 0xF5CF, 0xC5AC, 0xD58D,
   0x3653, 0x2672, 0x1611, 0x0630, 0x76D7, 0x66F6, 0x5695, 0x46B4,
   0xB75B, 0xA77A, 0x9719, 0x8738, 0xF7DF, 0xE7FE, 0xD79D, 0xC7BC,
   0x48C4, 0x58E5, 0x6886, 0x78A7, 0x0840, 0x1861, 0x2802, 0x3823,
   0xC9CC, 0xD9ED, 0xE98E, 0xF9AF, 0x8948, 0x9969, 0xA90A, 0xB92B,
   0x5AF5, 0x4AD4, 0x7AB7, 0x6A96, 0x1A71, 0x0A50, 0x3A33, 0x2A12,
   0xDBFD, 0xCBDC, 0xFBBF, 0xEB9E, 0x9B79, 0x8B58, 0xBB3B, 0xAB1A,
   0x6CA6, 0x7C87, 0x4CE4, 0x5CC5, 0x2C22, 0x3C03, 0x0C60, 0x1C41,
   0xEDAE, 0xFD8F, 0xCDEC, 0xDDCD, 0xAD2A, 0xBD0B, 0x8D68, 0x9D49,
   0x7E97, 0x6EB6, 0x5ED5, 0x4EF4, 0x3E13, 0x2E32, 0x1E51, 0x0E70,
   0xFF9F, 0xEFBE, 0xDFDD, 0xCFFC, 0xBF1B, 0xAF3A, 0x9F59, 0x8F78,
   0x9188, 0x81A9, 0xB1CA, 0xA1EB, 0xD10C, 0xC12D, 0xF14E, 0xE16F,
   0x1080, 0x00A1, 0x30C2, 0x20E3, 0x5004, 0x4025, 0x7046, 0x6067,
   0x83B9, 0x9398, 0xA3FB, 0xB3DA, 0xC33D, 0xD31C, 0xE37F, 0xF35E,
   0x02B1, 0x1290, 0x22F3, 0x32D2, 0x4235, 0x5214, 0x6277, 0x7256,
   0xB5EA, 0xA5CB, 0x95A8, 0x8589, 0xF56E, 0xE54F, 0xD52C, 0xC50D,
   0x34E2, 0x24C3, 0x14A0, 0x0481, 0x7466, 0x6447, 0x5424, 0x4405,
   0xA7DB, 0xB7FA, 0x8799, 0x97B8, 0xE75F, 0xF77E, 0xC71D, 0xD73C,
   0x26D3, 0x36F2, 0x0691, 0x16B0, 0x6657, 0x7676, 0x4615, 0x5634,
   0xD94C, 0xC96D, 0xF90E, 0xE92F, 0x99C8, 0x89E9, 0xB98A, 0xA9AB,
   0x5844, 0x4865, 0x7806, 0x6827, 0x18C0, 0x08E1, 0x3882, 0x28A3,
   0xCB7D, 0xDB5C, 0xEB3F, 0xFB1E, 0x8BF9, 0x9BD8, 0xABBB, 0xBB9A,
   0x4A75, 0x5A54, 0x6A37, 0x7A16, 0x0AF1, 0x1AD0, 0x2AB3, 0x3A92,
   0xFD2E, 0xED0F, 0xDD6C, 0xCD4D, 0xBDAA, 0xAD8B, 0x9DE8, 0x8DC9,
   0x7C26, 0x6C07, 0x5C64, 0x4C45, 0x3CA2, 0x2C83, 0x1CE0, 0x0CC1,
   0xEF1F, 0xFF3E, 0xCF5D, 0xDF7C, 0xAF9B, 0xBFBA, 0x8FD9, 0x9FF8,
   0x6E17, 0x7E36, 0x4E55, 0x5E74, 0x2E93, 0x3EB2, 0x0ED1, 0x1EF0]

def ccittEntry (index : Byte) : BitVec 16 := BitVec.ofNat 16 (ccittTable.getD index.toNat 0)

/-- The table is that of the other protocol. -/
theorem ccittEntry_eq : ccittEntry = Zmodem.crctabEntry := by
  have htable : ccittTable = Zmodem.crctab := rfl
  funext index
  rw [ccittEntry, htable, Zmodem.crctabEntry]

def crc16 (q : List Byte) : BitVec 16 :=
  q.foldl (fun crc b => (crc <<< 8) ^^^ ccittEntry ((crc >>> 8).setWidth 8 ^^^ b)) 0

def recvCrc (high low : Byte) : BitVec 16 := (high.setWidth 16 <<< 8) ||| low.setWidth 16

inductive RymStage where
  | none
  | establishing
  | established
  | transmitting
  | finishing
  | finished
  deriving DecidableEq

/-- The callbacks.  `onData` is given the data of all its calls, the current one last; the value
of `onEnd` is ignored. -/
structure RymCallbacks where
  onBegin : Option (List Byte → Byte)
  onData : Option (List (List Byte) → Byte)
  onEnd : Bool

/-- A session: the line, the buffer, and the histories of what was sent and of the arguments of
the callbacks. -/
structure RymCtx where
  line : List (Option Byte)
  buf : List Byte
  stage : RymStage
  out : List Byte
  begun : List (List Byte)
  data : List (List Byte)
  ended : List (List Byte)

namespace RymCtx

def putchar (code : Byte) (s : RymCtx) : RymCtx := { s with out := s.out ++ [code] }

def readCode (s : RymCtx) : Byte × RymCtx :=
  match s.line with
  | some b :: line => (b, { s with line := line, buf := b :: s.buf.drop 1 })
  | none :: line => (RYM_CODE_NONE, { s with line := line })
  | [] => (RYM_CODE_NONE, s)

/-- Read at most `len` bytes, up to the first wait that ends without a byte. -/
def takeBytes : ℕ → List (Option Byte) → List Byte × List (Option Byte)
  | len + 1, some b :: line => (b :: (takeBytes len line).1, (takeBytes len line).2)
  | _ + 1, none :: line => ([], line)
  | _, line => ([], line)

/-- `_rym_read_data`; the bytes are stored from `buf + 1` on. -/
def readData (len : ℕ) (s : RymCtx) : List Byte × RymCtx :=
  let (bytes, line) := takeBytes len s.line
  (bytes, { s with line := line, buf := s.buf.take 1 ++ bytes ++ s.buf.drop (1 + bytes.length) })

/-- `recv_crc != CRC16(...)` for the bytes of a packet behind its code. -/
def crcFails (dataSz : ℕ) (bytes : List Byte) : Bool :=
  recvCrc (bytes.getD (dataSz + 2) 0) (bytes.getD (dataSz + 3) 0) ≠
    crc16 ((bytes.drop 2).take dataSz)

def readFirst (s : RymCtx) : Except ℤ (List Byte) × RymCtx :=
  let (bytes, s) := s.readData sohRest
  if bytes.length ≠ sohRest then (.error (-RYM_ERR_DSZ), s)
  else if bytes.getD 0 0 ≠ 0 ∨ bytes.getD 1 0 ≠ 0xFF then (.error (-RYM_ERR_SEQ), s)
  else if crcFails 128 bytes then (.error (-RYM_ERR_CRC), s)
  else (.ok ((bytes.drop 2).take 128), s)

/-- The loop of `_rym_do_handshake` with `rounds` rounds left: whether a packet has begun. -/
def awaitFirst : ℕ → RymCtx → Bool × RymCtx
  | 0, s => (false, s)
  | rounds + 1, s =>
    let (code, s) := (s.putchar RYM_CODE_C).readCode
    if code = RYM_CODE_SOH then (true, s) else awaitFirst rounds s

def doHandshake (cb : RymCallbacks) (tmSec : ℕ) (s : RymCtx) : ℤ × RymCtx :=
  let (begun, s) := { s with stage := .establishing }.awaitFirst tmSec
  if begun = false then (-RYM_ERR_TMO, s)
  else match s.readFirst with
    | (.error err, s) => (err, s)
    | (.ok block, s) =>
      match cb.onBegin with
      | none => (RT_EOK, s)
      | some onBegin =>
        (if onBegin block = RYM_CODE_ACK then RT_EOK else -RYM_ERR_CAN,
          { s with begun := s.begun ++ [block] })

def transData (cb : RymCallbacks) (dataSz : ℕ) (s : RymCtx) : ℤ × Byte × RymCtx :=
  let (bytes, s) := s.readData (2 + dataSz + 2)
  if bytes.length ≠ 2 + dataSz + 2 then (-RYM_ERR_DSZ, RYM_CODE_NONE, s)
  else if (bytes.getD 0 0).toNat + (bytes.getD 1 0).toNat ≠ 0xFF then
    (-RYM_ERR_SEQ, RYM_CODE_NONE, s)
  else if crcFails dataSz bytes then (-RYM_ERR_CRC, RYM_CODE_NONE, s)
  else
    match cb.onData with
    | none => (RT_EOK, RYM_CODE_ACK, s)
    | some onData =>
      let data := s.data ++ [(bytes.drop 2).take dataSz]
      (RT_EOK, onData data, { s with data := data })

theorem length_takeBytes_le (len : ℕ) (line : List (Option Byte)) :
    (takeBytes len line).2.length ≤ line.length := by
  induction len, line using takeBytes.induct with
  | case1 len b line ih => exact ih.trans (Nat.le_succ _)
  | case2 len line => exact Nat.le_succ _
  | case3 len line h₁ h₂ => rw [takeBytes.eq_3 _ _ h₁ h₂]

theorem length_readCode_lt {s : RymCtx} (hcode : s.readCode.1 ≠ RYM_CODE_NONE) :
    s.readCode.2.line.length < s.line.length := by
  unfold readCode at hcode ⊢
  split
  · rename_i hline
    simp [hline]
  · rename_i hline
    simp [hline]
  · rename_i hline
    simp [hline] at hcode

theorem line_transData (cb : RymCallbacks) (dataSz : ℕ) (s : RymCtx) :
    (s.transData cb dataSz).2.2.line = (takeBytes (2 + dataSz + 2) s.line).2 := by
  unfold transData readData
  dsimp only
  split_ifs
  · rfl
  · rfl
  · rfl
  · cases cb.onData with
    | none | some onData => rfl

def transLoop (cb : RymCallbacks) (s : RymCtx) : ℤ × RymCtx :=
  if hcode : s.readCode.1 = RYM_CODE_SOH ∨ s.readCode.1 = RYM_CODE_STX then
    let dataSz := if s.readCode.1 = RYM_CODE_SOH then 128 else 1024
    let r := { s.readCode.2 with stage := .transmitting }.transData cb dataSz
    if r.1 ≠ RT_EOK then (r.1, r.2.2)
    else if r.2.1 = RYM_CODE_CAN then
      (-RYM_ERR_CAN, (r.2.2.putchar RYM_CODE_CAN).putchar RYM_CODE_CAN)
    else if r.2.1 = RYM_CODE_ACK then transLoop cb (r.2.2.putchar RYM_CODE_ACK)
    else transLoop cb r.2.2
  else if s.readCode.1 = RYM_CODE_EOT then (RT_EOK, s.readCode.2)
  else (-RYM_ERR_CODE, s.readCode.2)
termination_by s.line.length
decreasing_by
  all_goals
    have hne : s.readCode.1 ≠ RYM_CODE_NONE := by
      rintro hnone
      rw [hnone] at hcode
      exact absurd hcode (by decide)
    have hlt := length_readCode_lt hne
    simp only [putchar, line_transData]
    exact lt_of_le_of_lt (length_takeBytes_le _ _) hlt

def doTrans (cb : RymCallbacks) (s : RymCtx) : ℤ × RymCtx :=
  { (s.putchar RYM_CODE_ACK).putchar RYM_CODE_C with stage := .established }.transLoop cb

def doFin (cb : RymCallbacks) (s : RymCtx) : ℤ × RymCtx :=
  let s := { s with stage := .finishing }
  let s := if cb.onEnd then { s with ended := s.ended ++ [(s.buf.drop 3).take 128] } else s
  let (code, s) := (s.putchar RYM_CODE_NAK).readCode
  if code ≠ RYM_CODE_EOT then (-RYM_ERR_CODE, s)
  else
    let (code, s) := ((s.putchar RYM_CODE_ACK).putchar RYM_CODE_C).readCode
    if code ≠ RYM_CODE_SOH then (-RYM_ERR_CODE, s)
    else match s.readFirst with
      | (.error err, s) => (err, s)
      | (.ok _, s) => (RT_EOK, { s with stage := .finished }.putchar RYM_CODE_ACK)

def start (buf : List Byte) (line : List (Option Byte)) : RymCtx where
  line := line
  buf := buf
  stage := .none
  out := []
  begun := []
  data := []
  ended := []

end RymCtx

def doRecv (cb : RymCallbacks) (handshakeTimeout : ℕ) (buf : Option (List Byte))
    (line : List (Option Byte)) : ℤ × RymCtx :=
  match buf with
  | none => (-RT_ENOMEM, RymCtx.start [] line)
  | some buf =>
    let (err, s) := (RymCtx.start buf line).doHandshake cb handshakeTimeout
    if err ≠ RT_EOK then (err, s)
    else
      let (err, s) := s.doTrans cb
      if err ≠ RT_EOK then (err, s) else s.doFin cb

def rymRecvOnDevice (cb : RymCallbacks) (handshakeTimeout : ℕ) (opened : ℤ)
    (buf : Option (List Byte)) (line : List (Option Byte)) : ℤ × RymCtx :=
  if opened ≠ RT_EOK then (opened, RymCtx.start [] line)
  else doRecv cb handshakeTimeout buf line

end RtThread.Ymodem
