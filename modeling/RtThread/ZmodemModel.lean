import RtThread.TableCrc

/-!
# The core functions of ZMODEM

What is sent is the list of bytes given to the device; what is received is read
from such a list.  `zread_line` waits until a byte is there, so it has no
negative results, and a reader at the end of the list gives `none`.
-/

namespace RtThread.Zmodem

abbrev Byte := BitVec 8

/-! ## Constants -/

def ZPAD : Byte := 0x2a
def ZDLE : Byte := 0o30
def ZBIN : Byte := 0x41
def ZHEX : Byte := 0x42
def ZBIN32 : Byte := 0x43
def ZBINR32 : Byte := 0x44
def ZRESC : Byte := 0o176
def ZACK : Byte := 3
def ZFIN : Byte := 8
def ZCAN : ℤ := 16
def ZCRCE : Byte := 0x68
def ZCRCG : Byte := 0x69
def ZCRCQ : Byte := 0x6a
def ZCRCW : Byte := 0x6b
def ZRUB0 : Byte := 0x6c
def ZRUB1 : Byte := 0x6d
def CAN : Byte := 0o30
def XOFF : Byte := 0o23
def XON : Byte := 0o21
def GOTOR : ℤ := 0o400
def GOTCAN : ℤ := GOTOR + 0o30
def GCOUNT : ℤ := -4
def RT_ERROR : ℤ := 1
def BITRATE : BitVec 32 := 115200

def frameEnds : List Byte := [ZCRCE, ZCRCG, ZCRCQ, ZCRCW]

def gotFrameEnd (frameend : Byte) : ℤ := frameend.toNat + GOTOR

/-! ## Checksums -/

def crctab : List ℕ :=
  [0x0000, 0x1021, 0x2042, 0x3063, 0x4084, 0x50a5, 0x60c6, 0x70e7,
   0x8108, 0x9129, 0xa14a, 0xb16b, 0xc18c, 0xd1ad, 0xe1ce, 0xf1ef,
   0x1231, 0x0210, 0x3273, 0x2252, 0x52b5, 0x4294, 0x72f7, 0x62d6,
   0x9339, 0x8318, 0xb37b, 0xa35a, 0xd3bd, 0xc39c, 0xf3ff, 0xe3de,
   0x2462, 0x3443, 0x0420, 0x1401, 0x64e6, 0x74c7, 0x44a4, 0x5485,
   0xa56a, 0xb54b, 0x8528, 0x9509, 0xe5ee, 0xf5cf, 0xc5ac, 0xd58d,
   0x3653, 0x2672, 0x1611, 0x0630, 0x76d7, 0x66f6, 0x5695, 0x46b4,
   0xb75b, 0xa77a, 0x9719, 0x8738, 0xf7df, 0xe7fe, 0xd79d, 0xc7bc,
   0x48c4, 0x58e5, 0x6886, 0x78a7, 0x0840, 0x1861, 0x2802, 0x3823,
   0xc9cc, 0xd9ed, 0xe98e, 0xf9af, 0x8948, 0x9969, 0xa90a, 0xb92b,
   0x5af5, 0x4ad4, 0x7ab7, 0x6a96, 0x1a71, 0x0a50, 0x3a33, 0x2a12,
   0xdbfd, 0xcbdc, 0xfbbf, 0xeb9e, 0x9b79, 0x8b58, 0xbb3b, 0xab1a,
   0x6ca6, 0x7c87, 0x4ce4, 0x5cc5, 0x2c22, 0x3c03, 0x0c60, 0x1c41,
   0xedae, 0xfd8f, 0xcdec, 0xddcd, 0xad2a, 0xbd0b, 0x8d68, 0x9d49,
   0x7e97, 0x6eb6, 0x5ed5, 0x4ef4, 0x3e13, 0x2e32, 0x1e51, 0x0e70,
   0xff9f, 0xefbe, 0xdfdd, 0xcffc, 0xbf1b, 0xaf3a, 0x9f59, 0x8f78,
   0x9188, 0x81a9, 0xb1ca, 0xa1eb, 0xd10c, 0xc12d, 0xf14e, 0xe16f,
   0x1080, 0x00a1, 0x30c2, 0x20e3, 0x5004, 0x4025, 0x7046, 0x6067,
   0x83b9, 0x9398, 0xa3fb, 0xb3da, 0xc33d, 0xd31c, 0xe37f, 0xf35e,
   0x02b1, 0x1290, 0x22f3, 0x32d2, 0x4235, 0x5214, 0x6277, 0x7256,
   0xb5ea, 0xa5cb, 0x95a8, 0x8589, 0xf56e, 0xe54f, 0xd52c, 0xc50d,
   0x34e2, 0x24c3, 0x14a0, 0x0481, 0x7466, 0x6447, 0x5424, 0x4405,
   0xa7db, 0xb7fa, 0x8799, 0x97b8, 0xe75f, 0xf77e, 0xc71d, 0xd73c,
   0x26d3, 0x36f2, 0x0691, 0x16b0, 0x6657, 0x7676, 0x4615, 0x5634,
   0xd94c, 0xc96d, 0xf90e, 0xe92f, 0x99c8, 0x89e9, 0xb98a, 0xa9ab,
   0x5844, 0x4865, 0x7806, 0x6827, 0x18c0, 0x08e1, 0x3882, 0x28a3,
   0xcb7d, 0xdb5c, 0xeb3f, 0xfb1e, 0x8bf9, 0x9bd8, 0xabbb, 0xbb9a,
   0x4a75, 0x5a54, 0x6a37, 0x7a16, 0x0af1, 0x1ad0, 0x2ab3, 0x3a92,
   0xfd2e, 0xed0f, 0xdd6c, 0xcd4d, 0xbdaa, 0xad8b, 0x9de8, 0x8dc9,
   0x7c26, 0x6c07, 0x5c64, 0x4c45, 0x3ca2, 0x2c83, 0x1ce0, 0x0cc1,
   0xef1f, 0xff3e, 0xcf5d, 0xdf7c, 0xaf9b, 0xbfba, 0x8fd9, 0x9ff8,
   0x6e17, 0x7e36, 0x4e55, 0x5e74, 0x2e93, 0x3eb2, 0x0ed1, 0x1ef0]

def cr3tab : List ℕ :=
  [0x00000000, 0x77073096, 0xee0e612c, 0x990951ba, 0x076dc419, 0x706af48f, 0xe963a535, 0x9e6495a3,
   0x0edb8832, 0x79dcb8a4, 0xe0d5e91e, 0x97d2d988, 0x09b64c2b, 0x7eb17cbd, 0xe7b82d07, 0x90bf1d91,
   0x1db71064, 0x6ab020f2, 0xf3b97148, 0x84be41de, 0x1adad47d, 0x6ddde4eb, 0xf4d4b551, 0x83d385c7,
   0x136c9856, 0x646ba8c0, 0xfd62f97a, 0x8a65c9ec, 0x14015c4f, 0x63066cd9, 0xfa0f3d63, 0x8d080df5,
   0x3b6e20c8, 0x4c69105e, 0xd56041e4, 0xa2677172, 0x3c03e4d1, 0x4b04d447, 0xd20d85fd, 0xa50ab56b,
   0x35b5a8fa, 0x42b2986c, 0xdbbbc9d6, 0xacbcf940, 0x32d86ce3, 0x45df5c75, 0xdcd60dcf, 0xabd13d59,
   0x26d930ac, 0x51de003a, 0xc8d75180, 0xbfd06116, 0x21b4f4b5, 0x56b3c423, 0xcfba9599, 0xb8bda50f,
   0x2802b89e, 0x5f058808, 0xc60cd9b2, 0xb10be924, 0x2f6f7c87, 0x58684c11, 0xc1611dab, 0xb6662d3d,
   0x76dc4190, 0x01db7106, 0x98d220bc, 0xefd5102a, 0x71b18589, 0x06b6b51f, 0x9fbfe4a5, 0xe8b8d433,
   0x7807c9a2, 0x0f00f934, 0x9609a88e, 0xe10e9818, 0x7f6a0dbb, 0x086d3d2d, 0x91646c97, 0xe6635c01,
   0x6b6b51f4, 0x1c6c6162, 0x856530d8, 0xf262004e, 0x6c0695ed, 0x1b01a57b, 0x8208f4c1, 0xf50fc457,
   0x65b0d9c6, 0x12b7e950, 0x8bbeb8ea, 0xfcb9887c, 0x62dd1ddf, 0x15da2d49, 0x8cd37cf3, 0xfbd44c65,
   0x4db26158, 0x3ab551ce, 0xa3bc0074, 0xd4bb30e2, 0x4adfa541, 0x3dd895d7, 0xa4d1c46d, 0xd3d6f4fb,
   0x4369e96a, 0x346ed9fc, 0xad678846, 0xda60b8d0, 0x44042d73, 0x33031de5, 0xaa0a4c5f, 0xdd0d7cc9,
   0x5005713c, 0x270241aa, 0xbe0b1010, 0xc90c2086, 0x5768b525, 0x206f85b3, 0xb966d409, 0xce61e49f,
   0x5edef90e, 0x29d9c998, 0xb0d09822, 0xc7d7a8b4, 0x59b33d17, 0x2eb40d81, 0xb7bd5c3b, 0xc0ba6cad,
   0xedb88320, 0x9abfb3b6, 0x03b6e20c, 0x74b1d29a, 0xead54739, 0x9dd277af, 0x04db2615, 0x73dc1683,
   0xe3630b12, 0x94643b84, 0x0d6d6a3e, 0x7a6a5aa8, 0xe40ecf0b, 0x9309ff9d, 0x0a00ae27, 0x7d079eb1,
   0xf00f9344, 0x8708a3d2, 0x1e01f268, 0x6906c2fe, 0xf762575d, 0x806567cb, 0x196c3671, 0x6e6b06e7,
   0xfed41b76, 0x89d32be0, 0x10da7a5a, 0x67dd4acc, 0xf9b9df6f, 0x8ebeeff9, 0x17b7be43, 0x60b08ed5,
   0xd6d6a3e8, 0xa1d1937e, 0x38d8c2c4, 0x4fdff252, 0xd1bb67f1, 0xa6bc5767, 0x3fb506dd, 0x48b2364b,
   0xd80d2bda, 0xaf0a1b4c, 0x36034af6, 0x41047a60, 0xdf60efc3, 0xa867df55, 0x316e8eef, 0x4669be79,
   0xcb61b38c, 0xbc66831a, 0x256fd2a0, 0x5268e236, 0xcc0c7795, 0xbb0b4703, 0x220216b9, 0x5505262f,
   0xc5ba3bbe, 0xb2bd0b28, 0x2bb45a92, 0x5cb36a04, 0xc2d7ffa7, 0xb5d0cf31, 0x2cd99e8b, 0x5bdeae1d,
   0x9b64c2b0, 0xec63f226, 0x756aa39c, 0x026d930a, 0x9c0906a9, 0xeb0e363f, 0x72076785, 0x05005713,
   0x95bf4a82, 0xe2b87a14, 0x7bb12bae, 0x0cb61b38, 0x92d28e9b, 0xe5d5be0d, 0x7cdcefb7, 0x0bdbdf21,
   0x86d3d2d4, 0xf1d4e242, 0x68ddb3f8, 0x1fda836e, 0x81be16cd, 0xf6b9265b, 0x6fb077e1, 0x18b74777,
   0x88085ae6, 0xff0f6a70, 0x66063bca, 0x11010b5c, 0x8f659eff, 0xf862ae69, 0x616bffd3, 0x166ccf45,
   0xa00ae278, 0xd70dd2ee, 0x4e048354, 0x3903b3c2, 0xa7672661, 0xd06016f7, 0x4969474d, 0x3e6e77db,
   0xaed16a4a, 0xd9d65adc, 0x40df0b66, 0x37d83bf0, 0xa9bcae53, 0xdebb9ec5, 0x47b2cf7f, 0x30b5ffe9,
   0xbdbdf21c, 0xcabac28a, 0x53b39330, 0x24b4a3a6, 0xbad03605, 0xcdd70693, 0x54de5729, 0x23d967bf,
   0xb3667a2e, 0xc4614ab8, 0x5d681b02, 0x2a6f2b94, 0xb40bbe37, 0xc30c8ea1, 0x5a05df1b, 0x2d02ef8d]

def crctabEntry (index : Byte) : BitVec 16 := BitVec.ofNat 16 (crctab.getD index.toNat 0)

def cr3tabEntry (index : Byte) : BitVec 32 := BitVec.ofNat 32 (cr3tab.getD index.toNat 0)

def updcrc16 {w : ℕ} (cp : Byte) (crc : BitVec w) : BitVec w :=
  TableCrc.topFirst crctabEntry cp crc

def updcrc32 (b : Byte) (c : BitVec 32) : BitVec 32 := TableCrc.bottomFirst cr3tabEntry b c

def crc16 {w : ℕ} (bytes : List Byte) (crc : BitVec w) : BitVec w :=
  bytes.foldl (fun crc b => updcrc16 b crc) crc

def crc32 (bytes : List Byte) (crc : BitVec 32) : BitVec 32 :=
  bytes.foldl (fun crc b => updcrc32 b crc) crc

/-! ## Sending -/

def isFlowControl (b : Byte) : Bool := b == 0o21 || b == 0o23 || b == 0o221 || b == 0o223

def zsendZdleChar (ch : Byte) : List Byte :=
  if ch == ZDLE || isFlowControl ch then [ZDLE, ch ^^^ 0o100] else [ch]

def zsendZdleChars (bytes : List Byte) : List Byte := bytes.flatMap zsendZdleChar

/-- The low bytes of `crc >> 8` and of `crc`. -/
def crcBytes16 {w : ℕ} (crc : BitVec w) : List Byte := [(crc >>> 8).setWidth 8, crc.setWidth 8]

/-- `updcrc16(0,updcrc16(0,crc))` -/
def flush16 {w : ℕ} (crc : BitVec w) : BitVec w := updcrc16 0 (updcrc16 0 crc)

def crcBytes32 (crc : BitVec 32) : List Byte := TableCrc.lowBytes 4 (~~~crc)

def checkBytes (txCRC : ℕ) (bytes : List Byte) : List Byte :=
  if txCRC = 0 then crcBytes16 (flush16 (crc16 bytes (0 : BitVec 32)))
  else crcBytes32 (crc32 bytes 0xffffffff)

def zsendBinHeader (txfcs32 : ℕ) (type : Byte) (hdr : List Byte) : List Byte :=
  let frame := if txfcs32 = 0 then ZBIN else if txfcs32 = 1 then ZBIN32 else ZBINR32
  [ZPAD, ZDLE] ++
    if txfcs32 ≤ 2 then
      frame :: zsendZdleChars (type :: hdr) ++ zsendZdleChars (checkBytes txfcs32 (type :: hdr))
    else []

def hexDigit (n : ℕ) : Byte := BitVec.ofNat 8 (if n < 10 then 0x30 + n else 0x61 + (n - 10))

def zsendAscii (c : Byte) : List Byte := [hexDigit (c.toNat / 16), hexDigit (c.toNat % 16)]

def zsendHexHeader (type : Byte) (hdr : List Byte) : List Byte :=
  let crc := flush16 (crc16 (type :: hdr) (0 : BitVec 16))
  [ZPAD, ZPAD, ZDLE, ZHEX] ++ (type :: hdr).flatMap zsendAscii ++
    (crcBytes16 crc).flatMap zsendAscii ++ [0o15, 0o212] ++
    if type ≠ ZFIN ∧ type ≠ ZACK then [XON] else []

def zputPos (pos : BitVec 32) : List Byte := TableCrc.lowBytes 4 pos

def zgetPos (rxHeader : List Byte) : BitVec 32 :=
  rxHeader.foldr (fun b pos => (pos <<< 8) ||| b.setWidth 32) 0

/-! ## Reading bytes -/

/-- A value that is not a byte: `res & ~0377`. -/
def isCode (res : ℤ) : Bool := res < 0 || 255 < res

/-- `again2` in `zread_byte`: what follows `ZDLE`, with `cans` more looks at a `CAN`. -/
def zreadEscape : ℕ → List Byte → Option (ℤ × List Byte)
  | _, [] => none
  | cans, res :: line =>
    if res = CAN then
      if 0 < cans then zreadEscape (cans - 1) line else some (GOTCAN, line)
    else if res ∈ frameEnds then some (gotFrameEnd res, line)
    else if res = ZRUB0 then some (0o177, line)
    else if res = ZRUB1 then some (0o377, line)
    else if isFlowControl res then zreadEscape 3 line
    else if res &&& 0o140 = 0o100 then some ((res ^^^ 0o100).toNat, line)
    else some (-RT_ERROR, line)

def zreadByte : List Byte → Option (ℤ × List Byte)
  | [] => none
  | res :: line =>
    if res &&& 0o140 ≠ 0 then some (res.toNat, line)
    else if res = ZDLE then zreadEscape 3 line
    else if isFlowControl res then zreadByte line
    else some (res.toNat, line)

def zxorRead : List Byte → Option (Byte × List Byte)
  | [] => none
  | res :: line =>
    if res &&& 0o177 = XON ∨ res &&& 0o177 = XOFF then zxorRead line
    else some (res &&& 0o177, line)

def hexValue (res : Byte) : ℤ :=
  let n : ℤ := res.toNat - 0x30
  if 9 < n then n - 39 else n

def zgetHex (line : List Byte) : Option (ℤ × List Byte) := do
  let (high, line) ← zxorRead line
  if hexValue high < 0 ∨ 15 < hexValue high then some (-RT_ERROR, line)
  else
    let (low, line) ← zxorRead line
    if hexValue low < 0 ∨ 15 < hexValue low then some (-RT_ERROR, line)
    else some (hexValue low + 16 * hexValue high, line)

/-! ## Headers -/

/-- What the receiver reads and the globals it sets; `hdr` is what was stored through `hdr`. -/
structure ZReceiver where
  line : List Byte
  rxCRC : ℕ
  rxframeind : Byte
  headerType : Byte
  hdr : List Byte

/-- Read `n` bytes one after the other, up to the first result that is not a byte. -/
def readBytes (read : List Byte → Option (ℤ × List Byte)) :
    ℕ → List Byte → Option (List Byte × Option ℤ × List Byte)
  | 0, line => some ([], none, line)
  | n + 1, line =>
    (read line).bind fun next =>
      if isCode next.1 then some ([], some next.1, next.2)
      else (readBytes read n next.2).map fun rest =>
        (BitVec.ofInt 8 next.1 :: rest.1, rest.2)

def charValue (charSigned : Bool) (c : Byte) : ℤ := if charSigned then c.toInt else c.toNat

/-- The receivers of a header: the type, four bytes and the check bytes.  The result is the
code with which they return, unless the header is correct. -/
def receiveHeader (read : List Byte → Option (ℤ × List Byte)) (crcBytes : ℕ)
    (correct : List Byte → Bool) (s : ZReceiver) : Option (Option ℤ × ZReceiver) :=
  (readBytes read (5 + crcBytes) s.line).map fun (bytes, stop, line) =>
    (stop.or (if correct bytes then none else some (-RT_ERROR)),
      { s with
        line := line
        headerType := bytes.headD s.headerType
        hdr := (bytes.drop 1).take 4 ++ s.hdr.drop ((bytes.drop 1).take 4).length })

def headerResult (charSigned : Bool) (result : Option ℤ × ZReceiver) : ℤ × ZReceiver :=
  (result.1.getD (charValue charSigned result.2.headerType), result.2)

def zgetBinHeader (charSigned : Bool) (s : ZReceiver) : Option (ℤ × ZReceiver) :=
  (receiveHeader zreadByte 2 (fun bytes => crc16 bytes (0 : BitVec 16) == 0) s).map
    (headerResult charSigned)

def zgetBinFcs (charSigned : Bool) (s : ZReceiver) : Option (ℤ × ZReceiver) :=
  (receiveHeader zreadByte 4 (fun bytes => crc32 bytes 0xFFFFFFFF == 0xDEBB20E3) s).map
    (headerResult charSigned)

def zgetHexHeader (charSigned : Bool) (s : ZReceiver) : Option (ℤ × ZReceiver) :=
  (receiveHeader zgetHex 2 (fun bytes => crc16 bytes (0 : BitVec 16) == 0) s).bind
    fun result =>
      match result.1, result.2.line with
      | some res, _ => some (res, result.2)
      | none, _ :: _ :: line =>
        some (headerResult charSigned (none, { result.2 with line := line }))
      | none, _ => none

structure Hunt where
  prevChar : Byte
  bit : BitVec 32
  getCan : BitVec 16
  stepOut : Bool

/-- `start_again`: the code with which `zget_header` gives up, or the variables. -/
def Hunt.startAgain (h : Hunt) : Except ℤ Hunt :=
  if h.bit - 1 = 0 then .error GCOUNT else .ok { h with bit := h.bit - 1, getCan := 0 }

def Hunt.countCan (h : Hunt) : Except ℤ Hunt :=
  if 5 < h.getCan + 1 then .error ZCAN else .ok { h with getCan := h.getCan + 1 }

def Hunt.switch (c : Byte) (h : Hunt) : Except ℤ Hunt :=
  if c = 0o21 ∨ c = 0o221 then
    if h.prevChar = CAN then .ok h
    else if h.prevChar = ZCRCW then h.startAgain
    else .ok h
  else if c = ZCRCW then if h.prevChar = CAN then h.startAgain else .ok h
  else if c = CAN then h.countCan
  else if c = ZPAD then
    if h.prevChar = CAN then .ok h
    else if h.prevChar = ZCRCW then h.startAgain
    else .ok { h with stepOut := true }
  else if h.prevChar = CAN then .ok h
  else h.startAgain

/-- The loops of `zget_header`, at most `n` rounds.  `pads` tells that the first loop has been
left; the jumps back into its `switch` keep `step_out` as it is. -/
def zgetHeaderLoop (charSigned : Bool) : ℕ → Bool → Hunt → ZReceiver → Option (ℤ × ZReceiver)
  | 0, _, _, _ => none
  | n + 1, pads, h, s =>
    let behindSwitch := fun (c : Byte) (result : Except ℤ Hunt) (s : ZReceiver) =>
      match result with
      | .error res => some (res, s)
      | .ok h =>
        if h.stepOut then
          zgetHeaderLoop charSigned n true { h with prevChar := c, stepOut := false, getCan := 0 } s
        else zgetHeaderLoop charSigned n false { h with prevChar := c } s
    if pads then
      (zxorRead s.line).bind fun (c, line) =>
        let s := { s with line := line }
        if c = ZPAD then zgetHeaderLoop charSigned n true h s
        else if c = ZDLE then
          (zxorRead s.line).bind fun (c, line) =>
            let s := { s with line := line, rxframeind := c }
            if c = ZBIN32 then zgetBinFcs charSigned { s with rxCRC := 1 }
            else if c = ZBINR32 then zgetBinFcs charSigned { s with rxCRC := 2 }
            else if c = ZBIN then zgetBinHeader charSigned { s with rxCRC := 0 }
            else if c = ZHEX then zgetHexHeader charSigned { s with rxCRC := 0 }
            else if c = CAN then behindSwitch c { h with stepOut := true }.countCan s
            else behindSwitch c { h with stepOut := true }.startAgain s
        else behindSwitch c h.startAgain s
    else match s.line with
      | [] => none
      | c :: line => behindSwitch c (h.switch c) { s with line := line }

/-- `zget_header`; `getCan` is what the uninitialised `get_can` holds at the start. -/
def zgetHeader (charSigned : Bool) (getCan : BitVec 16) (s : ZReceiver) : Option (ℤ × ZReceiver) :=
  zgetHeaderLoop charSigned (s.line.length + 1) false
    { prevChar := 0xff, bit := BITRATE, getCan := getCan, stepOut := false }
    { s with rxframeind := 0, headerType := 0 }

/-! ## Data -/

def zsendFrameEnd (frameend : Byte) (check : List Byte) : List Byte :=
  [ZDLE, frameend] ++ zsendZdleChars check ++ if frameend = ZCRCW then [XON] else []

def zsendBinData (txCRC : ℕ) (block : List Byte) (frameend : Byte) : List Byte :=
  zsendZdleChars block ++ zsendFrameEnd frameend (checkBytes txCRC (block ++ [frameend]))

structure RunState where
  i : ℕ
  tmp : Byte
  /-- The bytes sent so far, before they are escaped. -/
  sent : List Byte
  /-- The positions in the block read so far. -/
  reads : List ℕ

def sendRun (i : ℕ) (tmp : Byte) : List Byte :=
  if tmp = 0o40 ∧ i < 34 then [ZRESC, BitVec.ofNat 8 (i + 0o36)]
  else [ZRESC, BitVec.ofNat 8 (i + 0o101), tmp]

/-- One round of the encoder on the byte at `pos`, with `left` bytes behind it.  A pair of
`ZRESC` falls through all branches. -/
def RunState.round (buf : ℕ → Byte) (pos left : ℕ) (s : RunState) : RunState :=
  let c := buf pos
  let s := { s with reads := s.reads ++ [pos] }
  if c = s.tmp ∧ s.i < 126 ∧ 0 < left then { s with i := s.i + 1 }
  else if s.i = 0 then
    { s with
      sent := s.sent ++ if s.tmp = ZRESC then [s.tmp, 0o100] else [s.tmp]
      tmp := c }
  else if s.i = 1 then
    if s.tmp ≠ ZRESC then { s with sent := s.sent ++ [s.tmp, s.tmp], i := 0, tmp := c }
    else s
  else { s with sent := s.sent ++ sendRun s.i s.tmp, i := 0, tmp := c }

def runRounds (buf : ℕ → Byte) : ℕ → ℕ → RunState → RunState
  | _, 0, s => s
  | pos, len + 1, s => runRounds buf (pos + 1) len (s.round buf pos len)

/-- The encoder of `zsend_bin_data` with `TxCRC` 2, for the `len` bytes at `buf`. -/
def runEncode (buf : ℕ → Byte) (len : ℕ) : RunState :=
  runRounds buf 1 len { i := 0, tmp := buf 0, sent := [], reads := [0] }

def zsendBinDataRle (buf : ℕ → Byte) (len : ℕ) (frameend : Byte) : List Byte :=
  let sent := (runEncode buf len).sent
  zsendZdleChars sent ++ zsendFrameEnd frameend (checkBytes 2 (sent ++ [frameend]))

structure DataState (w : ℕ) where
  /-- The bytes stored in the buffer. -/
  buf : List Byte
  crc : BitVec w
  crcCnt : ℕ
  /-- `c`, once `flag` is set. -/
  frameEnd : Option ℤ

structure Received where
  result : ℤ
  buf : List Byte
  rxcount : ℕ
  line : List Byte
  deriving DecidableEq

def DataState.finish {w : ℕ} (s : DataState w) (result : ℤ) (line : List Byte) : Received where
  result := result
  buf := s.buf
  rxcount := s.buf.length % 65536
  line := line

def DataState.code {w : ℕ} (upd : Byte → BitVec w → BitVec w) (res : ℤ) (s : DataState w) :
    Except ℤ (DataState w) :=
  if res ∈ frameEnds.map gotFrameEnd then
    .ok { s with crc := upd (BitVec.ofInt 8 res) s.crc, frameEnd := some res }
  else if res = GOTCAN then .error ZCAN
  else .error res

/-- A check byte behind the frame end `c`: the last of them ends the subpacket. -/
def DataState.check {w : ℕ} (upd : Byte → BitVec w → BitVec w) (crcBytes : ℕ) (mask : BitVec w)
    (res : Byte) (c : ℤ) (s : DataState w) : Except ℤ (DataState w) :=
  let s := { s with crc := upd res s.crc, crcCnt := s.crcCnt + 1 }
  if s.crcCnt < crcBytes then .ok s
  else if s.crc &&& mask ≠ 0 then .error (-RT_ERROR)
  else .error c

def DataState.byte {w : ℕ} (upd : Byte → BitVec w → BitVec w) (crcBytes : ℕ) (mask : BitVec w)
    (res : Byte) (s : DataState w) : Except ℤ (DataState w) :=
  match s.frameEnd with
  | some c => s.check upd crcBytes mask res c
  | none => .ok { s with buf := s.buf ++ [res], crc := upd res s.crc }

/-- The loop of `zrec_data16` and `zrec_data32`: `room` tells whether it goes on with so many
bytes stored.  Each of the at most `n` rounds reads from the line. -/
def zrecLoop {w : ℕ} (upd : Byte → BitVec w → BitVec w) (crcBytes : ℕ) (mask : BitVec w)
    (room : ℕ → Bool) : ℕ → DataState w → List Byte → Option Received
  | 0, _, _ => none
  | n + 1, s, line =>
    if room s.buf.length then
      (zreadByte line).bind fun (res, line) =>
        match if isCode res then s.code upd res
          else s.byte upd crcBytes mask (BitVec.ofInt 8 res) with
        | .ok s => zrecLoop upd crcBytes mask room n s line
        | .error result => some (s.finish result line)
    else some (s.finish (-RT_ERROR) line)

def zrecData16 (len : ℕ) (line : List Byte) : Option Received :=
  zrecLoop updcrc16 2 (0xffff : BitVec 16) (fun stored => stored ≤ len) (line.length + 1)
    { buf := [], crc := 0, crcCnt := 0, frameEnd := none } line

def int16 (value : ℤ) : ℤ := (BitVec.ofInt 16 value).toInt

/-- `zrec_data32`; `p` is where its uninitialised pointer points to, seen from the buffer. -/
def zrecData32 (p len : ℤ) (line : List Byte) : Option Received :=
  zrecLoop updcrc32 4 0xDEBB20E3 (fun stored => (stored : ℤ) ≤ p + len) (line.length + 1)
    { buf := [], crc := 0xffffffff, crcCnt := 0, frameEnd := none } line

/-- `while (--res >= 0)`: the bytes below `res` are stored, from the largest on. -/
def descending (res : Byte) : List Byte := (List.range res.toNat).reverse.map (BitVec.ofNat 8)

/-- `spaces` in `zrec_data32r`: the new `c` and the buffer, unless it ends with an error. -/
def runSpaces (len c : ℤ) (res : Byte) (buf : List Byte) : Option (ℤ × List Byte) :=
  if len < buf.length + c then none else some (0, buf ++ descending res)

def runDecode (len c : ℤ) (res : Byte) (buf : List Byte) : Option (ℤ × List Byte) :=
  if c = 0 then
    if res = ZRESC then some (-1, buf) else some (0, buf ++ [res])
  else if c = -1 then
    if 0o40 ≤ res ∧ res < 0o100 then runSpaces len (res.toNat - 0o35) 0o40 buf
    else if res = 0o100 then some (0, buf ++ [ZRESC])
    else some (res.toNat, buf)
  else if int16 (c - 0o100) < 1 then none
  else runSpaces len (int16 (c - 0o100)) res buf

def zrecRunLoop (len : ℤ) : ℕ → ℤ → DataState 32 → List Byte → Option Received
  | 0, _, _, _ => none
  | n + 1, c, s, line =>
    if (s.buf.length : ℤ) ≤ len then
      (zreadByte line).bind fun (res, line) =>
        let b := BitVec.ofInt 8 res
        let next := if isCode res then (s.code updcrc32 res).map fun s => (res, s)
          else match s.frameEnd with
            | some end' => (s.check updcrc32 4 0xDEBB20E3 b end').map fun s => (c, s)
            | none =>
              match runDecode len c b s.buf with
              | some (c, buf) => .ok (c, { s with buf := buf, crc := updcrc32 b s.crc })
              | none => .error (-RT_ERROR)
        match next with
        | .ok (c, s) => zrecRunLoop len n c s line
        | .error result => some (s.finish result line)
    else some (s.finish (-RT_ERROR) line)

def zrecData32r (c len : ℤ) (line : List Byte) : Option Received :=
  zrecRunLoop len (line.length + 1) c
    { buf := [], crc := 0xffffffff, crcCnt := 0, frameEnd := none } line

/-- `zget_data` for a value of `RxCRC`; `p` and `c` are the uninitialised variables. -/
def zgetData (rxCRC : ℕ) (p c : ℤ) (len : ℕ) (line : List Byte) : Option Received :=
  if rxCRC = 0 then zrecData16 len line
  else if rxCRC = 1 then zrecData32 p (int16 len) line
  else if rxCRC = 2 then zrecData32r c (int16 len) line
  else some { result := -RT_ERROR, buf := [], rxcount := 0, line := line }

end RtThread.Zmodem
