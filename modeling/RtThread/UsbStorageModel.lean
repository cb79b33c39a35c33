import RtThread.GuardedRun
import RtThread.KeyedList
import RtThread.WordArith
import Mathlib.Computability.StateTransition

/-!
# The USB mass storage function

Two endpoint handlers share one record: `_ep_out_handler` takes the command wrappers and the data
of a WRITE, `_ep_in_handler` goes on after a transfer to the host.  Every I/O request transfers
all its bytes and then calls the handler of its endpoint once; a request on a stalled endpoint
waits until the host has cleared the stall.  Reads and writes of the disk succeed.
-/

namespace RtThread.UsbStorage

open Word

def SIZEOF_CSW : ℕ := 0x0d
def SIZEOF_CBW : ℕ := 0x1f
def SIZEOF_INQUIRY_CMD : ℕ := 0x24
def SIZEOF_MODE_SENSE_6 : ℕ := 0x4
def SIZEOF_READ_CAPACITIES : ℕ := 0xc
def SIZEOF_READ_CAPACITY : ℕ := 0x8
def SIZEOF_REQUEST_SENSE : ℕ := 0x12

def SCSI_TEST_UNIT_READY : ℕ := 0x00
def SCSI_REQUEST_SENSE : ℕ := 0x03
def SCSI_INQUIRY_CMD : ℕ := 0x12
def SCSI_ALLOW_REMOVAL : ℕ := 0x1e
def SCSI_MODE_SENSE_6 : ℕ := 0x1a
def SCSI_START_STOP : ℕ := 0x1b
def SCSI_READ_CAPACITIES : ℕ := 0x23
def SCSI_READ_CAPACITY : ℕ := 0x25
def SCSI_READ_10 : ℕ := 0x28
def SCSI_WRITE_10 : ℕ := 0x2a
def SCSI_VERIFY_10 : ℕ := 0x2f

def CBW_SIGNATURE : ℕ := 0x43425355
def CSW_SIGNATURE : ℕ := 0x53425355

inductive Stat where
  | cbw
  | cmd
  | csw
  | receive
  | send
  deriving DecidableEq

inductive CbSizeType where
  | fixed
  | count
  | blockCount
  deriving DecidableEq

inductive CbDir where
  | dirIn
  | dirOut
  | dirNone
  deriving DecidableEq

inductive CbwHandler where
  | testUnitReady
  | requestSense
  | inquiryCmd
  | allowRemoval
  | modeSense6
  | startStop
  | readCapacities
  | readCapacity
  | read10
  | write10
  | verify10
  deriving DecidableEq

structure ScsiCmd where
  cmd : ℕ
  handler : CbwHandler
  cmdLen : ℕ
  type : CbSizeType
  dataSize : ℕ
  dir : CbDir
  deriving DecidableEq

def cmdData : List ScsiCmd :=
  [⟨SCSI_TEST_UNIT_READY, .testUnitReady, 6, .fixed, 0, .dirNone⟩,
    ⟨SCSI_REQUEST_SENSE, .requestSense, 6, .count, 0, .dirIn⟩,
    ⟨SCSI_INQUIRY_CMD, .inquiryCmd, 6, .count, 0, .dirIn⟩,
    ⟨SCSI_ALLOW_REMOVAL, .allowRemoval, 6, .fixed, 0, .dirNone⟩,
    ⟨SCSI_MODE_SENSE_6, .modeSense6, 6, .count, 0, .dirIn⟩,
    ⟨SCSI_START_STOP, .startStop, 6, .fixed, 0, .dirNone⟩,
    ⟨SCSI_READ_CAPACITIES, .readCapacities, 10, .count, 0, .dirNone⟩,
    ⟨SCSI_READ_CAPACITY, .readCapacity, 10, .fixed, 8, .dirIn⟩,
    ⟨SCSI_READ_10, .read10, 10, .blockCount, 0, .dirIn⟩,
    ⟨SCSI_WRITE_10, .write10, 10, .blockCount, 0, .dirOut⟩,
    ⟨SCSI_VERIFY_10, .verify10, 10, .fixed, 0, .dirNone⟩]

abbrev Buffer := ℕ → UInt8

/-- `struct rt_device_blk_geometry`; a command wrapper fits into a sector. -/
structure BlkGeometry where
  sectorCount : ℕ
  bytesPerSector : ℕ
  sectorCount_lt : sectorCount < 4294967296
  bytesPerSector_lt : bytesPerSector < 4294967296
  cbw_le : SIZEOF_CBW ≤ bytesPerSector

/-- `struct ustorage_cbw` -/
@[ext] structure Cbw where
  signature : ℕ
  tag : ℕ
  xferLen : ℕ
  dflags : UInt8
  lun : UInt8
  cbLen : ℕ
  cb : Fin 16 → UInt8

/-- `struct ustorage_csw`; `data_reside` is signed, and kept here as the word it is stored in. -/
@[ext] structure Csw where
  signature : ℕ
  tag : ℕ
  dataReside : ℕ
  status : ℕ
  deriving DecidableEq

inductive InTransfer where
  | data (bytes : List UInt8)
  | status (csw : Csw)
  deriving DecidableEq

/-- An endpoint with its request, the requests which wait for the end of a stall and the ones
which have been started. -/
structure Uep (τ : Type) where
  buffer : Buffer
  requestSize : ℕ
  stalled : Bool
  requestList : List τ
  started : List τ

/-- `struct mstorage` with the command table.  `halted` says that a call does not return: an
assertion has failed, or an answer does not fit into its buffer.  The field `size` is only
printed. -/
structure Mstorage where
  cswResponse : Csw
  epIn : Uep InTransfer
  epOut : Uep ℕ
  status : Stat
  cbDataSize : ℕ
  disk : ℕ → Buffer
  block : ℕ
  count : ℤ
  processing : Option ScsiCmd
  cmdData : List ScsiCmd
  halted : Bool

def word16 (high low : UInt8) : ℕ := high.toNat * 256 + low.toNat

def wordAt (buf : Buffer) (offset : ℕ) : ℕ :=
  word16 (buf (offset + 3)) (buf (offset + 2)) * 65536 + word16 (buf (offset + 1)) (buf offset)

def cbwOf (buf : Buffer) : Cbw where
  signature := wordAt buf 0
  tag := wordAt buf 4
  xferLen := wordAt buf 8
  dflags := buf 12
  lun := buf 13
  cbLen := (buf 14).toNat
  cb i := buf (15 + i)

def Cbw.dirIn (cbw : Cbw) : Bool := cbw.dflags &&& 0x80 ≠ 0

def store (bytes : List UInt8) (buf : Buffer) : Buffer := fun i => bytes.getD i (buf i)

def bytesOf (size : ℕ) (buf : Buffer) : List UInt8 := (List.range size).map buf

def byteOf (x : ℕ) : UInt8 := UInt8.ofNat (x % 256)

section Function

variable (geo : BlkGeometry)

def deviceRead (disk : ℕ → Buffer) (block : ℕ) (buf : Buffer) : Buffer :=
  fun i => if i < geo.bytesPerSector then disk block i else buf i

def deviceWrite (disk : ℕ → Buffer) (block : ℕ) (buf : Buffer) : ℕ → Buffer :=
  Function.update disk block fun i => if i < geo.bytesPerSector then buf i else disk block i

def Uep.ioRequest {τ : Type} (ep : Uep τ) (size : ℕ) (transfer : τ) : Uep τ :=
  if ep.stalled then
    { ep with requestSize := size, requestList := ep.requestList ++ [transfer] }
  else { ep with requestSize := size, started := ep.started ++ [transfer] }

def Uep.setStall {τ : Type} (ep : Uep τ) : Uep τ := { ep with stalled := true }

def Uep.clearStall {τ : Type} (ep : Uep τ) : Uep τ :=
  { ep with stalled := false, requestList := [], started := ep.started ++ ep.requestList }

def writeRequest (s : Mstorage) (size : ℕ) : Mstorage :=
  { s with epIn := s.epIn.ioRequest size (.data (bytesOf size s.epIn.buffer)) }

def readRequest (s : Mstorage) (size : ℕ) : Mstorage :=
  { s with epOut := s.epOut.ioRequest size size }

def sendStatus (s : Mstorage) : Mstorage :=
  { s with epIn := s.epIn.ioRequest SIZEOF_CSW (.status s.cswResponse), status := .csw }

def noData (s : Mstorage) : Mstorage × ℕ :=
  ({ s with cswResponse := { s.cswResponse with status := 0 } }, 0)

def testUnitReady (s : Mstorage) : Mstorage × ℕ := noData s

def allowRemoval (s : Mstorage) : Mstorage × ℕ := noData s

def startStop (s : Mstorage) : Mstorage × ℕ := noData s

def verify10 (s : Mstorage) : Mstorage × ℕ := noData s

/-- A command which sends an answer of `size` bytes, as far as they are asked for. -/
def answer (s : Mstorage) (size : ℕ) (fill : Buffer → Buffer) : Mstorage × ℕ :=
  if geo.bytesPerSector < size then ({ s with halted := true }, size)
  else
    let len := min s.cbDataSize size
    let s := { s with cbDataSize := len, epIn := { s.epIn with buffer := fill s.epIn.buffer } }
    ({ writeRequest s len with status := .cmd }, len)

def inquiryBytes : List UInt8 :=
  [0x00, 0x80, 0x00, 0x00, 31, 0x00, 0x00, 0x00] ++
    [0x52, 0x54, 0x54, 0x20, 0x20, 0x20, 0x20, 0x20] ++
    [0x55, 0x53, 0x42, 0x20, 0x44, 0x69, 0x73, 0x6b] ++ List.replicate 12 0x20

def inquiryCmd (s : Mstorage) : Mstorage × ℕ :=
  answer geo s SIZEOF_INQUIRY_CMD (store inquiryBytes)

/-- `struct request_sense_data`; the reserved fields are left as they are. -/
def senseData (buf : Buffer) : Buffer := fun i =>
  match i with
  | 0 => 0x70
  | 2 => (buf 2 &&& 0xf0) ||| 2
  | 3 | 4 | 5 | 6 => 0
  | 7 => 0x0a
  | 12 => 0x3a
  | 13 => 0
  | _ => buf i

def requestSense (s : Mstorage) : Mstorage × ℕ :=
  answer geo s SIZEOF_REQUEST_SENSE senseData

def modeSense6 (s : Mstorage) : Mstorage × ℕ :=
  answer geo s SIZEOF_MODE_SENSE_6 (store [3, 0, 0, 0])

def readCapacities (s : Mstorage) : Mstorage × ℕ :=
  answer geo s SIZEOF_READ_CAPACITIES (store
    [0x00, 0x00, 0x00, 0x08, byteOf (geo.sectorCount >>> 24), byteOf (geo.sectorCount >>> 16),
      byteOf (geo.sectorCount >>> 8), byteOf geo.sectorCount, 0x02,
      byteOf (geo.bytesPerSector >>> 16), byteOf (geo.bytesPerSector >>> 8),
      byteOf geo.bytesPerSector])

def readCapacity (s : Mstorage) : Mstorage × ℕ :=
  answer geo s SIZEOF_READ_CAPACITY (store
    [byteOf (geo.sectorCount >>> 24), byteOf (geo.sectorCount >>> 16),
      byteOf (geo.sectorCount >>> 8), byteOf geo.sectorCount, 0x00,
      byteOf (geo.bytesPerSector >>> 16), byteOf (geo.bytesPerSector >>> 8),
      byteOf geo.bytesPerSector])

def Cbw.block (cbw : Cbw) : ℕ :=
  word16 (cbw.cb 2) (cbw.cb 3) * 65536 + word16 (cbw.cb 4) (cbw.cb 5)

def Cbw.count (cbw : Cbw) : ℕ := word16 (cbw.cb 7) (cbw.cb 8)

def read10 (s : Mstorage) (cbw : Cbw) : Mstorage × ℕ :=
  let s := { s with block := cbw.block, count := cbw.count }
  if cbw.count < geo.sectorCount then
    let s :=
      { s with
        cswResponse := { s.cswResponse with dataReside := s.cbDataSize }
        epIn := { s.epIn with buffer := deviceRead geo s.disk s.block s.epIn.buffer } }
    ({ writeRequest s geo.bytesPerSector with status := .send }, geo.bytesPerSector)
  else ({ s with halted := true }, geo.bytesPerSector)

def write10 (s : Mstorage) (cbw : Cbw) : Mstorage × ℕ :=
  let s :=
    { s with
      block := cbw.block
      count := cbw.count
      cswResponse := { s.cswResponse with dataReside := s.cbDataSize } }
  ({ readRequest s geo.bytesPerSector with status := .receive }, geo.bytesPerSector)

def settleResidue (s : Mstorage) : Mstorage :=
  let settled := { s with cswResponse := { s.cswResponse with dataReside := 0 } }
  if s.cswResponse.dataReside = 0xFF then settled
  else if sub32 s.cswResponse.dataReside s.epIn.requestSize ≠ 0 then
    if s.processing.map ScsiCmd.dir = some .dirOut then
      { settled with epOut := s.epOut.setStall }
    else { settled with epIn := s.epIn.setStall }
  else settled

def epInHandler (s : Mstorage) : Mstorage :=
  match s.status with
  | .csw =>
    if s.epIn.requestSize ≠ SIZEOF_CSW then { s with epIn := s.epIn.setStall }
    else { readRequest s SIZEOF_CBW with status := .cbw }
  | .cmd => sendStatus (settleResidue s)
  | .send =>
    let reside := sub32 s.cswResponse.dataReside s.epIn.requestSize
    let s :=
      { s with
        cswResponse := { s.cswResponse with dataReside := reside }
        count := s.count - 1
        block := add32 s.block 1 }
    -- `data_reside > 0` compares signed
    if s.count > 0 ∧ 0 < reside ∧ reside < 2147483648 then
      writeRequest
        { s with epIn := { s.epIn with buffer := deviceRead geo s.disk s.block s.epIn.buffer } }
        geo.bytesPerSector
    else sendStatus s
  | .cbw | .receive => s

def findCbwCommand (s : Mstorage) (cmd : ℕ) : Option ScsiCmd :=
  s.cmdData.find? fun c => c.cmd = cmd

def cbLenCalc (s : Mstorage) (cmd : ScsiCmd) (cbw : Cbw) : Mstorage :=
  if cmd.cmdLen = 6 then
    match cmd.type with
    | .count => { s with cbDataSize := (cbw.cb 4).toNat }
    | .blockCount => { s with cbDataSize := mul32 (cbw.cb 4).toNat geo.bytesPerSector }
    | .fixed => { s with cbDataSize := cmd.dataSize }
  else if cmd.cmdLen = 10 then
    match cmd.type with
    | .count => { s with cbDataSize := cbw.count }
    | .blockCount => { s with cbDataSize := mul32 cbw.count geo.bytesPerSector }
    | .fixed => { s with cbDataSize := cmd.dataSize }
  else s

def noteLength (s : Mstorage) (cmd : ScsiCmd) (cbw : Cbw) : Mstorage :=
  if cmd.cmdLen ≠ cbw.cbLen then
    { s with cmdData := replaceKeyed ScsiCmd.cmd { cmd with cmdLen := cbw.cbLen } s.cmdData }
  else s

def cbwVerify (s : Mstorage) (cmd : ScsiCmd) (cbw : Cbw) : Mstorage × Bool :=
  let s := noteLength s cmd cbw
  if cbw.xferLen > 0 ∧ s.cbDataSize = 0 then (s, false)
  else if cbw.xferLen = 0 ∧ s.cbDataSize > 0 then (s, false)
  else if cbw.dirIn = true ∧ cmd.dir = .dirOut ∨ cbw.dirIn = false ∧ cmd.dir = .dirIn then
    (s, false)
  else if cbw.xferLen > s.cbDataSize then (s, false)
  else if cbw.xferLen < s.cbDataSize then
    ({ s with
        cbDataSize := cbw.xferLen
        cswResponse := { s.cswResponse with status := 1 } }, true)
  else (s, true)

def cbwHandler (s : Mstorage) (cmd : ScsiCmd) (cbw : Cbw) : Mstorage × ℕ :=
  let s := { s with processing := some cmd }
  match cmd.handler with
  | .testUnitReady => testUnitReady s
  | .requestSense => requestSense geo s
  | .inquiryCmd => inquiryCmd geo s
  | .allowRemoval => allowRemoval s
  | .modeSense6 => modeSense6 geo s
  | .startStop => startStop s
  | .readCapacities => readCapacities geo s
  | .readCapacity => readCapacity geo s
  | .read10 => read10 geo s cbw
  | .write10 => write10 geo s cbw
  | .verify10 => verify10 s

def refuse (s : Mstorage) (cbw : Cbw) : Mstorage :=
  let s :=
    if s.cswResponse.dataReside ≠ 0 then
      if cbw.dirIn then { s with epIn := s.epIn.setStall }
      else { s with epIn := s.epIn.setStall, epOut := s.epOut.setStall }
    else s
  sendStatus { s with cswResponse := { s.cswResponse with status := 1 } }

/-- `_ep_out_handler` for a command wrapper with the right size and signature. -/
def takeCommand (s : Mstorage) (cbw : Cbw) : Mstorage :=
  let s := { s with cswResponse := ⟨CSW_SIGNATURE, cbw.tag, cbw.xferLen, 0⟩ }
  match findCbwCommand s (cbw.cb 0).toNat with
  | none => refuse s cbw
  | some cmd =>
    let (s, verified) := cbwVerify (cbLenCalc geo s cmd cbw) cmd cbw
    if verified then
      let (s, len) := cbwHandler geo s cmd cbw
      if len = 0 then sendStatus s else s
    else refuse s cbw

def epOutHandler (s : Mstorage) (size : ℕ) : Mstorage :=
  let cbw := cbwOf s.epOut.buffer
  match s.status with
  | .cbw =>
    if cbw.signature ≠ CBW_SIGNATURE ∨ size ≠ SIZEOF_CBW then refuse s cbw
    else takeCommand geo s cbw
  | .receive =>
    let reside := sub32 s.cswResponse.dataReside size
    let s :=
      { s with
        cswResponse := { s.cswResponse with dataReside := reside }
        disk := deviceWrite geo s.disk s.block s.epOut.buffer }
    if reside ≠ 0 then
      { readRequest s geo.bytesPerSector with block := add32 s.block 1 }
    else sendStatus s
  | .cmd | .csw | .send => refuse s cbw

end Function

/-- The function behind `rt_usbd_function_mstorage_create` and `_function_enable`, which has
opened the disk and got the two buffers. -/
def functionEnable (disk : ℕ → Buffer) (inBuf outBuf : Buffer) : Mstorage :=
  readRequest
    { cswResponse := ⟨0, 0, 0, 0⟩
      epIn := ⟨inBuf, 0, false, [], []⟩
      epOut := ⟨outBuf, 0, false, [], []⟩
      status := .cbw
      cbDataSize := 0
      disk := disk
      block := 0
      count := 0
      processing := none
      cmdData := cmdData
      halted := false }
    SIZEOF_CBW

structure Session where
  func : Mstorage
  sent : List UInt8
  accepted : ℕ
  csws : List Csw

def receivedCbw (bytes : List UInt8) : Cbw := cbwOf (store bytes fun _ => 0)

def commandOf (x : Session) (bytes : List UInt8) : Option ScsiCmd :=
  findCbwCommand x.func ((receivedCbw bytes).cb 0).toNat

def askedSize (geo : BlkGeometry) (cmd : ScsiCmd) (cbw : Cbw) : ℕ :=
  match cmd.type with
  | .fixed => cmd.dataSize
  | .count => if cmd.cmdLen = 6 then (cbw.cb 4).toNat else cbw.count
  | .blockCount => cbw.count * geo.bytesPerSector

section Turns

variable (geo : BlkGeometry) (host : Buffer)

def sendDone (x : Session) (transfer : InTransfer) (rest : List InTransfer) : Session :=
  let func := epInHandler geo { x.func with epIn := { x.func.epIn with started := rest } }
  match transfer with
  | .data bytes => { x with func := func, sent := x.sent ++ bytes }
  | .status csw => { x with func := func, csws := x.csws ++ [csw] }

def receive (func : Mstorage) (bytes : List UInt8) (rest : List ℕ) : Mstorage :=
  epOutHandler geo
    { func with
      epOut := { func.epOut with buffer := store bytes func.epOut.buffer, started := rest } }
    bytes.length

def acceptData (x : Session) (size : ℕ) (rest : List ℕ) : Session :=
  { x with
    func := receive geo x.func (bytesOf size fun i => host (x.accepted + i)) rest
    accepted := x.accepted + size }

/-- What happens next on the endpoints; `none` when a call does not return, or when nothing is
left but to wait for the next command.  The data for a WRITE are the bytes of `host`. -/
def turn (x : Session) : Option Session :=
  if x.func.halted then none
  else if x.func.epIn.stalled then
    some { x with func := { x.func with epIn := x.func.epIn.clearStall } }
  else
    match x.func.epIn.started with
    | transfer :: rest => some (sendDone geo x transfer rest)
    | [] =>
      if x.func.epOut.stalled then
        some { x with func := { x.func with epOut := x.func.epOut.clearStall } }
      else if x.func.status = .receive then
        match x.func.epOut.started with
        | size :: rest => some (acceptData geo host x size rest)
        | [] => none
      else none

def command (bytes : List UInt8) (x : Session) : Session :=
  ⟨receive geo x.func bytes x.func.epOut.started.tail, [], 0, []⟩

structure Waiting (x : Session) : Prop where
  halted : x.func.halted = false
  status : x.func.status = .cbw
  in_stalled : x.func.epIn.stalled = false
  in_list : x.func.epIn.requestList = []
  in_started : x.func.epIn.started = []
  out_stalled : x.func.epOut.stalled = false
  out_list : x.func.epOut.requestList = []
  out_started : x.func.epOut.started = [SIZEOF_CBW]

/-- The transfers of the endpoints lead back to the waiting state. -/
def Served (x y : Session) : Prop :=
  StateTransition.Reaches (turn geo host) x y ∧ Waiting y

end Turns

def enabled (disk : ℕ → Buffer) (inBuf outBuf : Buffer) : Session :=
  ⟨functionEnable disk inBuf outBuf, [], 0, []⟩

theorem enabled_waiting (disk : ℕ → Buffer) (inBuf outBuf : Buffer) :
    Waiting (enabled disk inBuf outBuf) :=
  ⟨rfl, rfl, rfl, rfl, rfl, rfl, rfl, rfl⟩

end RtThread.UsbStorage
