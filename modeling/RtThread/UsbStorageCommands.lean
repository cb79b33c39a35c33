import RtThread.UsbStorageTransfers

/-!
# Commands of the USB mass storage function

What a function which waits for a command does with the next one, by the kind of its handler.
-/

namespace RtThread.UsbStorage

open Word StateTransition

variable {geo : BlkGeometry} {host : Buffer} {x y : Session} {bytes : List UInt8}

inductive Kind where
  | noData
  | answer (size : ℕ) (fill : Buffer → Buffer)
  | read
  | write

def CbwHandler.kind (geo : BlkGeometry) : CbwHandler → Kind
  | .testUnitReady | .allowRemoval | .startStop | .verify10 => .noData
  | .requestSense => .answer SIZEOF_REQUEST_SENSE senseData
  | .inquiryCmd => .answer SIZEOF_INQUIRY_CMD (store inquiryBytes)
  | .modeSense6 => .answer SIZEOF_MODE_SENSE_6 (store [3, 0, 0, 0])
  | .readCapacities => .answer SIZEOF_READ_CAPACITIES (store
      [0x00, 0x00, 0x00, 0x08, byteOf (geo.sectorCount >>> 24), byteOf (geo.sectorCount >>> 16),
        byteOf (geo.sectorCount >>> 8), byteOf geo.sectorCount, 0x02,
        byteOf (geo.bytesPerSector >>> 16), byteOf (geo.bytesPerSector >>> 8),
        byteOf geo.bytesPerSector])
  | .readCapacity => .answer SIZEOF_READ_CAPACITY (store
      [byteOf (geo.sectorCount >>> 24), byteOf (geo.sectorCount >>> 16),
        byteOf (geo.sectorCount >>> 8), byteOf geo.sectorCount, 0x00,
        byteOf (geo.bytesPerSector >>> 16), byteOf (geo.bytesPerSector >>> 8),
        byteOf geo.bytesPerSector])
  | .read10 => .read
  | .write10 => .write

theorem cbwHandler_eq (s : Mstorage) (cmd : ScsiCmd) (cbw : Cbw) : cbwHandler geo s cmd cbw =
      match cmd.handler.kind geo with
      | .noData => noData { s with processing := some cmd }
      | .answer size fill => answer geo { s with processing := some cmd } size fill
      | .read => read10 geo { s with processing := some cmd } cbw
      | .write => write10 geo { s with processing := some cmd } cbw := by
  unfold cbwHandler
  cases cmd.handler <;> rfl

def expectedSize (geo : BlkGeometry) (s : Mstorage) (cmd : ScsiCmd) (cbw : Cbw) : ℕ :=
  (cbLenCalc geo s cmd cbw).cbDataSize

/-- The checks of `_cbw_verify`. -/
structure Verified (cmd : ScsiCmd) (cbw : Cbw) (size : ℕ) : Prop where
  data : 0 < cbw.xferLen → 0 < size
  no_data : cbw.xferLen = 0 → size = 0
  not_out : cbw.dirIn = true → cmd.dir ≠ .dirOut
  not_in : cbw.dirIn = false → cmd.dir ≠ .dirIn
  le : cbw.xferLen ≤ size

theorem noteLength_eq (s : Mstorage) (cmd : ScsiCmd) (cbw : Cbw) :
    noteLength s cmd cbw = { s with cmdData := (noteLength s cmd cbw).cmdData } := by
  unfold noteLength
  split_ifs <;> rfl

def shorten (s : Mstorage) (cbw : Cbw) : Mstorage :=
  { s with
    cbDataSize := cbw.xferLen
    cswResponse :=
      { s.cswResponse with
        status := if cbw.xferLen < s.cbDataSize then 1 else s.cswResponse.status } }

theorem cbwVerify_of_verified {s : Mstorage} {cmd : ScsiCmd} {cbw : Cbw}
    (hverified : Verified cmd cbw s.cbDataSize) :
    cbwVerify s cmd cbw = (shorten (noteLength s cmd cbw) cbw, true) := by
  have hsize : (noteLength s cmd cbw).cbDataSize = s.cbDataSize := by
    rw [noteLength_eq]
  obtain ⟨hdata, hno, hout, hin, hle⟩ := hverified
  unfold cbwVerify
  dsimp only
  rw [hsize, if_neg (by lia), if_neg (by lia), if_neg (by tauto), if_neg (by lia)]
  unfold shorten
  rw [hsize]
  split_ifs with hlt
  · rfl
  · have heq : cbw.xferLen = (noteLength s cmd cbw).cbDataSize := by lia
    rw [heq]

theorem cbwVerify_of_not_verified {s : Mstorage} {cmd : ScsiCmd} {cbw : Cbw}
    (hverified : ¬Verified cmd cbw s.cbDataSize) :
    cbwVerify s cmd cbw = (noteLength s cmd cbw, false) := by
  have hsize : (noteLength s cmd cbw).cbDataSize = s.cbDataSize := by
    rw [noteLength_eq]
  unfold cbwVerify
  dsimp only
  rw [hsize]
  split_ifs with hdata hno hdir hgt hlt
  · rfl
  · rfl
  · rfl
  · rfl
  · exact absurd ⟨by lia, by lia, by tauto, by tauto, by lia⟩ hverified
  · exact absurd ⟨by lia, by lia, by tauto, by tauto, by lia⟩ hverified

theorem expectedSize_eq (s : Mstorage) (cmd : ScsiCmd) (cbw : Cbw) :
    cbLenCalc geo s cmd cbw = { s with cbDataSize := expectedSize geo s cmd cbw } := by
  unfold expectedSize cbLenCalc
  cases cmd.type <;> split_ifs <;> rfl

theorem cbwOf_store (hlen : bytes.length = SIZEOF_CBW) (buf : Buffer) :
    cbwOf (store bytes buf) = receivedCbw bytes := by
  have hbyte : ∀ i < SIZEOF_CBW, store bytes buf i = store bytes (fun _ => 0) i := by
    intro i hi
    have hi' : i < bytes.length := hlen ▸ hi
    simp [store, hi']
  have hword : ∀ i < 28, wordAt (store bytes buf) i = wordAt (store bytes fun _ => 0) i := by
    intro i hi
    unfold wordAt
    rw [hbyte (i + 3) (by unfold SIZEOF_CBW; lia), hbyte (i + 2) (by unfold SIZEOF_CBW; lia),
      hbyte (i + 1) (by unfold SIZEOF_CBW; lia), hbyte i (by unfold SIZEOF_CBW; lia)]
  ext1
  · exact hword 0 (by decide)
  · exact hword 4 (by decide)
  · exact hword 8 (by decide)
  · exact hbyte 12 (by decide)
  · exact hbyte 13 (by decide)
  · exact congrArg UInt8.toNat (hbyte 14 (by decide))
  · funext i
    exact hbyte (15 + i) (by unfold SIZEOF_CBW; lia)

structure ValidCbw (bytes : List UInt8) : Prop where
  length : bytes.length = SIZEOF_CBW
  signature : (receivedCbw bytes).signature = CBW_SIGNATURE

def opened (x : Session) (bytes : List UInt8) (table : List ScsiCmd) (size status : ℕ) :
    Mstorage :=
  { x.func with
    cswResponse := ⟨CSW_SIGNATURE, (receivedCbw bytes).tag, (receivedCbw bytes).xferLen, status⟩
    epOut := { x.func.epOut with buffer := store bytes x.func.epOut.buffer, started := [] }
    status := .cbw
    cbDataSize := size
    cmdData := table }

theorem Waiting.idle {s : Mstorage} (hx : Waiting x) (hhalted : s.halted = x.func.halted)
    (hin : s.epIn = x.func.epIn)
    (hout : s.epOut = { x.func.epOut with buffer := s.epOut.buffer, started := [] }) :
    Idle s := by
  constructor
  · constructor
    · rw [hhalted, hx.halted]
    · rw [hin, hx.in_list]
    · rw [hin, hx.in_started]
    · rw [hout]
      exact hx.out_list
    · rw [hout]
  · rw [hin, hx.in_stalled]
  · rw [hout]
    exact hx.out_stalled

variable (bytes) in
theorem opened_idle (hx : Waiting x) (table : List ScsiCmd) (size status : ℕ) :
    Idle (opened x bytes table size status) :=
  hx.idle rfl rfl rfl

def Session.expectedSize (geo : BlkGeometry) (x : Session) (cmd : ScsiCmd)
    (bytes : List UInt8) : ℕ :=
  UsbStorage.expectedSize geo x.func cmd (receivedCbw bytes)

def shortStatus (geo : BlkGeometry) (x : Session) (bytes : List UInt8) (cmd : ScsiCmd) : ℕ :=
  if (receivedCbw bytes).xferLen < x.expectedSize geo cmd bytes then 1 else 0

theorem expectedSize_opened (cmd : ScsiCmd) (table : List ScsiCmd) (status : ℕ) :
    expectedSize geo (opened x bytes table x.func.cbDataSize status) cmd (receivedCbw bytes) =
      x.expectedSize geo cmd bytes := by
  unfold Session.expectedSize expectedSize cbLenCalc
  cases cmd.type <;> split_ifs <;> rfl

theorem takeCommand_of_csw {s t : Mstorage} {cbw : Cbw}
    (hcsw : { s with cswResponse := ⟨CSW_SIGNATURE, cbw.tag, cbw.xferLen, 0⟩ } = t) :
    takeCommand geo s cbw = match findCbwCommand t (cbw.cb 0).toNat with
      | none => refuse t cbw
      | some cmd =>
        let r := cbwVerify (cbLenCalc geo t cmd cbw) cmd cbw
        if r.2 then
          let handled := cbwHandler geo r.1 cmd cbw
          if handled.2 = 0 then sendStatus handled.1 else handled.1
        else refuse r.1 cbw := by
  subst hcsw
  rfl

def delivered (x : Session) (bytes : List UInt8) : Mstorage :=
  { x.func with
    epOut := { x.func.epOut with
      buffer := store bytes x.func.epOut.buffer, started := x.func.epOut.started.tail } }

theorem command_eq_ite (hx : Waiting x) : command geo bytes x =
      ⟨if (cbwOf (store bytes x.func.epOut.buffer)).signature ≠ CBW_SIGNATURE ∨
            bytes.length ≠ SIZEOF_CBW then
          refuse (delivered x bytes) (cbwOf (store bytes x.func.epOut.buffer))
        else takeCommand geo (delivered x bytes) (cbwOf (store bytes x.func.epOut.buffer)),
        [], 0, []⟩ := by
  have hstatus : (delivered x bytes).status = .cbw := hx.status
  change (⟨epOutHandler geo (delivered x bytes) bytes.length, [], 0, []⟩ : Session) = _
  unfold epOutHandler
  rw [hstatus]
  rfl

theorem command_eq (hx : Waiting x) (hbytes : ValidCbw bytes) : command geo bytes x =
      ⟨takeCommand geo (opened x bytes x.func.cmdData x.func.cbDataSize 0) (receivedCbw bytes),
        [], 0, []⟩ := by
  have hopened : { delivered x bytes with
      cswResponse := ⟨CSW_SIGNATURE, (receivedCbw bytes).tag, (receivedCbw bytes).xferLen, 0⟩ } =
      opened x bytes x.func.cmdData x.func.cbDataSize 0 := by
    unfold delivered opened
    dsimp only
    rw [hx.status, hx.out_started]
    rfl
  rw [command_eq_ite hx, cbwOf_store hbytes.length,
    if_neg (by simp [hbytes.signature, hbytes.length]), takeCommand_of_csw hopened,
    takeCommand_of_csw (s := opened x bytes x.func.cmdData x.func.cbDataSize 0) rfl]
  rfl

theorem command_of_none (hx : Waiting x) (hbytes : ValidCbw bytes)
    (hnone : commandOf x bytes = none) : command geo bytes x =
      ⟨refuse (opened x bytes x.func.cmdData x.func.cbDataSize 0) (receivedCbw bytes),
        [], 0, []⟩ := by
  have hfind : findCbwCommand (opened x bytes x.func.cmdData x.func.cbDataSize 0)
      ((receivedCbw bytes).cb 0).toNat = none := hnone
  rw [command_eq hx hbytes]
  rw [takeCommand_of_csw (t := opened x bytes x.func.cmdData x.func.cbDataSize 0) rfl, hfind]

theorem noteLength_opened (cmd : ScsiCmd) (size status : ℕ) :
    noteLength (opened x bytes x.func.cmdData size status) cmd (receivedCbw bytes) =
      opened x bytes (noteLength x.func cmd (receivedCbw bytes)).cmdData size status := by
  unfold noteLength
  split_ifs <;> rfl

theorem command_of_some {cmd : ScsiCmd} (hx : Waiting x) (hbytes : ValidCbw bytes)
    (hcmd : commandOf x bytes = some cmd) : command geo bytes x =
      ⟨let r := cbwVerify (opened x bytes x.func.cmdData (x.expectedSize geo cmd bytes) 0) cmd
          (receivedCbw bytes)
        if r.2 then
          let handled := cbwHandler geo r.1 cmd (receivedCbw bytes)
          if handled.2 = 0 then sendStatus handled.1 else handled.1
        else refuse r.1 (receivedCbw bytes), [], 0, []⟩ := by
  have hfind : findCbwCommand (opened x bytes x.func.cmdData x.func.cbDataSize 0)
      ((receivedCbw bytes).cb 0).toNat = some cmd := hcmd
  rw [command_eq hx hbytes]
  rw [takeCommand_of_csw (t := opened x bytes x.func.cmdData x.func.cbDataSize 0) rfl, hfind]
  dsimp only
  rw [expectedSize_eq, expectedSize_opened]
  rfl

theorem command_of_not_verified {cmd : ScsiCmd} (hx : Waiting x) (hbytes : ValidCbw bytes)
    (hcmd : commandOf x bytes = some cmd)
    (hverified : ¬Verified cmd (receivedCbw bytes) (x.expectedSize geo cmd bytes)) :
    command geo bytes x =
      ⟨refuse (opened x bytes (noteLength x.func cmd (receivedCbw bytes)).cmdData
        (x.expectedSize geo cmd bytes) 0) (receivedCbw bytes), [], 0, []⟩ := by
  rw [command_of_some hx hbytes hcmd, cbwVerify_of_not_verified
    (s := opened x bytes x.func.cmdData (x.expectedSize geo cmd bytes) 0) hverified,
    noteLength_opened]
  rw [if_neg Bool.false_ne_true]

theorem command_of_verified {cmd : ScsiCmd} (hx : Waiting x) (hbytes : ValidCbw bytes)
    (hcmd : commandOf x bytes = some cmd)
    (hverified : Verified cmd (receivedCbw bytes) (x.expectedSize geo cmd bytes)) :
    command geo bytes x =
      ⟨let handled := cbwHandler geo
          (opened x bytes (noteLength x.func cmd (receivedCbw bytes)).cmdData
            (receivedCbw bytes).xferLen (shortStatus geo x bytes cmd)) cmd
          (receivedCbw bytes)
        if handled.2 = 0 then sendStatus handled.1 else handled.1, [], 0, []⟩ := by
  have hshort : shorten (opened x bytes (noteLength x.func cmd (receivedCbw bytes)).cmdData
      (x.expectedSize geo cmd bytes) 0) (receivedCbw bytes) =
      opened x bytes (noteLength x.func cmd (receivedCbw bytes)).cmdData
        (receivedCbw bytes).xferLen (shortStatus geo x bytes cmd) := rfl
  rw [command_of_some hx hbytes hcmd, cbwVerify_of_verified
    (s := opened x bytes x.func.cmdData (x.expectedSize geo cmd bytes) 0) hverified,
    noteLength_opened, hshort]
  rw [if_pos rfl]

variable (geo host) in
theorem refuse_served {s : Mstorage} (hidle : Idle s) (cbw : Cbw) :
    ∃ y, Served geo host ⟨refuse s cbw, [], 0, []⟩ y ∧
      Reply y [] 0 { s.cswResponse with status := 1 } s.disk := by
  unfold refuse
  split_ifs
  all_goals
    refine ⟨_, sendStatus_served ?_ _ _ _, ?_⟩
    -- The function is quiet, though an endpoint is stalled.
    · exact ⟨hidle.halted, hidle.in_list, hidle.in_started, hidle.out_list, hidle.out_started⟩
    · exact ⟨rfl, rfl, rfl, rfl⟩

variable (host) in
theorem served_of_refused (hx : Waiting x) (hbytes : ValidCbw bytes)
    (hrefused : ∀ cmd, commandOf x bytes = some cmd →
      ¬Verified cmd (receivedCbw bytes) (x.expectedSize geo cmd bytes)) :
    ∃ y, Served geo host (command geo bytes x) y ∧
      Reply y [] 0 ⟨CSW_SIGNATURE, (receivedCbw bytes).tag, (receivedCbw bytes).xferLen, 1⟩
        x.func.disk := by
  cases hcmd : commandOf x bytes with
  | none =>
    rw [command_of_none hx hbytes hcmd]
    exact refuse_served geo host (opened_idle bytes hx _ _ _) _
  | some cmd =>
    rw [command_of_not_verified hx hbytes hcmd (hrefused cmd hcmd)]
    exact refuse_served geo host (opened_idle bytes hx _ _ _) _

/-- The CBW in `bytes` reaches the handler of `cmd`. -/
structure Handled (geo : BlkGeometry) (x : Session) (bytes : List UInt8) (cmd : ScsiCmd) :
    Prop where
  waiting : Waiting x
  valid : ValidCbw bytes
  found : commandOf x bytes = some cmd
  verified : Verified cmd (receivedCbw bytes) (x.expectedSize geo cmd bytes)

variable {cmd : ScsiCmd}

variable (host) in
theorem Handled.served_noData (h : Handled geo x bytes cmd)
    (hkind : cmd.handler.kind geo = .noData) : ∃ y, Served geo host (command geo bytes x) y ∧
      Reply y [] 0 ⟨CSW_SIGNATURE, (receivedCbw bytes).tag, (receivedCbw bytes).xferLen, 0⟩
        x.func.disk := by
  have hidle := opened_idle bytes h.waiting
    (noteLength x.func cmd (receivedCbw bytes)).cmdData (receivedCbw bytes).xferLen 0
  rw [command_of_verified h.waiting h.valid h.found h.verified, cbwHandler_eq, hkind]
  refine ⟨_, sendStatus_served (hidle.congr ?_ ?_ ?_).toQuiet _ _ _, ?_⟩
  · rfl
  · rfl
  · rfl
  · exact ⟨rfl, rfl, rfl, rfl⟩

variable (host) in
theorem Handled.served_answer (h : Handled geo x bytes cmd) {size : ℕ} {fill : Buffer → Buffer}
    (hkind : cmd.handler.kind geo = .answer size fill) (hfits : size ≤ geo.bytesPerSector) :
    ∃ y rest, Served geo host (command geo bytes x) y ∧
      Reply y (bytesOf (min (receivedCbw bytes).xferLen size) (fill x.func.epIn.buffer)) 0
        ⟨CSW_SIGNATURE, (receivedCbw bytes).tag, rest, shortStatus geo x bytes cmd⟩
        x.func.disk := by
  have hidle := opened_idle bytes h.waiting
    (noteLength x.func cmd (receivedCbw bytes)).cmdData (receivedCbw bytes).xferLen
    (shortStatus geo x bytes cmd)
  rw [command_of_verified h.waiting h.valid h.found h.verified, cbwHandler_eq, hkind]
  exact answer_served (s := { opened x bytes _ _ (shortStatus geo x bytes cmd) with
      processing := some cmd })
    (hidle.congr rfl rfl rfl) (Nat.not_lt.mpr hfits) rfl

theorem Handled.not_served_answer (h : Handled geo x bytes cmd) {size : ℕ}
    {fill : Buffer → Buffer} (hkind : cmd.handler.kind geo = .answer size fill)
    (hfits : geo.bytesPerSector < size) : ¬Served geo host (command geo bytes x) y := by
  rw [command_of_verified h.waiting h.valid h.found h.verified, cbwHandler_eq, hkind]
  unfold answer
  dsimp only
  rw [if_pos hfits]
  rw [if_neg (by omega)]
  exact not_served_of_halted rfl

theorem read10_eq {s : Mstorage} (hs : Idle s) {cbw : Cbw} (hcount : cbw.count < geo.sectorCount) :
    read10 geo s cbw = (sending geo s (deviceRead geo s.disk cbw.block s.epIn.buffer) cbw.count
      cbw.block s.cbDataSize, geo.bytesPerSector) := by
  obtain ⟨csw, ⟨ibuf, isize, istalled, ilist, istarted⟩, ⟨obuf, osize, ostalled, olist, ostarted⟩,
    stat, dataSize, disk, block, count, processing, cmdData, halted⟩ := s
  obtain ⟨⟨rfl, rfl, rfl, rfl, rfl⟩, rfl, rfl⟩ := hs
  unfold read10
  rw [if_pos hcount]
  rfl

theorem write10_eq {s : Mstorage} (hs : Idle s) (cbw : Cbw) :
    write10 geo s cbw = (receiving geo { s with count := cbw.count } s.epOut.buffer s.disk
      cbw.block s.cbDataSize, geo.bytesPerSector) := by
  obtain ⟨csw, ⟨ibuf, isize, istalled, ilist, istarted⟩, ⟨obuf, osize, ostalled, olist, ostarted⟩,
    stat, dataSize, disk, block, count, processing, cmdData, halted⟩ := s
  obtain ⟨⟨rfl, rfl, rfl, rfl, rfl⟩, rfl, rfl⟩ := hs
  rfl

theorem bytesPerSector_pos (geo : BlkGeometry) : 0 < geo.bytesPerSector :=
  (by decide : 0 < SIZEOF_CBW).trans_le geo.cbw_le

def handlerState (geo : BlkGeometry) (x : Session) (bytes : List UInt8) (cmd : ScsiCmd) :
    Mstorage :=
  { opened x bytes (noteLength x.func cmd (receivedCbw bytes)).cmdData (receivedCbw bytes).xferLen
      (shortStatus geo x bytes cmd) with
    processing := some cmd }

variable (geo bytes cmd) in
theorem handlerState_idle (hx : Waiting x) : Idle (handlerState geo x bytes cmd) :=
  hx.idle rfl rfl rfl

variable (host) in
theorem Handled.served_read (h : Handled geo x bytes cmd) (hkind : cmd.handler.kind geo = .read)
    (hcount : (receivedCbw bytes).count < geo.sectorCount) :
    ∃ y rest, Served geo host (command geo bytes x) y ∧ Reply y (sectorBytes geo x.func.disk
          (blocksSent geo (receivedCbw bytes).count (receivedCbw bytes).xferLen)
          (receivedCbw bytes).block) 0
        ⟨CSW_SIGNATURE, (receivedCbw bytes).tag, rest, shortStatus geo x bytes cmd⟩
        x.func.disk ∧ rest < 4294967296 ∧
      (rest + blocksSent geo (receivedCbw bytes).count (receivedCbw bytes).xferLen *
        geo.bytesPerSector) % 4294967296 = (receivedCbw bytes).xferLen % 4294967296 := by
  have hidle := handlerState_idle geo bytes cmd h.waiting
  obtain ⟨y, rest, hserved, hsent, haccepted, hcsws, hdisk, hrest, hmod⟩ :=
    sending_served geo host hidle
      (deviceRead geo x.func.disk (receivedCbw bytes).block x.func.epIn.buffer)
      (receivedCbw bytes).count (receivedCbw bytes).block (receivedCbw bytes).xferLen [] 0 []
      (bytesOf_deviceRead _ _ _)
  refine ⟨y, rest, ?_, ⟨hsent, haccepted, hcsws, hdisk⟩, hrest, hmod⟩
  rw [command_of_verified h.waiting h.valid h.found h.verified, cbwHandler_eq, hkind]
  change Served geo host ⟨if (read10 geo (handlerState geo x bytes cmd) (receivedCbw bytes)).2 = 0
    then _ else (read10 geo (handlerState geo x bytes cmd) (receivedCbw bytes)).1, [], 0, []⟩ y
  rw [read10_eq hidle hcount, if_neg (bytesPerSector_pos geo).ne']
  exact hserved

theorem Handled.not_served_read (h : Handled geo x bytes cmd) (hkind : cmd.handler.kind geo = .read)
    (hcount : ¬(receivedCbw bytes).count < geo.sectorCount) :
    ¬Served geo host (command geo bytes x) y := by
  rw [command_of_verified h.waiting h.valid h.found h.verified, cbwHandler_eq, hkind]
  unfold read10
  rw [if_neg hcount]
  rw [if_neg (bytesPerSector_pos geo).ne']
  exact not_served_of_halted rfl

theorem Handled.command_write (h : Handled geo x bytes cmd)
    (hkind : cmd.handler.kind geo = .write) : command geo bytes x =
      ⟨receiving geo { handlerState geo x bytes cmd with count := (receivedCbw bytes).count }
        (store bytes x.func.epOut.buffer) x.func.disk (receivedCbw bytes).block
        (receivedCbw bytes).xferLen, [], 0, []⟩ := by
  have hidle := handlerState_idle geo bytes cmd h.waiting
  rw [command_of_verified h.waiting h.valid h.found h.verified, cbwHandler_eq, hkind]
  change (⟨if (write10 geo (handlerState geo x bytes cmd) (receivedCbw bytes)).2 = 0
    then _ else (write10 geo (handlerState geo x bytes cmd) (receivedCbw bytes)).1, [], 0, []⟩ :
      Session) = _
  rw [write10_eq hidle, if_neg (bytesPerSector_pos geo).ne']
  rfl

variable (host) in
theorem Handled.served_write (h : Handled geo x bytes cmd)
    (hkind : cmd.handler.kind geo = .write) {n : ℕ} (hn : 0 < n)
    (hwhole : (receivedCbw bytes).xferLen = n * geo.bytesPerSector)
    (hlt : n * geo.bytesPerSector < 4294967296) : ∃ y, Served geo host (command geo bytes x) y ∧
      Reply y [] (n * geo.bytesPerSector)
        ⟨CSW_SIGNATURE, (receivedCbw bytes).tag, 0, shortStatus geo x bytes cmd⟩
        (storeSectors geo n x.func.disk (receivedCbw bytes).block host) := by
  have hidle := handlerState_idle geo bytes cmd h.waiting
  obtain ⟨y, hserved, hsent, haccepted, hcsws, hdisk⟩ := receiving_served host
    (s := { handlerState geo x bytes cmd with count := (receivedCbw bytes).count })
    (hidle.congr rfl rfl rfl) (store bytes x.func.epOut.buffer) x.func.disk
    (receivedCbw bytes).block hn hlt [] 0 []
  refine ⟨y, ?_, hsent, ?_, hcsws, ?_⟩
  · rw [h.command_write hkind, hwhole]
    exact hserved
  · rw [haccepted, Nat.zero_add]
  · rw [hdisk]
    simp only [Nat.zero_add]

variable (host) in
theorem Handled.write_overrun (h : Handled geo x bytes cmd)
    (hkind : cmd.handler.kind geo = .write) (hlt : (receivedCbw bytes).xferLen < 4294967296)
    (hpart : (receivedCbw bytes).xferLen = 0 ∨
      (receivedCbw bytes).xferLen % geo.bytesPerSector ≠ 0) :
    ∃ y, Reaches (turn geo host) (command geo bytes x) y ∧
      (receivedCbw bytes).xferLen < y.accepted := by
  have hidle := handlerState_idle geo bytes cmd h.waiting
  obtain ⟨y, hreach, hover⟩ := receiving_overrun host
    (s := { handlerState geo x bytes cmd with count := (receivedCbw bytes).count })
    (hidle.congr rfl rfl rfl) (store bytes x.func.epOut.buffer) x.func.disk
    (receivedCbw bytes).block hlt hpart [] 0 []
  refine ⟨y, ?_, ?_⟩
  · rw [h.command_write hkind]
    exact hreach
  · omega

theorem epInHandler_cmdData (s : Mstorage) : (epInHandler geo s).cmdData = s.cmdData := by
  unfold epInHandler
  cases s.status with
  | csw =>
    split_ifs <;> rfl
  | cmd =>
    dsimp only [sendStatus, settleResidue]
    split_ifs <;> rfl
  | send =>
    dsimp only
    split_ifs <;> rfl
  | cbw | receive => rfl

theorem cmdData_of_turn (hturn : turn geo host x = some y) : y.func.cmdData = x.func.cmdData := by
  rcases turn_cases hturn with
    rfl | ⟨transfer, rest, -, rfl⟩ | rfl | ⟨hstatus, size, rest, -, rfl⟩
  · rfl
  · cases transfer <;> exact epInHandler_cmdData _
  · rfl
  · unfold acceptData receive epOutHandler
    dsimp only
    rw [hstatus]
    split_ifs <;> rfl

theorem Served.cmdData_eq (hserved : Served geo host x y) : y.func.cmdData = x.func.cmdData := by
  have hkeep : ∀ z, Reaches (turn geo host) x z → z.func.cmdData = x.func.cmdData := by
    intro z hz
    induction hz with
    | refl => rfl
    | tail _ hturn ih => exact (cmdData_of_turn hturn).trans ih
  exact hkeep y hserved.1

theorem refuse_cmdData (s : Mstorage) (cbw : Cbw) : (refuse s cbw).cmdData = s.cmdData := by
  unfold refuse
  split_ifs <;> rfl

theorem cbwHandler_cmdData (s : Mstorage) (cbw : Cbw) :
    (cbwHandler geo s cmd cbw).1.cmdData = s.cmdData := by
  rw [cbwHandler_eq]
  cases cmd.handler.kind geo with
  | noData => rfl
  | answer size fill =>
      dsimp only [answer]
      split_ifs <;> rfl
  | read =>
      dsimp only [read10]
      split_ifs <;> rfl
  | write => rfl

theorem command_cmdData (hx : Waiting x) (hbytes : ValidCbw bytes) :
    (command geo bytes x).func.cmdData =
      match commandOf x bytes with
      | none => x.func.cmdData
      | some cmd => (noteLength x.func cmd (receivedCbw bytes)).cmdData := by
  cases hcmd : commandOf x bytes with
  | none =>
      rw [command_of_none hx hbytes hcmd]
      exact refuse_cmdData _ _
  | some cmd =>
      by_cases hverified : Verified cmd (receivedCbw bytes) (x.expectedSize geo cmd bytes)
      · rw [command_of_verified hx hbytes hcmd hverified]
        dsimp only
        split_ifs
        · exact cbwHandler_cmdData _ _
        · exact cbwHandler_cmdData _ _
      · rw [command_of_not_verified hx hbytes hcmd hverified]
        exact refuse_cmdData _ _

variable (geo) in
theorem command_of_not_valid (hx : Waiting x) (hbytes : ¬ValidCbw bytes) :
    ∃ s cbw, command geo bytes x = ⟨refuse s cbw, [], 0, []⟩ ∧ Idle s ∧
      s.cmdData = x.func.cmdData := by
  refine ⟨delivered x bytes, cbwOf (store bytes x.func.epOut.buffer), ?_, ?_, rfl⟩
  · rw [command_eq_ite hx, if_pos]
    by_contra hboth
    push Not at hboth
    have hwhole : bytes.length = SIZEOF_CBW := hboth.2
    exact hbytes ⟨hwhole, by rw [← cbwOf_store hwhole]; exact hboth.1⟩
  · unfold delivered
    rw [hx.out_started]
    exact hx.idle rfl rfl rfl

end RtThread.UsbStorage
