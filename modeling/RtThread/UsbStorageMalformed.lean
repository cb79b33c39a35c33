import RtThread.UsbStorageDisk

/-!
# Malformed commands of the USB mass storage function

Any bytes may come as a command.  One command can change what the function takes for the length
of the next ones; the well-formed commands behind it are compared with the ones which a function
that has just been enabled gets.
-/

namespace RtThread.UsbStorage

open List StateTransition Word Nat

variable {geo : BlkGeometry} {host inBuf outBuf : Buffer} {x y z : Session} {bytes : List UInt8}
  {cmd entry : ScsiCmd}

/-! ## Entries of the table -/

def ScsiCmd.withoutLength (cmd : ScsiCmd) : ScsiCmd := { cmd with cmdLen := 0 }

theorem withoutLength_eq_iff : cmd.withoutLength = entry.withoutLength ↔
    cmd.cmd = entry.cmd ∧ cmd.handler = entry.handler ∧ cmd.type = entry.type ∧
      cmd.dataSize = entry.dataSize ∧ cmd.dir = entry.dir := by
  unfold ScsiCmd.withoutLength
  rw [ScsiCmd.mk.injEq]
  simp

/-- The command table but for the lengths the commands left in it. -/
structure TableShape (x : Session) : Prop where
  waiting : Waiting x
  shape : x.func.cmdData.map ScsiCmd.withoutLength = cmdData.map ScsiCmd.withoutLength

theorem find?_withoutLength (table : List ScsiCmd) (op : ℕ) :
    (table.find? fun c => c.cmd = op).map ScsiCmd.withoutLength =
      (table.map ScsiCmd.withoutLength).find? fun c => c.cmd = op := by
  rw [find?_map]
  rfl

variable (bytes) in
theorem TableShape.find_eq (hx : TableShape x) : (commandOf x bytes).map ScsiCmd.withoutLength =
      (cmdData.find? fun c => c.cmd = ((receivedCbw bytes).cb 0).toNat).map
        ScsiCmd.withoutLength := by
  unfold commandOf findCbwCommand
  rw [find?_withoutLength, find?_withoutLength, hx.shape]

theorem TableShape.nodup (hx : TableShape x) : (x.func.cmdData.map ScsiCmd.cmd).Nodup := by
  have hcmd : ∀ table : List ScsiCmd, table.map ScsiCmd.cmd =
      (table.map ScsiCmd.withoutLength).map ScsiCmd.cmd := by
    intro table
    rw [map_map]
    rfl
  rw [hcmd, hx.shape, ← hcmd]
  decide

theorem TableShape.noteLength (hx : TableShape x) (hcmd : commandOf x bytes = some cmd)
    (cbw : Cbw) : (UsbStorage.noteLength x.func cmd cbw).cmdData.map ScsiCmd.withoutLength =
      cmdData.map ScsiCmd.withoutLength := by
  rw [← hx.shape]
  unfold UsbStorage.noteLength
  split_ifs with hlen
  · dsimp only [replaceKeyed]
    rw [map_map]
    refine map_congr_left fun c hc => ?_
    simp only [Function.comp_apply]
    split_ifs with hkey
    · rw [eq_of_key hx.nodup hc (mem_of_find?_eq_some hcmd) hkey]
      rfl
    · rfl
  · rfl

theorem TableShape.served (hx : TableShape x) (hserved : Served geo host (command geo bytes x) y) :
    TableShape y := by
  refine ⟨hserved.2, ?_⟩
  rw [hserved.cmdData_eq]
  by_cases hbytes : ValidCbw bytes
  · rw [command_cmdData hx.waiting hbytes]
    cases hcmd : commandOf x bytes with
    | none => exact hx.shape
    | some cmd => exact hx.noteLength hcmd _
  · obtain ⟨s, cbw, hrefuse, -, htable⟩ := command_of_not_valid geo hx.waiting hbytes
    rw [hrefuse, refuse_cmdData, htable]
    exact hx.shape

theorem TableShape.reachable {guard : Session → List UInt8 × Buffer → Prop}
    (hreach : (storageSystem geo inBuf outBuf).Reachable guard x) : TableShape x := by
  refine hreach.invariant ?_ ?_
  · rintro x ⟨disk, rfl⟩
    exact ⟨enabled_waiting disk inBuf outBuf, rfl⟩
  · intro x action y hx _ hstep
    exact hx.served hstep.2

theorem WellFormed.withoutLength_eq (h : WellFormed geo bytes entry) (hx : TableShape x)
    (hcmd : commandOf x bytes = some cmd) : cmd.withoutLength = entry.withoutLength := by
  have hfind := hx.find_eq bytes
  rw [hcmd, h.found] at hfind
  exact Option.some.inj hfind

/-! ## What a command must leave intact -/

/-- The data stay within the transfer length, a valid command wrapper gets one status with its
tag, and a well-formed command gets the data and the status which it gets from a function that
has just been enabled on the same disk. -/
structure Survives (geo : BlkGeometry) (inBuf outBuf host : Buffer) (x : Session)
    (bytes : List UInt8) : Prop where
  data : ∀ y, Reaches (turn geo host) (command geo bytes x) y →
    y.sent.length ≤ (receivedCbw bytes).xferLen ∧ y.accepted ≤ (receivedCbw bytes).xferLen
  status : ValidCbw bytes → ∃ y csw, Served geo host (command geo bytes x) y ∧
    y.csws = [csw] ∧ csw.tag = (receivedCbw bytes).tag
  same : ∀ entry, WellFormed geo bytes entry → ∃ y z, Served geo host (command geo bytes x) y ∧
    Served geo host (command geo bytes (enabled x.func.disk inBuf outBuf)) z ∧
    y.sent = z.sent ∧ y.csws.map Csw.status = z.csws.map Csw.status

def reservedBits (i : ℕ) : UInt8 :=
  match i with
  | 1 | 8 | 9 | 10 | 11 | 14 | 15 | 16 | 17 => 0xff
  | 2 => 0xf0
  | _ => 0

def Bounded (geo : BlkGeometry) (cmd : ScsiCmd) (cbw : Cbw) : Prop :=
  match cmd.handler.kind geo with
  | .noData => True
  | .answer size _ => size ≤ geo.bytesPerSector
  | .read => cbw.count < geo.sectorCount ∧ geo.bytesPerSector ≤ cbw.xferLen ∧
      (cbw.xferLen % geo.bytesPerSector = 0 ∨ cbw.count ≤ cbw.xferLen / geo.bytesPerSector ∨
        2147483648 ≤ cbw.xferLen - geo.bytesPerSector)
  | .write => 0 < cbw.xferLen ∧ cbw.xferLen % geo.bytesPerSector = 0

/-- Nothing of the earlier commands is left for a well-formed one: the stored length reads the
size which is asked for, and the sense data are what they were. -/
def Untouched (geo : BlkGeometry) (inBuf : Buffer) (x : Session) (bytes : List UInt8)
    (cmd : ScsiCmd) : Prop :=
  x.expectedSize geo cmd bytes = (receivedCbw bytes).xferLen ∧
    (cmd.cmd = SCSI_REQUEST_SENSE → ∀ i < (receivedCbw bytes).xferLen,
      x.func.epIn.buffer i &&& reservedBits i = inBuf i &&& reservedBits i)

structure Harmless (geo : BlkGeometry) (inBuf : Buffer) (x : Session) (bytes : List UInt8) :
    Prop where
  bounded : ValidCbw bytes → ∀ cmd, commandOf x bytes = some cmd →
    Verified cmd (receivedCbw bytes) (x.expectedSize geo cmd bytes) →
      Bounded geo cmd (receivedCbw bytes)
  untouched : ∀ entry, WellFormed geo bytes entry → ∀ cmd, commandOf x bytes = some cmd →
    Untouched geo inBuf x bytes cmd

/-! ## Replies of handled commands -/

def replyData (geo : BlkGeometry) (cmd : ScsiCmd) (cbw : Cbw) (disk : ℕ → Buffer)
    (buf : Buffer) : List UInt8 :=
  match cmd.handler.kind geo with
  | .noData | .write => []
  | .answer size fill => bytesOf (min cbw.xferLen size) (fill buf)
  | .read => sectorBytes geo disk (blocksSent geo cbw.count cbw.xferLen) cbw.block

def replyStatus (geo : BlkGeometry) (x : Session) (bytes : List UInt8) (cmd : ScsiCmd) : ℕ :=
  match cmd.handler.kind geo with
  | .noData => 0
  | .answer _ _ | .read | .write => shortStatus geo x bytes cmd

variable (host) in
theorem Handled.served (h : Handled geo x bytes cmd) (hbounded : Bounded geo cmd (receivedCbw bytes)) :
    ∃ y csw, Served geo host (command geo bytes x) y ∧ y.dataBytes ≤ (receivedCbw bytes).xferLen ∧
      y.sent = replyData geo cmd (receivedCbw bytes) x.func.disk x.func.epIn.buffer ∧
      y.csws = [csw] ∧ csw.tag = (receivedCbw bytes).tag ∧
      csw.status = replyStatus geo x bytes cmd := by
  unfold Bounded at hbounded
  unfold replyData replyStatus Session.dataBytes
  cases hkind : cmd.handler.kind geo with
  | noData =>
    obtain ⟨y, hserved, hreply⟩ := h.served_noData host hkind
    refine ⟨y, _, hserved, ?_, hreply.sent, hreply.csws, rfl, rfl⟩
    rw [hreply.sent, hreply.accepted]
    exact zero_le _
  | answer size fill =>
    rw [hkind] at hbounded
    obtain ⟨y, rest, hserved, hreply⟩ := h.served_answer host hkind hbounded
    refine ⟨y, _, hserved, ?_, hreply.sent, hreply.csws, rfl, rfl⟩
    rw [hreply.sent, hreply.accepted, bytesOf_length, add_zero]
    exact min_le_left _ _
  | read =>
    rw [hkind] at hbounded
    obtain ⟨hcount, hwhole⟩ := hbounded
    obtain ⟨y, rest, hserved, hreply, -⟩ := h.served_read host hkind hcount
    refine ⟨y, _, hserved, ?_, hreply.sent, hreply.csws, rfl, rfl⟩
    rw [hreply.sent, hreply.accepted, sectorBytes_length]
    exact (blocksSent_mul_le_iff _ (xferLen_lt bytes)).mpr hwhole
  | write =>
    rw [hkind] at hbounded
    obtain ⟨hpos, hmod⟩ := hbounded
    have hwhole : (receivedCbw bytes).xferLen =
        (receivedCbw bytes).xferLen / geo.bytesPerSector * geo.bytesPerSector :=
      (Nat.div_mul_cancel (Nat.dvd_of_mod_eq_zero hmod)).symm
    obtain ⟨y, hserved, hreply⟩ := h.served_write host hkind
      (div_pos (le_of_dvd hpos (dvd_of_mod_eq_zero hmod)) (bytesPerSector_pos geo))
      hwhole (hwhole ▸ xferLen_lt bytes)
    refine ⟨y, _, hserved, ?_, hreply.sent, hreply.csws, rfl, rfl⟩
    rw [hreply.sent, hreply.accepted, ← hwhole]
    exact (zero_add _).le

theorem Handled.not_survives (h : Handled geo x bytes cmd)
    (hbounded : ¬Bounded geo cmd (receivedCbw bytes)) :
    ¬Survives geo inBuf outBuf host x bytes := by
  intro hsurvives
  obtain ⟨y, csw, hserved, -⟩ := hsurvives.status h.valid
  refine hbounded ?_
  unfold Bounded
  cases hkind : cmd.handler.kind geo with
  | noData => trivial
  | answer size fill =>
    by_contra hfits
    exact h.not_served_answer hkind (not_le.mp hfits) hserved
  | read =>
    have hcount : (receivedCbw bytes).count < geo.sectorCount := by
      by_contra hcount
      exact h.not_served_read hkind hcount hserved
    refine ⟨hcount, (blocksSent_mul_le_iff _ (xferLen_lt bytes)).mp ?_⟩
    obtain ⟨z, rest, hserved', hreply, -⟩ := h.served_read host hkind hcount
    have hdata := (hsurvives.data z hserved'.1).1
    rwa [hreply.sent, sectorBytes_length] at hdata
  | write =>
    by_contra hwhole
    obtain ⟨z, hreach, hover⟩ := h.write_overrun host hkind (xferLen_lt bytes)
      (by simp only [not_and_or, not_lt, le_zero] at hwhole; exact hwhole)
    exact absurd (hsurvives.data z hreach).2 (not_le.mpr hover)

/-! ## Data which are left in the buffer -/

theorem bytesOf_eq_iff {n : ℕ} {buf buf' : Buffer} :
    bytesOf n buf = bytesOf n buf' ↔ ∀ i < n, buf i = buf' i := by
  unfold bytesOf
  rw [map_inj_left]
  simp only [mem_range]

theorem bytesOf_store {n : ℕ} {list : List UInt8} (hn : n ≤ list.length) (buf buf' : Buffer) :
    bytesOf n (store list buf) = bytesOf n (store list buf') := by
  rw [bytesOf_eq_iff]
  intro i hi
  have hi' : i < list.length := hi.trans_le hn
  simp [store, hi']

theorem senseKey_inj (a b : UInt8) :
    a &&& 0xf0 ||| 2 = b &&& 0xf0 ||| 2 ↔ a &&& 0xf0 = b &&& 0xf0 := by
  refine ⟨fun h => ?_, fun h => by rw [h]⟩
  have hmask : ∀ c : UInt8, (c &&& 0xf0 ||| 2) &&& 0xf0 = c &&& 0xf0 := by
    intro c
    calc
      (c &&& 0xf0 ||| 2) &&& 0xf0 = (c &&& 0xf0) &&& 0xf0 ||| 2 &&& 0xf0 :=
        UInt8.toBitVec_inj.mp BitVec.and_or_distrib_right
      _ = c &&& (0xf0 &&& 0xf0) ||| 0 := by
        rw [UInt8.and_assoc]
        rfl
      _ = c &&& 0xf0 := UInt8.or_zero
  rw [← hmask a, ← hmask b, h]

theorem senseData_eq_iff {buf buf' : Buffer} {i : ℕ} (hi : i < SIZEOF_REQUEST_SENSE) :
    senseData buf i = senseData buf' i ↔ buf i &&& reservedBits i = buf' i &&& reservedBits i := by
  unfold SIZEOF_REQUEST_SENSE at hi
  have hall : ∀ c : UInt8, c &&& 255 = c := fun _ => UInt8.and_neg_one
  unfold senseData reservedBits
  interval_cases i <;> simp [senseKey_inj, hall]

theorem replyData_eq_iff (cmd : ScsiCmd) (cbw : Cbw) (disk : ℕ → Buffer) (buf buf' : Buffer) :
    replyData geo cmd cbw disk buf = replyData geo cmd cbw disk buf' ↔
      (cmd.handler = .requestSense → ∀ i < cbw.xferLen,
        buf i &&& reservedBits i = buf' i &&& reservedBits i) := by
  unfold replyData
  cases hhandler : cmd.handler with
  | requestSense =>
    have hbeyond : ∀ i, SIZEOF_REQUEST_SENSE ≤ i → reservedBits i = 0 := by
      intro i hi
      unfold SIZEOF_REQUEST_SENSE at hi
      unfold reservedBits
      split <;> first | omega | rfl
    simp only [CbwHandler.kind, bytesOf_eq_iff, forall_const]
    constructor
    · intro hsame i hi
      by_cases hin : i < SIZEOF_REQUEST_SENSE
      · exact (senseData_eq_iff hin).mp (hsame i (lt_min hi hin))
      · rw [hbeyond i (not_lt.mp hin), UInt8.and_zero, UInt8.and_zero]
    · intro hsame i hi
      exact (senseData_eq_iff (hi.trans_le (min_le_right _ _))).mpr
        (hsame i (hi.trans_le (min_le_left _ _)))
  | inquiryCmd | modeSense6 | readCapacities | readCapacity =>
    exact iff_of_true (bytesOf_store (min_le_right _ _) _ _) (by simp)
  | testUnitReady | allowRemoval | startStop | read10 | write10 | verify10 =>
    exact iff_of_true rfl (by simp)

theorem shortStatus_eq_zero_iff (hle : (receivedCbw bytes).xferLen ≤ x.expectedSize geo cmd bytes) :
    shortStatus geo x bytes cmd = 0 ↔
      x.expectedSize geo cmd bytes = (receivedCbw bytes).xferLen := by
  unfold shortStatus
  split_ifs with hlt
  · exact iff_of_false (by decide) hlt.ne'
  · exact iff_of_true rfl (by omega)

/-! ## Well-formed commands behind others -/

theorem requestSense_iff (hentry : entry ∈ cmdData) :
    entry.cmd = SCSI_REQUEST_SENSE ↔ entry.handler = .requestSense := by
  simp only [cmdData, mem_cons, not_mem_nil, or_false] at hentry
  rcases hentry with rfl | rfl | rfl | rfl | rfl | rfl | rfl | rfl | rfl | rfl | rfl <;> decide

theorem Handled.replyStatus_eq_zero_iff (h : Handled geo x bytes cmd)
    (hformed : WellFormed geo bytes entry) (hsame : cmd.withoutLength = entry.withoutLength) :
    replyStatus geo x bytes cmd = 0 ↔
      x.expectedSize geo cmd bytes = (receivedCbw bytes).xferLen := by
  have hhandler : cmd.handler = entry.handler := (withoutLength_eq_iff.mp hsame).2.1
  have hspec := (cmdData_spec geo (mem_of_find?_eq_some hformed.found)).2.2
  rw [← hhandler] at hspec
  unfold replyStatus
  cases hkind : cmd.handler.kind geo with
  | noData =>
    rw [hkind] at hspec
    have hzero : (receivedCbw bytes).xferLen = 0 := by
      rw [hformed.size]
      unfold askedSize
      rw [hspec.1]
      exact hspec.2.1
    exact iff_of_true rfl ((h.verified.no_data hzero).trans hzero.symm)
  | answer size fill | read | write => exact shortStatus_eq_zero_iff h.verified.le

variable (host) in
theorem WellFormed.served (h : WellFormed geo bytes entry) (hx : TableKept x)
    (hbounded : Bounded geo entry (receivedCbw bytes)) :
    ∃ y csw, Served geo host (command geo bytes x) y ∧
      y.sent = replyData geo entry (receivedCbw bytes) x.func.disk x.func.epIn.buffer ∧
      y.csws = [csw] ∧ csw.status = 0 := by
  have hhandled := h.handled hx.waiting hx.table
  obtain ⟨y, csw, hserved, -, hsent, hcsws, -, hstatus⟩ := hhandled.served host hbounded
  refine ⟨y, csw, hserved, hsent, hcsws, ?_⟩
  rw [hstatus, hhandled.replyStatus_eq_zero_iff h rfl]
  exact h.expectedSize_eq _

variable (inBuf outBuf) in
theorem enabled_kept (disk : ℕ → Buffer) : TableKept (enabled disk inBuf outBuf) :=
  ⟨enabled_waiting disk inBuf outBuf, rfl⟩

theorem bounded_iff (hsame : cmd.withoutLength = entry.withoutLength) (cbw : Cbw) :
    Bounded geo cmd cbw ↔ Bounded geo entry cbw := by
  unfold Bounded
  rw [(withoutLength_eq_iff.mp hsame).2.1]

theorem Handled.same_iff (h : Handled geo x bytes cmd)
    (hbounded : Bounded geo cmd (receivedCbw bytes)) (hformed : WellFormed geo bytes entry)
    (hsame : cmd.withoutLength = entry.withoutLength) :
    (∃ y z, Served geo host (command geo bytes x) y ∧
      Served geo host (command geo bytes (enabled x.func.disk inBuf outBuf)) z ∧
      y.sent = z.sent ∧ y.csws.map Csw.status = z.csws.map Csw.status) ↔
      Untouched geo inBuf x bytes cmd := by
  have hmem := mem_of_find?_eq_some hformed.found
  have hentry := withoutLength_eq_iff.mp hsame
  obtain ⟨y, csw, hserved, -, hsent, hcsws, -, hstatus⟩ := h.served host hbounded
  obtain ⟨z, csw', hserved', hsent', hcsws', hstatus'⟩ :=
    hformed.served host (enabled_kept inBuf outBuf x.func.disk) ((bounded_iff hsame _).mp hbounded)
  have hdata : y.sent = z.sent ↔ (cmd.cmd = SCSI_REQUEST_SENSE → ∀ i < (receivedCbw bytes).xferLen,
        x.func.epIn.buffer i &&& reservedBits i = inBuf i &&& reservedBits i) := by
    have hreply : replyData geo entry (receivedCbw bytes) x.func.disk inBuf =
        replyData geo cmd (receivedCbw bytes) x.func.disk inBuf := by
      unfold replyData
      rw [hentry.2.1]
    rw [hentry.1, requestSense_iff hmem, ← hentry.2.1, hsent]
    rw [show z.sent = replyData geo cmd (receivedCbw bytes) x.func.disk inBuf from
      hsent'.trans hreply]
    exact replyData_eq_iff _ _ _ _ _
  unfold Untouched
  rw [← hdata, ← h.replyStatus_eq_zero_iff hformed hsame, ← hstatus]
  constructor
  · rintro ⟨y', z', hy, hz, hsent, hstatus⟩
    obtain rfl := hserved.unique hy
    obtain rfl := hserved'.unique hz
    rw [hcsws, hcsws', map_singleton, map_singleton, hstatus'] at hstatus
    exact ⟨by simpa using hstatus, hsent⟩
  · rintro ⟨hzero, hsent⟩
    refine ⟨y, z, hserved, hserved', hsent, ?_⟩
    rw [hcsws, hcsws', map_singleton, map_singleton, hzero, hstatus']

variable (host) in
theorem refused_status (hx : TableShape x) (hbytes : ValidCbw bytes)
    (hrefused : ∀ cmd, commandOf x bytes = some cmd →
      ¬Verified cmd (receivedCbw bytes) (x.expectedSize geo cmd bytes)) :
    ∃ y csw, Served geo host (command geo bytes x) y ∧ y.dataBytes = 0 ∧
      y.csws = [csw] ∧ csw.tag = (receivedCbw bytes).tag ∧ csw.status = 1 := by
  obtain ⟨y, hserved, hreply⟩ := served_of_refused host hx.waiting hbytes hrefused
  refine ⟨y, _, hserved, ?_, hreply.csws, rfl, rfl⟩
  unfold Session.dataBytes
  rw [hreply.sent, hreply.accepted]
  rfl

theorem Served.data (hserved : Served geo host x y) {n : ℕ} (hy : y.dataBytes ≤ n)
    (hreach : Reaches (turn geo host) x z) : z.sent.length ≤ n ∧ z.accepted ≤ n := by
  have hz := hserved.dataBytes_le hreach
  unfold Session.dataBytes at hy hz
  omega

theorem WellFormed.bounded_of_served (h : WellFormed geo bytes entry) (hx : TableKept x)
    (hserved : Served geo host (command geo bytes x) y) : Bounded geo entry (receivedCbw bytes) := by
  have hspec := (cmdData_spec geo (mem_of_find?_eq_some h.found)).2.2
  have hhandled := h.handled hx.waiting hx.table
  unfold Bounded
  cases hkind : entry.handler.kind geo with
  | noData => trivial
  | answer size fill =>
    by_contra hfits
    exact hhandled.not_served_answer hkind (not_le.mp hfits) hserved
  | read =>
    rw [hkind] at hspec
    have ht := h.sectorTransfer hspec.1
    refine ⟨ht.count_lt, ?_, .inl ?_⟩
    · rw [ht.size]
      exact Nat.le_mul_of_pos_left _ ht.pos
    · rw [ht.size, mul_mod_left]
  | write =>
    rw [hkind] at hspec
    have ht := h.sectorTransfer hspec.1
    rw [ht.size]
    exact ⟨mul_pos ht.pos (bytesPerSector_pos geo), mul_mod_left _ _⟩

theorem survives_of_not_valid (hx : Waiting x) (hbytes : ¬ValidCbw bytes) :
    Survives geo inBuf outBuf host x bytes := by
  obtain ⟨s, cbw, hrefuse, hidle, -⟩ := command_of_not_valid geo hx hbytes
  obtain ⟨y, hserved, hreply⟩ := refuse_served geo host hidle cbw
  refine ⟨fun z hz => ?_, fun h => absurd h hbytes, fun entry h => absurd h.valid hbytes⟩
  rw [hrefuse] at hz
  refine hserved.data ?_ hz
  unfold Session.dataBytes
  rw [hreply.sent, hreply.accepted]
  exact zero_le _

theorem survives_iff_of_refused (hx : TableShape x) (hbytes : ValidCbw bytes)
    (hrefused : ∀ cmd, commandOf x bytes = some cmd →
      ¬Verified cmd (receivedCbw bytes) (x.expectedSize geo cmd bytes)) :
    Survives geo inBuf outBuf host x bytes ↔ ∀ entry, ¬WellFormed geo bytes entry := by
  obtain ⟨y, csw, hserved, hdata, hcsws, htag, hstatus⟩ := refused_status host hx hbytes hrefused
  constructor
  · intro hsurvives entry hformed
    have hkept := enabled_kept inBuf outBuf x.func.disk
    obtain ⟨y', z, hy, hz, -, hsame⟩ := hsurvives.same entry hformed
    obtain ⟨z', csw', hz', -, hcsws', hstatus'⟩ :=
      hformed.served host hkept (hformed.bounded_of_served hkept hz)
    obtain rfl := hserved.unique hy
    obtain rfl := hz'.unique hz
    rw [hcsws, hcsws', map_singleton, map_singleton, hstatus, hstatus'] at hsame
    cases hsame
  · intro hnone
    exact ⟨fun z hz => hserved.data (hdata.le.trans (zero_le _)) hz,
      fun _ => ⟨y, csw, hserved, hcsws, htag⟩, fun entry h => absurd h (hnone entry)⟩

theorem WellFormed.commandOf_eq (h : WellFormed geo bytes entry) (hx : TableShape x) :
    ∃ cmd, commandOf x bytes = some cmd ∧ cmd.withoutLength = entry.withoutLength := by
  have hfind := hx.find_eq bytes
  rw [h.found] at hfind
  exact Option.map_eq_some_iff.mp hfind

theorem harmless_iff_of_refused (hx : TableShape x)
    (hrefused : ∀ cmd, commandOf x bytes = some cmd →
      ¬Verified cmd (receivedCbw bytes) (x.expectedSize geo cmd bytes)) :
    Harmless geo inBuf x bytes ↔ ∀ entry, ¬WellFormed geo bytes entry := by
  constructor
  · intro hharmless entry hformed
    obtain ⟨cmd, hcmd, hsame⟩ := hformed.commandOf_eq hx
    refine hrefused cmd hcmd ?_
    rw [(hharmless.untouched entry hformed cmd hcmd).1]
    have hdir := (withoutLength_eq_iff.mp hsame).2.2.2.2
    obtain ⟨hdata, hno, hout, hin, hle⟩ := hformed.verified
    exact ⟨hdata, hno, hdir ▸ hout, hdir ▸ hin, hle⟩
  · intro hnone
    exact ⟨fun _ cmd hcmd h => absurd h (hrefused cmd hcmd), fun entry h => absurd h (hnone entry)⟩

/-- Later commands survive a malformed one exactly when it is harmless. -/
theorem TableShape.survives_iff (hx : TableShape x) :
    Survives geo inBuf outBuf host x bytes ↔ Harmless geo inBuf x bytes := by
  by_cases hbytes : ValidCbw bytes
  swap
  · exact iff_of_true (survives_of_not_valid hx.waiting hbytes)
      ⟨fun h => absurd h hbytes, fun _ h => absurd h.valid hbytes⟩
  by_cases hhandled : ∃ cmd, Handled geo x bytes cmd
  swap
  · have hrefused : ∀ cmd, commandOf x bytes = some cmd →
        ¬Verified cmd (receivedCbw bytes) (x.expectedSize geo cmd bytes) :=
      fun cmd hcmd h => hhandled ⟨cmd, hx.waiting, hbytes, hcmd, h⟩
    rw [survives_iff_of_refused hx hbytes hrefused, harmless_iff_of_refused hx hrefused]
  obtain ⟨cmd, h⟩ := hhandled
  have honly : ∀ cmd', commandOf x bytes = some cmd' → cmd' = cmd := fun cmd' hcmd' =>
    Option.some.inj (hcmd'.symm.trans h.found)
  by_cases hbounded : Bounded geo cmd (receivedCbw bytes)
  · obtain ⟨y, csw, hserved, hdata, -, hcsws, htag, -⟩ := h.served host hbounded
    constructor
    · intro hsurvives
      refine ⟨fun _ cmd' hcmd' _ => honly cmd' hcmd' ▸ hbounded, fun entry hformed cmd' hcmd' => ?_⟩
      obtain rfl := honly cmd' hcmd'
      exact (h.same_iff hbounded hformed (hformed.withoutLength_eq hx h.found)).mp
        (hsurvives.same entry hformed)
    · intro hharmless
      exact ⟨fun z hz => hserved.data hdata hz, fun _ => ⟨y, csw, hserved, hcsws, htag⟩,
        fun entry hformed =>
          (h.same_iff hbounded hformed (hformed.withoutLength_eq hx h.found)).mpr
            (hharmless.untouched entry hformed cmd h.found)⟩
  · exact iff_of_false (h.not_survives hbounded) fun hharmless =>
      hbounded (hharmless.bounded hbytes cmd h.found h.verified)

/-- In every run of commands with any contents the next command is survived exactly when it is
harmless in the state before it. -/
theorem survives_iff_harmless
    (hreach : (storageSystem geo inBuf outBuf).Reachable (fun _ _ => True) x) (bytes : List UInt8) :
    Survives geo inBuf outBuf host x bytes ↔ Harmless geo inBuf x bytes :=
  (TableShape.reachable hreach).survives_iff

/-! ## A length which stays in the table -/

def inquiry : List UInt8 :=
  cbwBytes [36, 0, 0, 0] 0x80 6 [0x12, 0, 0, 0, 36, 0, 0, 0, 0, 0, 0, 0, 0, 0, 0, 0]

def oddInquiry : List UInt8 :=
  cbwBytes [36, 0, 0, 0] 0x80 10 [0x12, 0, 0, 0, 36, 0, 0, 0, 0, 0, 0, 0, 0, 0, 0, 0]

def inquiryEntry : ScsiCmd := ⟨SCSI_INQUIRY_CMD, .inquiryCmd, 6, .count, 0, .dirIn⟩

theorem inquiry_wellFormed : WellFormed sampleGeometry inquiry inquiryEntry :=
  ⟨⟨rfl, by decide⟩, by decide, by decide, by decide, by decide, by decide, by decide⟩

theorem oddInquiry_handled : Handled sampleGeometry blankSession oddInquiry inquiryEntry :=
  ⟨enabled_waiting _ _ _, ⟨rfl, by decide⟩, by decide,
    ⟨by decide, by decide, by decide, by decide, by decide⟩⟩

theorem survives_inquiry :
    Survives sampleGeometry blankBuffer blankBuffer blankBuffer blankSession inquiry := by
  refine (survives_iff_harmless (blankSession_reachable _) inquiry).mpr ⟨?_, ?_⟩
  · rintro - cmd hcmd -
    obtain rfl : inquiryEntry = cmd :=
      Option.some.inj ((by decide : commandOf blankSession inquiry = some inquiryEntry).symm.trans
        hcmd)
    exact (by decide : SIZEOF_INQUIRY_CMD ≤ 512)
  · intro entry _ cmd hcmd
    obtain rfl : inquiryEntry = cmd :=
      Option.some.inj ((by decide : commandOf blankSession inquiry = some inquiryEntry).symm.trans
        hcmd)
    exact ⟨by decide, fun _ _ _ => rfl⟩

/-- A wrong `cb_len` is kept in the table of commands. -/
theorem not_survives_inquiry :
    ∃ x, (storageSystem sampleGeometry blankBuffer blankBuffer).Reachable (fun _ _ => True) x ∧
      ¬Survives sampleGeometry blankBuffer blankBuffer blankBuffer x inquiry := by
  have hshape : TableShape blankSession := ⟨enabled_waiting _ _ _, rfl⟩
  obtain ⟨y, csw, hserved, -⟩ := oddInquiry_handled.served blankBuffer
    (by decide : SIZEOF_INQUIRY_CMD ≤ 512)
  have hstep : (storageSystem sampleGeometry blankBuffer blankBuffer).step blankSession
      (oddInquiry, blankBuffer) y := ⟨by decide, hserved⟩
  refine ⟨y, .next (blankSession_reachable _) trivial hstep, ?_⟩
  have htable := hserved.cmdData_eq.trans
    (command_cmdData oddInquiry_handled.waiting oddInquiry_handled.valid)
  rw [oddInquiry_handled.found] at htable
  have hcmd : commandOf y inquiry = some { inquiryEntry with cmdLen := 10 } := by
    unfold commandOf findCbwCommand
    rw [htable]
    decide
  rw [(hshape.served hserved).survives_iff]
  intro hharmless
  have hsize := (hharmless.untouched inquiryEntry inquiry_wellFormed _ hcmd).1
  have hzero : y.expectedSize sampleGeometry { inquiryEntry with cmdLen := 10 } inquiry = 0 := rfl
  rw [hzero] at hsize
  cases hsize

end RtThread.UsbStorage
