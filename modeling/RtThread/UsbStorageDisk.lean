import RtThread.UsbStorageCommands

/-!
# USB mass storage as a block device

The purpose of the function is a block device: sectors which are read and written by number.
Well-formed commands are compared with that device over any run of them.
-/

namespace RtThread.UsbStorage

open List StateTransition Word

variable {geo : BlkGeometry} {host inBuf outBuf : Buffer} {x y : Session} {bytes : List UInt8}
  {cmd : ScsiCmd}

def sectors (geo : BlkGeometry) (disk : ℕ → Buffer) (lba n : ℕ) : List UInt8 :=
  (List.range n).flatMap fun i => bytesOf geo.bytesPerSector (disk (lba + i))

def writeSectors (geo : BlkGeometry) (disk : ℕ → Buffer) (lba n : ℕ) (data : Buffer) :
    ℕ → Buffer := fun b i =>
  if (lba ≤ b ∧ b < lba + n) ∧ i < geo.bytesPerSector then
    data ((b - lba) * geo.bytesPerSector + i)
  else disk b i

theorem sectors_writeSectors (disk : ℕ → Buffer) (lba n : ℕ) (data : Buffer) :
    sectors geo (writeSectors geo disk lba n data) lba n =
      (List.range n).flatMap fun i =>
        bytesOf geo.bytesPerSector fun j => data (i * geo.bytesPerSector + j) := by
  refine flatMap_congr fun i hi => map_congr_left fun j hj => ?_
  have hi' := mem_range.mp hi
  have hj' := mem_range.mp hj
  unfold writeSectors
  rw [if_pos ⟨⟨by omega, by omega⟩, hj'⟩, Nat.add_sub_cancel_left]

theorem sectors_length (disk : ℕ → Buffer) (lba n : ℕ) :
    (sectors geo disk lba n).length = n * geo.bytesPerSector := by
  unfold sectors
  induction n with
  | zero => simp
  | succ n ih =>
    rw [range_succ, flatMap_append, length_append, ih, Nat.succ_mul]
    simp [bytesOf_length]

theorem sectorBytes_eq (disk : ℕ → Buffer) {n lba : ℕ} (hlba : lba + n ≤ 4294967296) :
    sectorBytes geo disk n lba = sectors geo disk lba n := by
  induction n generalizing lba with
  | zero => rfl
  | succ n ih =>
    unfold sectors
    rw [sectorBytes, range_succ_eq_map, flatMap_cons, flatMap_map, Nat.add_zero]
    congr 1
    rcases Nat.eq_zero_or_pos n with rfl | hn
    · rfl
    · rw [add32_eq_of_lt (by omega), ih (by omega)]
      refine flatMap_congr fun i _ => ?_
      rw [Nat.add_assoc, Nat.add_comm 1 i]

theorem storeSectors_eq (disk : ℕ → Buffer) {n lba : ℕ} (data : Buffer)
    (hlba : lba + n ≤ 4294967296) :
    storeSectors geo n disk lba data = writeSectors geo disk lba n data := by
  induction n generalizing disk lba data with
  | zero =>
    funext b i
    unfold storeSectors writeSectors
    rw [if_neg fun h => by lia]
  | succ n ih =>
    have hrest : storeSectors geo n (deviceWrite geo disk lba data) (add32 lba 1)
        (fun i => data (geo.bytesPerSector + i)) =
        writeSectors geo (deviceWrite geo disk lba data) (lba + 1) n
          fun i => data (geo.bytesPerSector + i) := by
      rcases Nat.eq_zero_or_pos n with rfl | hn
      · funext b i
        unfold storeSectors writeSectors
        rw [if_neg fun h => by lia]
      · rw [add32_eq_of_lt (by lia), ih _ _ (by lia)]
    rw [storeSectors, hrest]
    funext b i
    unfold writeSectors
    by_cases hfirst : b = lba
    · subst hfirst
      rw [if_neg fun h => by lia]
      unfold deviceWrite
      rw [Function.update_self]
      split_ifs with hi hboth hboth
      · simp
      · lia
      · lia
      · rfl
    · have hother : deviceWrite geo disk lba data b = disk b := Function.update_of_ne hfirst _ _
      rw [hother]
      split_ifs with hin hin' hin'
      · have hb : b - lba = b - (lba + 1) + 1 := by lia
        rw [hb]
        exact congrArg data (by ring)
      · lia
      · lia
      · rfl

structure WellFormed (geo : BlkGeometry) (bytes : List UInt8) (cmd : ScsiCmd) : Prop where
  valid : ValidCbw bytes
  found : cmdData.find? (fun c => c.cmd = ((receivedCbw bytes).cb 0).toNat) = some cmd
  length : (receivedCbw bytes).cbLen = cmd.cmdLen
  dir_in : cmd.dir = .dirIn → (receivedCbw bytes).dirIn = true
  dir_out : cmd.dir = .dirOut → (receivedCbw bytes).dirIn = false
  size : (receivedCbw bytes).xferLen = askedSize geo cmd (receivedCbw bytes)
  blocks : cmd.type = .blockCount → 1 ≤ (receivedCbw bytes).count ∧
    (receivedCbw bytes).count < geo.sectorCount ∧
    (receivedCbw bytes).block + (receivedCbw bytes).count ≤ geo.sectorCount

theorem wordAt_lt (buf : Buffer) (offset : ℕ) : wordAt buf offset < 4294967296 := by
  unfold wordAt word16
  have h₀ := (buf offset).toNat_lt
  have h₁ := (buf (offset + 1)).toNat_lt
  have h₂ := (buf (offset + 2)).toNat_lt
  have h₃ := (buf (offset + 3)).toNat_lt
  omega

theorem xferLen_lt (bytes : List UInt8) : (receivedCbw bytes).xferLen < 4294967296 :=
  wordAt_lt _ _

variable (geo) in
theorem cmdData_spec (hcmd : cmd ∈ cmdData) : (cmd.cmdLen = 6 ∨ cmd.cmdLen = 10) ∧
      (cmd.type = .blockCount → cmd.cmdLen = 10) ∧ match cmd.handler.kind geo with
      | .noData => cmd.type = .fixed ∧ cmd.dataSize = 0 ∧ cmd.cmd ≠ SCSI_READ_10
      | .answer _ _ => cmd.type ≠ .blockCount
      | .read => cmd.type = .blockCount ∧ cmd.cmd = SCSI_READ_10
      | .write => cmd.type = .blockCount ∧ cmd.cmd = SCSI_WRITE_10 := by
  simp only [cmdData, mem_cons, not_mem_nil, or_false] at hcmd
  rcases hcmd with rfl | rfl | rfl | rfl | rfl | rfl | rfl | rfl | rfl | rfl | rfl <;>
    simp [CbwHandler.kind, SCSI_READ_10, SCSI_TEST_UNIT_READY, SCSI_ALLOW_REMOVAL, SCSI_START_STOP,
      SCSI_VERIFY_10]

section

variable (h : WellFormed geo bytes cmd)
include h

theorem WellFormed.expectedSize_eq (s : Mstorage) :
    expectedSize geo s cmd (receivedCbw bytes) = (receivedCbw bytes).xferLen := by
  obtain ⟨hlen, hten, -⟩ := cmdData_spec geo (mem_of_find?_eq_some h.found)
  have hsize := h.size
  have hlt := xferLen_lt bytes
  unfold askedSize at hsize
  unfold expectedSize cbLenCalc
  cases htype : cmd.type with
  | fixed | count =>
    rw [htype] at hsize
    rw [hsize]
    rcases hlen with hlen | hlen <;> simp [hlen]
  | blockCount =>
    rw [htype] at hsize
    rw [hten htype, if_neg (by decide), if_pos rfl]
    have hbytes : (receivedCbw bytes).xferLen =
        (receivedCbw bytes).count * geo.bytesPerSector := hsize
    exact (mul32_eq_of_lt (hbytes ▸ hlt)).trans hbytes.symm

theorem WellFormed.verified : Verified cmd (receivedCbw bytes) (receivedCbw bytes).xferLen := by
  refine ⟨id, id, fun hin hout => ?_, fun hout hin => ?_, le_rfl⟩
  · nomatch hin.symm.trans (h.dir_out hout)
  · nomatch hout.symm.trans (h.dir_in hin)

theorem WellFormed.handled (hx : Waiting x)
    (htable : x.func.cmdData = cmdData) : Handled geo x bytes cmd where
  waiting := hx
  valid := h.valid
  found := by
    unfold commandOf findCbwCommand
    rw [htable]
    exact h.found
  verified := by
    unfold Session.expectedSize
    rw [h.expectedSize_eq]
    exact h.verified

theorem WellFormed.shortStatus_eq : shortStatus geo x bytes cmd = 0 := by
  unfold shortStatus Session.expectedSize
  rw [h.expectedSize_eq, if_neg (lt_irrefl _)]

end

def storageSystem (geo : BlkGeometry) (inBuf outBuf : Buffer) :
    TransitionSystem Session (List UInt8 × Buffer) where
  init x := ∃ disk, x = enabled disk inBuf outBuf
  step x action y := action.1.length ≤ SIZEOF_CBW ∧ Served geo action.2 (command geo action.1 x) y

/-- A well formed command that reads, writes or moves no data. -/
def BlockCommand (geo : BlkGeometry) (bytes : List UInt8) (cmd : ScsiCmd) : Prop :=
  WellFormed geo bytes cmd ∧ ∀ size fill, cmd.handler.kind geo ≠ .answer size fill

def deviceReply (geo : BlkGeometry) (cmd : ScsiCmd) (cbw : Cbw) (disk : ℕ → Buffer)
    (data : Buffer) : List UInt8 × ℕ × (ℕ → Buffer) :=
  match cmd.handler.kind geo with
  | .read => (sectors geo disk cbw.block cbw.count, 0, disk)
  | .write =>
    ([], cbw.count * geo.bytesPerSector, writeSectors geo disk cbw.block cbw.count data)
  | .noData | .answer _ _ => ([], 0, disk)

/-- The function does what the block device does, sends one status for success and waits for the
next command. -/
def FaithfulReply (geo : BlkGeometry) (host : Buffer) (x : Session) (bytes : List UInt8)
    (cmd : ScsiCmd) : Prop :=
  ∃ y, Served geo host (command geo bytes x) y ∧
    Reply y (deviceReply geo cmd (receivedCbw bytes) x.func.disk host).1
      (deviceReply geo cmd (receivedCbw bytes) x.func.disk host).2.1
      ⟨CSW_SIGNATURE, (receivedCbw bytes).tag, 0, 0⟩
      (deviceReply geo cmd (receivedCbw bytes) x.func.disk host).2.2

/-- For a READ, the residue is not negative as a signed number. -/
def ResidueFits (geo : BlkGeometry) (bytes : List UInt8) (cmd : ScsiCmd) : Prop :=
  cmd.cmd = SCSI_READ_10 → ((receivedCbw bytes).count - 1) * geo.bytesPerSector < 2147483648

/-- The session waits for a CBW with the command table it started with. -/
structure TableKept (x : Session) : Prop where
  waiting : Waiting x
  table : x.func.cmdData = cmdData

theorem TableKept.served (hx : TableKept x) (h : WellFormed geo bytes cmd)
    (hserved : Served geo host (command geo bytes x) y) : TableKept y := by
  refine ⟨hserved.2, ?_⟩
  have hhandled := h.handled hx.waiting hx.table
  rw [hserved.cmdData_eq, command_cmdData hx.waiting h.valid, hhandled.found]
  dsimp only
  unfold noteLength
  rw [if_neg (not_not.mpr h.length.symm)]
  exact hx.table

structure SectorTransfer (geo : BlkGeometry) (cbw : Cbw) : Prop where
  pos : 0 < cbw.count
  count_lt : cbw.count < geo.sectorCount
  end_le : cbw.block + cbw.count ≤ 4294967296
  size : cbw.xferLen = cbw.count * geo.bytesPerSector
  size_lt : cbw.count * geo.bytesPerSector < 4294967296

theorem WellFormed.sectorTransfer (h : WellFormed geo bytes cmd)
    (htype : cmd.type = .blockCount) : SectorTransfer geo (receivedCbw bytes) := by
  obtain ⟨hpos, hlt, hend⟩ := h.blocks htype
  have hsector := geo.sectorCount_lt
  have hsize : (receivedCbw bytes).xferLen = (receivedCbw bytes).count * geo.bytesPerSector := by
    rw [h.size]
    unfold askedSize
    rw [htype]
  exact ⟨hpos, hlt, by omega, hsize, hsize ▸ xferLen_lt bytes⟩

theorem WellFormed.faithful_read (h : WellFormed geo bytes cmd) (hx : TableKept x)
    (hkind : cmd.handler.kind geo = .read) (ht : SectorTransfer geo (receivedCbw bytes)) :
    FaithfulReply geo host x bytes cmd ↔
      ((receivedCbw bytes).count - 1) * geo.bytesPerSector < 2147483648 := by
  have hhandled := h.handled hx.waiting hx.table
  obtain ⟨y, rest, hserved, hreply, hrest, hmod⟩ := hhandled.served_read host hkind ht.count_lt
  have hall := blocksSent_eq_iff geo ht.pos ht.size_lt
  rw [ht.size] at hreply hmod
  unfold FaithfulReply deviceReply
  rw [hkind, ← hall]
  constructor
  · rintro ⟨z, hserved', hreply'⟩
    obtain rfl := hserved.unique hserved'
    have hsent := congrArg List.length (hreply.sent.symm.trans hreply'.sent)
    rw [sectorBytes_length, sectors_length] at hsent
    exact Nat.eq_of_mul_eq_mul_right (bytesPerSector_pos geo) hsent
  · intro hsent
    rw [hsent] at hreply hmod
    have hzero : rest = 0 := by
      omega
    rw [sectorBytes_eq _ ht.end_le, hzero, h.shortStatus_eq] at hreply
    exact ⟨y, hserved, hreply⟩

variable (host) in
theorem WellFormed.faithful_write (h : WellFormed geo bytes cmd) (hx : TableKept x)
    (hkind : cmd.handler.kind geo = .write) (ht : SectorTransfer geo (receivedCbw bytes)) :
    FaithfulReply geo host x bytes cmd := by
  have hhandled := h.handled hx.waiting hx.table
  obtain ⟨y, hserved, hreply⟩ := hhandled.served_write host hkind ht.pos ht.size ht.size_lt
  rw [h.shortStatus_eq, storeSectors_eq _ _ ht.end_le] at hreply
  unfold FaithfulReply deviceReply
  rw [hkind]
  exact ⟨y, hserved, hreply⟩

theorem WellFormed.faithful_noData (h : WellFormed geo bytes cmd) (hx : TableKept x)
    (hkind : cmd.handler.kind geo = .noData) (hzero : (receivedCbw bytes).xferLen = 0) :
    FaithfulReply geo host x bytes cmd := by
  obtain ⟨y, hserved, hreply⟩ := (h.handled hx.waiting hx.table).served_noData host hkind
  rw [hzero] at hreply
  unfold FaithfulReply deviceReply
  rw [hkind]
  exact ⟨y, hserved, hreply⟩

variable (host) in
/-- A transfer is faithful exactly when its residue fits the signed comparison. -/
theorem BlockCommand.faithful_iff (h : BlockCommand geo bytes cmd) (hx : TableKept x) :
    FaithfulReply geo host x bytes cmd ↔ ResidueFits geo bytes cmd := by
  obtain ⟨hformed, hkinds⟩ := h
  have hspec := (cmdData_spec geo (mem_of_find?_eq_some hformed.found)).2.2
  cases hkind : cmd.handler.kind geo with
  | noData =>
    rw [hkind] at hspec
    have hzero : (receivedCbw bytes).xferLen = 0 := by
      rw [hformed.size]
      unfold askedSize
      rw [hspec.1]
      exact hspec.2.1
    exact iff_of_true (hformed.faithful_noData hx hkind hzero) fun h => absurd h hspec.2.2
  | answer size fill => exact absurd hkind (hkinds size fill)
  | read =>
    rw [hkind] at hspec
    rw [hformed.faithful_read hx hkind (hformed.sectorTransfer hspec.1)]
    exact ⟨fun hfits _ => hfits, fun hfits => hfits hspec.2⟩
  | write =>
    rw [hkind] at hspec
    refine iff_of_true (hformed.faithful_write host hx hkind (hformed.sectorTransfer hspec.1)) ?_
    intro hread
    nomatch hspec.2.symm.trans hread

/-- A READ gives the host the sectors which a WRITE of the same blocks stored. -/
theorem TableKept.read_written {bytes' : List UInt8} {cmd' : ScsiCmd} {host' : Buffer}
    (hx : TableKept x) (hwrite : BlockCommand geo bytes cmd)
    (hwkind : cmd.handler.kind geo = .write) (hread : BlockCommand geo bytes' cmd')
    (hrkind : cmd'.handler.kind geo = .read) (hfits : ResidueFits geo bytes' cmd')
    (hblock : (receivedCbw bytes').block = (receivedCbw bytes).block)
    (hcount : (receivedCbw bytes').count = (receivedCbw bytes).count) :
    ∃ y z, Served geo host (command geo bytes x) y ∧ Served geo host' (command geo bytes' y) z ∧
      z.sent = (List.range (receivedCbw bytes).count).flatMap fun i =>
        bytesOf geo.bytesPerSector fun j => host (i * geo.bytesPerSector + j) := by
  have htype := (cmdData_spec geo (mem_of_find?_eq_some hwrite.1.found)).2.2
  rw [hwkind] at htype
  obtain ⟨y, hy, hstored⟩ :=
    hwrite.1.faithful_write host hx hwkind (hwrite.1.sectorTransfer htype.1)
  obtain ⟨z, hz, hsent⟩ := (hread.faithful_iff host' (hx.served hwrite.1 hy)).mpr hfits
  refine ⟨y, z, hy, hz, ?_⟩
  have hdisk := hstored.disk
  unfold deviceReply at hsent hdisk
  rw [hwkind] at hdisk
  rw [hrkind] at hsent
  have hsectors : z.sent =
      sectors geo y.func.disk (receivedCbw bytes').block (receivedCbw bytes').count := hsent.sent
  rw [hsectors, hdisk, hblock, hcount]
  exact sectors_writeSectors _ _ _ _

/-- Well formed commands keep the table. -/
theorem TableKept.reachable {guard : Session → List UInt8 × Buffer → Prop}
    (hguard : ∀ x action, guard x action → ∃ cmd, WellFormed geo action.1 cmd)
    (hreach : (storageSystem geo inBuf outBuf).Reachable guard x) : TableKept x := by
  refine hreach.invariant ?_ ?_
  · rintro x ⟨disk, rfl⟩
    exact ⟨enabled_waiting disk inBuf outBuf, rfl⟩
  · intro x action y hx hmet hstep
    obtain ⟨cmd, hformed⟩ := hguard x action hmet
    exact hx.served hformed hstep.2

/-- In every run of READ(10), WRITE(10) and commands without data the function is a faithful block
device for the next command exactly when its residue fits. -/
theorem faithful_iff_residueFits (hreach : (storageSystem geo inBuf outBuf).Reachable
      (fun _ action => ∃ cmd, BlockCommand geo action.1 cmd) x)
    (hcmd : BlockCommand geo bytes cmd) :
    FaithfulReply geo host x bytes cmd ↔ ResidueFits geo bytes cmd :=
  hcmd.faithful_iff host (TableKept.reachable (fun _ _ h => h.imp fun _ h => h.1) hreach)

def sampleGeometry : BlkGeometry := ⟨64, 512, by decide, by decide, by decide⟩

def largeGeometry : BlkGeometry := ⟨40000, 65536, by decide, by decide, by decide⟩

def cbwBytes (xferLen : List UInt8) (dflags cbLen : UInt8) (cb : List UInt8) : List UInt8 :=
  [0x55, 0x53, 0x42, 0x43, 1, 0, 0, 0] ++ xferLen ++ [dflags, 0, cbLen] ++ cb

def sampleRead : List UInt8 :=
  cbwBytes [0, 4, 0, 0] 0x80 10 [0x28, 0, 0, 0, 0, 5, 0, 0, 2, 0, 0, 0, 0, 0, 0, 0]

def longRead : List UInt8 :=
  cbwBytes [0, 0, 2, 0x80] 0x80 10 [0x28, 0, 0, 0, 0, 0, 0, 0x80, 2, 0, 0, 0, 0, 0, 0, 0]

def readEntry : ScsiCmd := ⟨SCSI_READ_10, .read10, 10, .blockCount, 0, .dirIn⟩

theorem sampleRead_blockCommand : BlockCommand sampleGeometry sampleRead readEntry :=
  ⟨⟨⟨rfl, by decide⟩, by decide, by decide, by decide, by decide, by decide, by decide⟩,
    fun _ _ h => by cases h⟩

theorem longRead_blockCommand : BlockCommand largeGeometry longRead readEntry :=
  ⟨⟨⟨rfl, by decide⟩, by decide, by decide, by decide, by decide, by decide, by decide⟩,
    fun _ _ h => by cases h⟩

def blankBuffer : Buffer := fun _ => 0

def blankSession : Session := enabled (fun _ => blankBuffer) blankBuffer blankBuffer

theorem blankSession_reachable (guard : Session → List UInt8 × Buffer → Prop) :
    (storageSystem geo blankBuffer blankBuffer).Reachable guard blankSession :=
  .start ⟨_, rfl⟩

theorem faithful_sampleRead :
    FaithfulReply sampleGeometry blankBuffer blankSession sampleRead readEntry :=
  (faithful_iff_residueFits (blankSession_reachable _) sampleRead_blockCommand).mpr
    fun _ => by decide

def sampleWrite : List UInt8 :=
  cbwBytes [0, 4, 0, 0] 0 10 [0x2a, 0, 0, 0, 0, 5, 0, 0, 2, 0, 0, 0, 0, 0, 0, 0]

def writeEntry : ScsiCmd := ⟨SCSI_WRITE_10, .write10, 10, .blockCount, 0, .dirOut⟩

theorem sampleWrite_blockCommand : BlockCommand sampleGeometry sampleWrite writeEntry :=
  ⟨⟨⟨rfl, by decide⟩, by decide, by decide, by decide, by decide, by decide, by decide⟩,
    fun _ _ h => by cases h⟩

def sampleData : Buffer := fun j => UInt8.ofNat j

theorem sample_read_written :
    ∃ y z, Served sampleGeometry sampleData (command sampleGeometry sampleWrite blankSession) y ∧
      Served sampleGeometry blankBuffer (command sampleGeometry sampleRead y) z ∧
      z.sent = (List.range (receivedCbw sampleWrite).count).flatMap fun i =>
        bytesOf sampleGeometry.bytesPerSector fun j =>
          sampleData (i * sampleGeometry.bytesPerSector + j) :=
  TableKept.read_written ⟨enabled_waiting _ _ _, rfl⟩ sampleWrite_blockCommand rfl
    sampleRead_blockCommand rfl (fun _ => by decide) (by decide) (by decide)

/-- The residue of a read of more than two gigabytes is negative. -/
theorem not_faithful_longRead : (storageSystem largeGeometry blankBuffer blankBuffer).Reachable
        (fun _ action => ∃ cmd, BlockCommand largeGeometry action.1 cmd) blankSession ∧
      BlockCommand largeGeometry longRead readEntry ∧
      ¬FaithfulReply largeGeometry blankBuffer blankSession longRead readEntry := by
  have hkept : TableKept blankSession := ⟨enabled_waiting _ _ _, rfl⟩
  refine ⟨blankSession_reachable _, longRead_blockCommand, ?_⟩
  rw [longRead_blockCommand.faithful_iff _ hkept]
  intro hfits
  exact absurd (hfits rfl) (by decide)

end RtThread.UsbStorage
