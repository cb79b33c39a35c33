import RtThread.UsbStorageModel

/-!
# Transfers of the USB mass storage function

What goes over the endpoints from one request to the next wait for a command: the status alone,
an answer and the status, the sectors of a READ, the sectors of a WRITE.
-/

namespace RtThread.UsbStorage

open Word StateTransition Nat

variable {geo : BlkGeometry} {host : Buffer} {x y z : Session}

theorem Waiting.turn_eq_none (hx : Waiting x) : turn geo host x = none := by
  unfold turn
  simp [hx.halted, hx.in_stalled, hx.in_started, hx.out_stalled, hx.status]

theorem Served.head (hturn : turn geo host x = some y) (hserved : Served geo host y z) :
    Served geo host x z :=
  ⟨hserved.1.head hturn, hserved.2⟩

theorem Served.unique (hy : Served geo host x y) (hz : Served geo host x z) : y = z :=
  Part.mem_unique (mem_eval.mpr ⟨hy.1, hy.2.turn_eq_none⟩) (mem_eval.mpr ⟨hz.1, hz.2.turn_eq_none⟩)

theorem not_served_of_halted (hx : x.func.halted = true) : ¬Served geo host x y := by
  rintro ⟨hreach, hy⟩
  have hnone : turn geo host x = none := by
    unfold turn
    simp [hx]
  have heq : y = x := (eval_maximal (mem_eval.mpr ⟨.refl, hnone⟩)).mp hreach
  rw [heq] at hy
  nomatch hx.symm.trans hy.halted

theorem turn_cases (hturn : turn geo host x = some y) :
    y = { x with func := { x.func with epIn := x.func.epIn.clearStall } } ∨
    (∃ transfer rest, x.func.epIn.started = transfer :: rest ∧ y = sendDone geo x transfer rest) ∨
    y = { x with func := { x.func with epOut := x.func.epOut.clearStall } } ∨
    x.func.status = .receive ∧ ∃ size rest, x.func.epOut.started = size :: rest ∧
      y = acceptData geo host x size rest := by
  unfold turn at hturn
  split at hturn
  · cases hturn
  split at hturn
  · exact .inl (Option.some.inj hturn).symm
  split at hturn
  · next transfer rest hstarted =>
      exact .inr (.inl ⟨transfer, rest, hstarted, (Option.some.inj hturn).symm⟩)
  split at hturn
  · exact .inr (.inr (.inl (Option.some.inj hturn).symm))
  split at hturn
  · next hstatus =>
      split at hturn
      · next size rest hstarted =>
          exact .inr (.inr (.inr
            ⟨hstatus, size, rest, hstarted, (Option.some.inj hturn).symm⟩))
      · cases hturn
  · cases hturn

def Session.dataBytes (x : Session) : ℕ := x.sent.length + x.accepted

theorem dataBytes_le_of_turn (hturn : turn geo host x = some y) : x.dataBytes ≤ y.dataBytes := by
  rcases turn_cases hturn with rfl | ⟨transfer, rest, -, rfl⟩ | rfl | ⟨-, size, rest, -, rfl⟩
  · exact le_rfl
  · cases transfer <;> simp [sendDone, Session.dataBytes]
  · exact le_rfl
  · simp only [acceptData, Session.dataBytes]
    omega

theorem dataBytes_le_of_reaches (hreach : Reaches (turn geo host) x y) :
    x.dataBytes ≤ y.dataBytes := by
  induction hreach with
  | refl => exact le_rfl
  | tail _ hturn ih => exact ih.trans (dataBytes_le_of_turn hturn)

theorem Served.dataBytes_le (hserved : Served geo host x y)
    (hreach : Reaches (turn geo host) x z) : z.dataBytes ≤ y.dataBytes := by
  rcases reaches_total hserved.1 hreach with h | h
  · have hz : z = y := (eval_maximal (mem_eval.mpr ⟨.refl, hserved.2.turn_eq_none⟩)).mp h
    exact hz ▸ le_rfl
  · exact dataBytes_le_of_reaches h

structure Quiet (s : Mstorage) : Prop where
  halted : s.halted = false
  in_list : s.epIn.requestList = []
  in_started : s.epIn.started = []
  out_list : s.epOut.requestList = []
  out_started : s.epOut.started = []

structure Idle (s : Mstorage) : Prop extends Quiet s where
  in_stalled : s.epIn.stalled = false
  out_stalled : s.epOut.stalled = false

theorem Idle.congr {s s' : Mstorage} (hs : Idle s) (hhalted : s'.halted = s.halted)
    (hin : s'.epIn = s.epIn) (hout : s'.epOut = s.epOut) : Idle s' := by
  obtain ⟨⟨hhalt, hilist, histarted, holist, hostarted⟩, histalled, hostalled⟩ := hs
  constructor
  · constructor
    · rw [hhalted, hhalt]
    · rw [hin, hilist]
    · rw [hin, histarted]
    · rw [hout, holist]
    · rw [hout, hostarted]
  · rw [hin, histalled]
  · rw [hout, hostalled]

def ready (s : Mstorage) : Mstorage :=
  { s with
    epIn := ⟨s.epIn.buffer, SIZEOF_CSW, false, [], []⟩
    epOut := ⟨s.epOut.buffer, SIZEOF_CBW, false, [], [SIZEOF_CBW]⟩
    status := .cbw }

theorem ready_waiting {s : Mstorage} (hs : Quiet s) (sent : List UInt8) (accepted : ℕ)
    (csws : List Csw) : Waiting ⟨ready s, sent, accepted, csws⟩ :=
  ⟨hs.halted, rfl, rfl, rfl, rfl, rfl, rfl, rfl⟩

theorem sendStatus_served {s : Mstorage} (hs : Quiet s) (sent : List UInt8) (accepted : ℕ)
    (csws : List Csw) : Served geo host ⟨sendStatus s, sent, accepted, csws⟩
      ⟨ready s, sent, accepted, csws ++ [s.cswResponse]⟩ := by
  have hend := ready_waiting hs sent accepted (csws ++ [s.cswResponse])
  obtain ⟨csw, ⟨ibuf, isize, istalled, ilist, istarted⟩, ⟨obuf, osize, ostalled, olist, ostarted⟩,
    status, dataSize, disk, block, count, processing, cmdData, halted⟩ := s
  obtain ⟨rfl, rfl, rfl, rfl, rfl⟩ := hs
  cases istalled <;> cases ostalled
  · exact .head rfl ⟨.refl, hend⟩
  · exact .head rfl (.head rfl ⟨.refl, hend⟩)
  · exact .head rfl (.head rfl ⟨.refl, hend⟩)
  · exact .head rfl (.head rfl (.head rfl ⟨.refl, hend⟩))

theorem bytesOf_length (size : ℕ) (buf : Buffer) : (bytesOf size buf).length = size := by
  simp [bytesOf]

theorem settleResidue_quiet {s : Mstorage} (hs : Quiet s) : Quiet (settleResidue s) := by
  unfold settleResidue
  split_ifs <;> exact ⟨hs.1, hs.2, hs.3, hs.4, hs.5⟩

theorem settleResidue_csw (s : Mstorage) :
    (settleResidue s).cswResponse = { s.cswResponse with dataReside := 0 } := by
  unfold settleResidue
  split_ifs <;> rfl

theorem settleResidue_disk (s : Mstorage) : (settleResidue s).disk = s.disk := by
  unfold settleResidue
  split_ifs <;> rfl

structure Reply (y : Session) (sent : List UInt8) (accepted : ℕ) (csw : Csw)
    (disk : ℕ → Buffer) : Prop where
  sent : y.sent = sent
  accepted : y.accepted = accepted
  csws : y.csws = [csw]
  disk : y.func.disk = disk

theorem answer_served {s : Mstorage} (hs : Idle s) {size tag reside status : ℕ}
    {fill : Buffer → Buffer} (hfits : ¬geo.bytesPerSector < size)
    (hcsw : s.cswResponse = ⟨CSW_SIGNATURE, tag, reside, status⟩) : ∃ y rest, Served geo host
        ⟨if (answer geo s size fill).2 = 0 then sendStatus (answer geo s size fill).1
          else (answer geo s size fill).1, [], 0, []⟩ y ∧
      Reply y (bytesOf (min s.cbDataSize size) (fill s.epIn.buffer)) 0
        ⟨CSW_SIGNATURE, tag, rest, status⟩ s.disk := by
  obtain ⟨csw, ⟨ibuf, isize, istalled, ilist, istarted⟩, ⟨obuf, osize, ostalled, olist, ostarted⟩,
    stat, dataSize, disk, block, count, processing, cmdData, halted⟩ := s
  obtain ⟨⟨rfl, rfl, rfl, rfl, rfl⟩, rfl, rfl⟩ := hs
  obtain rfl : csw = _ := hcsw
  unfold answer
  rw [if_neg hfits]
  generalize hlen : min dataSize size = len
  split_ifs with hzero
  · -- the status is sent behind an empty answer
    subst hzero
    exact ⟨_, reside, .head rfl (.head rfl ⟨.refl, ⟨rfl, rfl, rfl, rfl, rfl, rfl, rfl, rfl⟩⟩),
      rfl, rfl, rfl, rfl⟩
  · refine ⟨_, 0, .head rfl
      (sendStatus_served (settleResidue_quiet ⟨rfl, rfl, rfl, rfl, rfl⟩) _ _ _), rfl, rfl, ?_, ?_⟩
    · rw [settleResidue_csw]
      rfl
    · exact settleResidue_disk _

/-- How many sectors READ(10) sends: `count` is what is left to send, and the residue ends the
loop when it is not positive as a signed number. -/
def blocksSent (geo : BlkGeometry) : ℕ → ℕ → ℕ
  | 0, _ => 1
  | count + 1, reside =>
    if 0 < count ∧ 0 < sub32 reside geo.bytesPerSector ∧
        sub32 reside geo.bytesPerSector < 2147483648 then
      blocksSent geo count (sub32 reside geo.bytesPerSector) + 1
    else 1

def sectorBytes (geo : BlkGeometry) (disk : ℕ → Buffer) : ℕ → ℕ → List UInt8
  | 0, _ => []
  | n + 1, block => bytesOf geo.bytesPerSector (disk block) ++
      sectorBytes geo disk n (add32 block 1)

def sending (geo : BlkGeometry) (s : Mstorage) (buf : Buffer) (count : ℤ) (block reside : ℕ) :
    Mstorage :=
  { s with
    cswResponse := { s.cswResponse with dataReside := reside }
    epIn := ⟨buf, geo.bytesPerSector, false, [], [.data (bytesOf geo.bytesPerSector buf)]⟩
    status := .send
    block := block
    count := count }

def sectorSent (geo : BlkGeometry) (s : Mstorage) (buf : Buffer) (count : ℤ) (block reside : ℕ) :
    Mstorage :=
  { sending geo s buf count block reside with
    epIn := ⟨buf, geo.bytesPerSector, false, [], []⟩ }

theorem sectorSent_quiet {s : Mstorage} (hs : Idle s) (buf : Buffer) (count : ℤ)
    (block reside : ℕ) : Quiet (sectorSent geo s buf count block reside) :=
  ⟨hs.halted, rfl, rfl, hs.out_list, hs.out_started⟩

theorem bytesOf_deviceRead (disk : ℕ → Buffer) (block : ℕ) (buf : Buffer) :
    bytesOf geo.bytesPerSector (deviceRead geo disk block buf) =
      bytesOf geo.bytesPerSector (disk block) := by
  unfold bytesOf deviceRead
  refine List.map_congr_left fun i hi => ?_
  rw [if_pos (List.mem_range.mp hi)]

variable (geo host) in
theorem turn_sending {s : Mstorage} (hs : Idle s) (buf : Buffer) (count : ℤ) (block reside : ℕ)
    (sent : List UInt8) (accepted : ℕ) (csws : List Csw) :
    turn geo host ⟨sending geo s buf count block reside, sent, accepted, csws⟩ =
      some ⟨if count - 1 > 0 ∧ 0 < sub32 reside geo.bytesPerSector ∧
            sub32 reside geo.bytesPerSector < 2147483648 then
          sending geo s (deviceRead geo s.disk (add32 block 1) buf) (count - 1) (add32 block 1)
            (sub32 reside geo.bytesPerSector)
        else
          sendStatus (sectorSent geo s buf (count - 1) (add32 block 1)
            (sub32 reside geo.bytesPerSector)),
        sent ++ bytesOf geo.bytesPerSector buf, accepted, csws⟩ := by
  obtain ⟨csw, ⟨ibuf, isize, istalled, ilist, istarted⟩, ⟨obuf, osize, ostalled, olist, ostarted⟩,
    stat, dataSize, disk, block', count', processing, cmdData, halted⟩ := s
  obtain ⟨⟨rfl, rfl, rfl, rfl, rfl⟩, rfl, rfl⟩ := hs
  rfl

theorem sub32_add (reside : ℕ) {n : ℕ} (hn : n ≤ 4294967296) :
    sub32 reside n < 4294967296 ∧ (sub32 reside n + n) % 4294967296 = reside % 4294967296 := by
  unfold sub32
  constructor
  · exact mod_lt _ (by decide)
  · lia

variable (geo host) in
theorem sending_served {s : Mstorage} (hs : Idle s) (buf : Buffer) (count block reside : ℕ)
    (sent : List UInt8) (accepted : ℕ) (csws : List Csw)
    (hbuf : bytesOf geo.bytesPerSector buf = bytesOf geo.bytesPerSector (s.disk block)) :
    ∃ y rest, Served geo host ⟨sending geo s buf count block reside, sent, accepted, csws⟩ y ∧
      y.sent = sent ++ sectorBytes geo s.disk (blocksSent geo count reside) block ∧
      y.accepted = accepted ∧ y.csws = csws ++ [{ s.cswResponse with dataReside := rest }] ∧
      y.func.disk = s.disk ∧ rest < 4294967296 ∧
      (rest + blocksSent geo count reside * geo.bytesPerSector) % 4294967296 =
        reside % 4294967296 := by
  obtain ⟨hrest, hmod⟩ := sub32_add reside geo.bytesPerSector_lt.le
  induction count generalizing buf block reside sent with
  | zero =>
    have hturn := turn_sending geo host hs buf ((0 : ℕ) : ℤ) block reside sent accepted csws
    rw [if_neg (by simp)] at hturn
    refine ⟨_, sub32 reside geo.bytesPerSector, .head hturn
      (sendStatus_served (sectorSent_quiet hs _ _ _ _) _ _ _), ?_⟩
    simp only [blocksSent, sectorBytes, hbuf, List.append_nil, one_mul]
    exact ⟨trivial, trivial, rfl, rfl, hrest, hmod⟩
  | succ count ih =>
    have hturn := turn_sending geo host hs buf ((count + 1 : ℕ) : ℤ) block reside sent accepted csws
    rw [show ((count + 1 : ℕ) : ℤ) - 1 = count by lia] at hturn
    by_cases hmore : 0 < count ∧ 0 < sub32 reside geo.bytesPerSector ∧
        sub32 reside geo.bytesPerSector < 2147483648
    · rw [if_pos (by simpa using hmore)] at hturn
      obtain ⟨y, rest, hserved, hsent, haccepted, hcsws, hdisk, hlt, hend⟩ :=
        ih (deviceRead geo s.disk (add32 block 1) buf) (add32 block 1)
          (sub32 reside geo.bytesPerSector) (sent ++ bytesOf geo.bytesPerSector buf)
          (bytesOf_deviceRead s.disk (add32 block 1) buf)
          (sub32_add _ geo.bytesPerSector_lt.le).1 (sub32_add _ geo.bytesPerSector_lt.le).2
      refine ⟨y, rest, .head hturn hserved, ?_, haccepted, hcsws, hdisk, hlt, ?_⟩
      · rw [hsent, blocksSent, if_pos hmore, sectorBytes, hbuf, List.append_assoc]
      · rw [blocksSent, if_pos hmore, succ_mul]
        lia
    · rw [if_neg (by simpa using hmore)] at hturn
      refine ⟨_, sub32 reside geo.bytesPerSector, .head hturn
        (sendStatus_served (sectorSent_quiet hs _ _ _ _) _ _ _), ?_⟩
      rw [blocksSent, if_neg hmore]
      simp only [sectorBytes, hbuf, List.append_nil, one_mul]
      exact ⟨trivial, trivial, rfl, rfl, hrest, hmod⟩

theorem sectorBytes_length (disk : ℕ → Buffer) (n block : ℕ) :
    (sectorBytes geo disk n block).length = n * geo.bytesPerSector := by
  induction n generalizing block with
  | zero => simp [sectorBytes]
  | succ n ih =>
    rw [sectorBytes, List.length_append, bytesOf_length, ih, succ_mul]
    omega

theorem blocksSent_pos (count reside : ℕ) : 0 < blocksSent geo count reside := by
  cases count with
  | zero => exact one_pos
  | succ count =>
    rw [blocksSent]
    split_ifs <;> omega

theorem blocksSent_mul_le_iff (count : ℕ) {reside : ℕ} (hreside : reside < 4294967296) :
    blocksSent geo count reside * geo.bytesPerSector ≤ reside ↔
      geo.bytesPerSector ≤ reside ∧ (reside % geo.bytesPerSector = 0 ∨
        count ≤ reside / geo.bytesPerSector ∨ 2147483648 ≤ reside - geo.bytesPerSector) := by
  have hpos : 0 < geo.bytesPerSector := (by decide : 0 < SIZEOF_CBW).trans_le geo.cbw_le
  induction count generalizing reside with
  | zero => simp [blocksSent]
  | succ count ih =>
    by_cases hle : geo.bytesPerSector ≤ reside
    · have hsub := sub32_eq_of_le hle hreside
      have hmod : reside % geo.bytesPerSector =
          (reside - geo.bytesPerSector) % geo.bytesPerSector := mod_eq_sub_mod hle
      have hdiv : reside / geo.bytesPerSector =
          (reside - geo.bytesPerSector) / geo.bytesPerSector + 1 :=
        div_eq_sub_div hpos hle
      rw [blocksSent, hsub]
      split_ifs with hmore
      · have hstep := @ih (reside - geo.bytesPerSector) (by lia)
        have hdiv_pos : 0 < (reside - geo.bytesPerSector) / geo.bytesPerSector ↔
            geo.bytesPerSector ≤ reside - geo.bytesPerSector := Nat.div_pos_iff.trans (by lia)
        have hmod_zero : (reside - geo.bytesPerSector) % geo.bytesPerSector = 0 →
            geo.bytesPerSector ≤ reside - geo.bytesPerSector := fun h =>
          le_of_dvd hmore.2.1 (dvd_of_mod_eq_zero h)
        rw [succ_mul, hmod, hdiv]
        generalize (reside - geo.bytesPerSector) % geo.bytesPerSector = r at hstep hmod_zero ⊢
        generalize (reside - geo.bytesPerSector) / geo.bytesPerSector = q at hstep hdiv_pos ⊢
        lia
      · refine iff_of_true (by lia) ⟨hle, ?_⟩
        rw [hdiv]
        by_cases hzero : reside - geo.bytesPerSector = 0
        · exact .inl (by rw [hmod, hzero, zero_mod])
        · refine .inr ?_
          by_cases hcount : count = 0
          · rw [hcount]
            exact .inl (succ_le_succ (zero_le _))
          · exact .inr (by lia)
    · refine iff_of_false (fun h => hle ?_) fun h => hle h.1
      exact (Nat.le_mul_of_pos_left _ (blocksSent_pos _ _)).trans h

variable (geo) in
/-- All blocks are sent exactly when the residue behind the first is below 2^31. -/
theorem blocksSent_eq_iff {n : ℕ} (hn : 0 < n) (hreside : n * geo.bytesPerSector < 4294967296) :
    blocksSent geo n (n * geo.bytesPerSector) = n ↔ (n - 1) * geo.bytesPerSector < 2147483648 := by
  have hpos : 0 < geo.bytesPerSector := (by decide : 0 < SIZEOF_CBW).trans_le geo.cbw_le
  induction n with
  | zero => cases hn
  | succ n ih =>
    have hsub : sub32 ((n + 1) * geo.bytesPerSector) geo.bytesPerSector =
        n * geo.bytesPerSector := by
      rw [sub32_eq_of_le (Nat.le_mul_of_pos_left _ hn) hreside, Nat.succ_mul]
      lia
    rw [blocksSent, hsub, Nat.add_sub_cancel]
    rcases Nat.eq_zero_or_pos n with rfl | hn'
    · simp
    have hmul : 0 < n * geo.bytesPerSector := mul_pos hn' hpos
    rw [succ_mul] at hreside
    have hprev : (n - 1) * geo.bytesPerSector ≤ n * geo.bytesPerSector :=
      mul_le_mul_right _ (sub_le n 1)
    split_ifs with hmore <;> lia

def storeSectors (geo : BlkGeometry) : ℕ → (ℕ → Buffer) → ℕ → Buffer → (ℕ → Buffer)
  | 0, disk, _, _ => disk
  | n + 1, disk, block, data =>
    storeSectors geo n (deviceWrite geo disk block data) (add32 block 1)
      fun i => data (geo.bytesPerSector + i)

def receiving (geo : BlkGeometry) (s : Mstorage) (buf : Buffer) (disk : ℕ → Buffer)
    (block reside : ℕ) : Mstorage :=
  { s with
    cswResponse := { s.cswResponse with dataReside := reside }
    epOut := ⟨buf, geo.bytesPerSector, false, [], [geo.bytesPerSector]⟩
    status := .receive
    disk := disk
    block := block }

def sectorsStored (geo : BlkGeometry) (s : Mstorage) (buf : Buffer) (disk : ℕ → Buffer)
    (block reside : ℕ) : Mstorage :=
  { receiving geo s buf disk block reside with
    epOut := ⟨buf, geo.bytesPerSector, false, [], []⟩ }

theorem sectorsStored_quiet {s : Mstorage} (hs : Idle s) (buf : Buffer) (disk : ℕ → Buffer)
    (block reside : ℕ) : Quiet (sectorsStored geo s buf disk block reside) :=
  ⟨hs.halted, hs.in_list, hs.in_started, rfl, rfl⟩

theorem deviceWrite_store (disk : ℕ → Buffer) (block : ℕ) (data buf : Buffer) :
    deviceWrite geo disk block (store (bytesOf geo.bytesPerSector data) buf) =
      deviceWrite geo disk block data := by
  unfold deviceWrite
  congr 1
  funext i
  split_ifs with hi
  · simp [store, bytesOf, hi]
  · rfl

variable (geo host) in
theorem turn_receiving {s : Mstorage} (hs : Idle s) (buf : Buffer) (disk : ℕ → Buffer)
    (block reside : ℕ) (sent : List UInt8) (accepted : ℕ) (csws : List Csw) :
    ∃ buf', turn geo host ⟨receiving geo s buf disk block reside, sent, accepted, csws⟩ =
      some ⟨if sub32 reside geo.bytesPerSector ≠ 0 then
          receiving geo s buf' (deviceWrite geo disk block fun i => host (accepted + i))
            (add32 block 1) (sub32 reside geo.bytesPerSector)
        else
          sendStatus (sectorsStored geo s buf'
            (deviceWrite geo disk block fun i => host (accepted + i)) block
            (sub32 reside geo.bytesPerSector)), sent, accepted + geo.bytesPerSector, csws⟩ := by
  refine ⟨store (bytesOf geo.bytesPerSector fun i => host (accepted + i)) buf, ?_⟩
  rw [← deviceWrite_store disk block _ buf]
  have hlen := bytesOf_length geo.bytesPerSector fun i => host (accepted + i)
  obtain ⟨csw, ⟨ibuf, isize, istalled, ilist, istarted⟩, ⟨obuf, osize, ostalled, olist, ostarted⟩,
    stat, dataSize, disk', block', count, processing, cmdData, halted⟩ := s
  obtain ⟨⟨rfl, rfl, rfl, rfl, rfl⟩, rfl, rfl⟩ := hs
  change some (acceptData geo host _ geo.bytesPerSector []) = _
  unfold acceptData receive
  rw [hlen]
  rfl

variable (host) in
theorem receiving_served {s : Mstorage} (hs : Idle s) (buf : Buffer) (disk : ℕ → Buffer)
    (block : ℕ) {n : ℕ} (hn : 0 < n) (hlt : n * geo.bytesPerSector < 4294967296) (sent : List UInt8)
    (accepted : ℕ) (csws : List Csw) : ∃ y, Served geo host
        ⟨receiving geo s buf disk block (n * geo.bytesPerSector), sent, accepted, csws⟩ y ∧
      y.sent = sent ∧ y.accepted = accepted + n * geo.bytesPerSector ∧
      y.csws = csws ++ [{ s.cswResponse with dataReside := 0 }] ∧
      y.func.disk = storeSectors geo n disk block fun i => host (accepted + i) := by
  have hpos : 0 < geo.bytesPerSector := (by decide : 0 < SIZEOF_CBW).trans_le geo.cbw_le
  induction n generalizing buf disk block accepted with
  | zero => cases hn
  | succ n ih =>
    obtain ⟨buf', hturn⟩ := turn_receiving geo host hs buf disk block
      ((n + 1) * geo.bytesPerSector) sent accepted csws
    have hsub : sub32 ((n + 1) * geo.bytesPerSector) geo.bytesPerSector =
        n * geo.bytesPerSector := by
      rw [sub32_eq_of_le (Nat.le_mul_of_pos_left _ hn) hlt, Nat.succ_mul]
      lia
    rw [hsub, succ_mul] at hturn
    rw [succ_mul] at hlt ⊢
    rcases Nat.eq_zero_or_pos n with rfl | hn'
    · rw [if_neg (by simp)] at hturn
      refine ⟨_, .head hturn (sendStatus_served (sectorsStored_quiet hs _ _ _ _) _ _ _), rfl,
        ?_, ?_, rfl⟩
      · simp
      · simp [sectorsStored, receiving]
    · rw [if_pos (mul_pos hn' hpos).ne'] at hturn
      obtain ⟨y, hserved, hsent, haccepted, hcsws, hdisk⟩ :=
        ih buf' (deviceWrite geo disk block fun i => host (accepted + i)) (add32 block 1) hn'
          (by lia) (accepted + geo.bytesPerSector)
      refine ⟨y, .head hturn hserved, hsent, ?_, hcsws, ?_⟩
      · rw [haccepted]
        lia
      · rw [hdisk, storeSectors]
        simp only [add_assoc]

variable (host) in
theorem receiving_overrun {s : Mstorage} (hs : Idle s) (buf : Buffer) (disk : ℕ → Buffer)
    (block : ℕ) {reside : ℕ} (hreside : reside < 4294967296)
    (hpart : reside = 0 ∨ reside % geo.bytesPerSector ≠ 0) (sent : List UInt8) (accepted : ℕ)
    (csws : List Csw) : ∃ y, Reaches (turn geo host)
        ⟨receiving geo s buf disk block reside, sent, accepted, csws⟩ y ∧
      accepted + reside < y.accepted := by
  have hpos : 0 < geo.bytesPerSector := (by decide : 0 < SIZEOF_CBW).trans_le geo.cbw_le
  induction hq : reside / geo.bytesPerSector generalizing buf disk block reside accepted with
  | zero =>
    have hlt : reside < geo.bytesPerSector := by
      simpa [div_eq_zero_iff, hpos.ne'] using hq
    obtain ⟨buf', hturn⟩ := turn_receiving geo host hs buf disk block reside sent accepted csws
    exact ⟨_, .single hturn, by simpa using hlt⟩
  | succ q ih =>
    have hle : geo.bytesPerSector ≤ reside := (Nat.div_pos_iff.mp (by lia)).2
    have hmod : reside % geo.bytesPerSector =
        (reside - geo.bytesPerSector) % geo.bytesPerSector := mod_eq_sub_mod hle
    have hdiv := div_eq_sub_div hpos hle
    have hrest : (reside - geo.bytesPerSector) % geo.bytesPerSector ≠ 0 := by
      rw [← hmod]
      exact hpart.resolve_left (by lia)
    have hne : reside - geo.bytesPerSector ≠ 0 := by
      intro h
      exact hrest (by rw [h, zero_mod])
    have hless : reside - geo.bytesPerSector < 4294967296 := by lia
    obtain ⟨buf', hturn⟩ := turn_receiving geo host hs buf disk block reside sent accepted csws
    rw [sub32_eq_of_le hle hreside, if_pos hne] at hturn
    obtain ⟨y, hreach, hlt⟩ := ih buf' (deviceWrite geo disk block fun i => host (accepted + i))
      (add32 block 1) (hless : reside - geo.bytesPerSector < 4294967296) (.inr hrest)
      (accepted + geo.bytesPerSector) (by lia)
    exact ⟨y, .head hturn hreach, by lia⟩

end RtThread.UsbStorage
