import RtThread.ZmodemHeaders

/-!
# Sending a file by ZMODEM

`zsend_file` offers the file until the other side asks for its data, and
`zsend_file_data` transmits the data from the position asked for up to the end of the file,
then waits for the next request.  Between two headers from the other side the
sender runs without waiting, so a run is a list of received headers.
-/

namespace RtThread.Zmodem

open List

/-! ## The sender -/

def ZRINIT : Byte := 1
def ZFILE : Byte := 4
def ZSKIP : Byte := 5
def ZNAK : Byte := 6
def ZABORT : Byte := 7
def ZRPOS : Byte := 9
def ZDATA : Byte := 10
def ZEOF : Byte := 11
def ZCRC : Byte := 13
def TIMEOUT : ℤ := -2
def RT_EOK : ℤ := 0
def RX_BUFFER_SIZE : ℕ := 1024

structure FileData where
  bytes : List Byte
  size_lt : bytes.length < 2147483648

inductive Sent where
  | header (type : Byte) (hdr : List Byte)
  | data (block : List Byte) (frameend : Byte)
  deriving DecidableEq

/-- What `zget_header` returns and leaves in `rx_header`.  `padFollows` tells whether the
characters behind it reach a `ZPAD` before one that is not positive. -/
structure ReceivedHeader where
  res : ℤ
  rxHeader : List Byte
  padFollows : Bool

/-- Where the sender waits for a header: in the round `cnt` of `zsend_file`, or in `zget_sync`
called by `zsend_file_data`. -/
inductive SendStage where
  | offering (cnt : ℕ)
  | syncing
  | returned (res : ℤ)
  deriving DecidableEq

structure ZSender where
  offset : ℕ
  rxpos : BitVec 32
  txpos : BitVec 32
  txHeader : List Byte
  stage : SendStage
  sent : List Sent

namespace ZSender

def binHeader (type : Byte) (s : ZSender) : ZSender :=
  { s with sent := s.sent ++ [.header type s.txHeader] }

def binData (block : List Byte) (frameend : Byte) (s : ZSender) : ZSender :=
  { s with sent := s.sent ++ [.data block frameend] }

def putPos (pos : BitVec 32) (s : ZSender) : ZSender :=
  { s with txHeader := zputPos pos }

/-- `zget_pos(Rxpos); Txpos = Rxpos;` -/
def getPos (rxHeader : List Byte) (s : ZSender) : ZSender :=
  { s with rxpos := zgetPos rxHeader, txpos := zgetPos rxHeader }

/-- `lseek(zf->fd, pos, 0)`: a negative offset is refused. -/
def lseek (pos : BitVec 32) (s : ZSender) : ZSender :=
  if pos.toInt < 0 then s else { s with offset := pos.toNat }

def zfillBuffer (file : FileData) (size : ℕ) (s : ZSender) : List Byte × ZSender :=
  let block := (file.bytes.drop s.offset).take size
  (block, { s with offset := s.offset + block.length })

/-- A round of the loop of `zsend_file_data`: the number of bytes read and the next state. -/
def sendBlock (file : FileData) (s : ZSender) : ℕ × ZSender :=
  let (block, s) := s.zfillBuffer file RX_BUFFER_SIZE
  let cmd := if block.length < RX_BUFFER_SIZE then ZCRCE else ZCRCG
  let s := s.binData block cmd
  (block.length, { s with txpos := s.txpos + BitVec.ofNat 32 block.length })

def sendBlocks (file : FileData) (s : ZSender) : ZSender :=
  if (s.sendBlock file).1 = RX_BUFFER_SIZE then sendBlocks file (s.sendBlock file).2
  else (s.sendBlock file).2
termination_by file.bytes.length - s.offset
decreasing_by
  rename_i hfull
  simp only [sendBlock, zfillBuffer, binData, RX_BUFFER_SIZE, length_take,
    length_drop] at hfull ⊢
  lia

def sendEof (s : ZSender) : ZSender :=
  { (s.putPos s.txpos).binHeader ZEOF with stage := .syncing }

def startSend (file : FileData) (s : ZSender) : ZSender :=
  (((s.putPos s.txpos).binHeader ZDATA).sendBlocks file).sendEof

def fileFlags : List Byte := [0, 0, 0, 0x2b]

/-- The head of the loop of `zsend_file`; `info` is what it sends about the file. -/
def offerFile (info : List Byte) (cnt : ℕ) (res : ℤ) (s : ZSender) : ZSender :=
  if cnt < 5 then
    { (({ s with txHeader := fileFlags }.binHeader ZFILE).binData info ZCRCW) with
      stage := .offering cnt }
  else { s with stage := .returned res }

def onOffer (file : FileData) (info : List Byte) (cnt : ℕ) (r : ReceivedHeader)
    (s : ZSender) : ZSender :=
  if r.res = ZRINIT.toNat then
    if r.padFollows then s else s.offerFile info (cnt + 1) 0
  else if r.res = ZCRC.toNat then s
  else if r.res = ZRPOS.toNat then (s.getPos r.rxHeader).startSend file
  else s.offerFile info (cnt + 1) r.res

/-- One header in `zget_sync`: its result, unless it waits for another header. -/
def zgetSync (r : ReceivedHeader) (s : ZSender) : Option ℤ × ZSender :=
  if r.res = ZCAN ∨ r.res = ZABORT.toNat ∨ r.res = ZFIN.toNat ∨ r.res = TIMEOUT then
    (some (-RT_ERROR), s)
  else if r.res = ZRPOS.toNat then (some r.res, s.getPos r.rxHeader)
  else if r.res = ZACK.toNat ∨ r.res = ZRINIT.toNat ∨ r.res = ZSKIP.toNat then (some r.res, s)
  else (none, s.binHeader ZNAK)

def afterSync (file : FileData) (res : ℤ) (s : ZSender) : ZSender :=
  if res = ZACK.toNat then s
  else if res = ZNAK.toNat then s.sendEof
  else if res = ZRPOS.toNat then (s.lseek s.txpos).startSend file
  else if res = ZRINIT.toNat then { s with stage := .returned RT_EOK }
  else { s with stage := .returned res }

def onSync (file : FileData) (r : ReceivedHeader) (s : ZSender) : ZSender :=
  match (s.zgetSync r).1 with
  | some res => (s.zgetSync r).2.afterSync file res
  | none => (s.zgetSync r).2

def receive (file : FileData) (info : List Byte) (s : ZSender) (r : ReceivedHeader) : ZSender :=
  match s.stage with
  | .offering cnt => s.onOffer file info cnt r
  | .syncing => s.onSync file r
  | .returned _ => s

def opened (rxpos txpos : BitVec 32) (txHeader : List Byte) : ZSender where
  offset := 0
  rxpos := rxpos
  txpos := txpos
  txHeader := txHeader
  stage := .returned (-RT_ERROR)
  sent := []

def zsendFile (file : FileData) (info : List Byte) (s : ZSender)
    (headers : List ReceivedHeader) : ZSender :=
  headers.foldl (receive file info) (s.offerFile info 0 (-RT_ERROR))

end ZSender

/-! ## Labels -/

def Sent.announces (pos : Option ℕ) : Sent → Option ℕ
  | .header type hdr => if type = ZDATA then some (zgetPos hdr).toNat else
      if type = ZEOF then none else pos
  | .data block _ => pos.map (· + block.length)

/-- A subpacket behind a `ZDATA` header has the bytes of the file from the announced position
on, and `ZEOF` has the end of the file. -/
def Sent.Fits (file : FileData) (pos : Option ℕ) : Sent → Prop
  | .header type hdr => type = ZEOF → (zgetPos hdr).toNat = file.bytes.length
  | .data block _ => ∀ p ∈ pos, block <+: file.bytes.drop p

def Labelled (file : FileData) : Option ℕ → List Sent → Prop
  | _, [] => True
  | pos, item :: sent => item.Fits file pos ∧ Labelled file (item.announces pos) sent

/-- A request that the sender serves: the first one asks for the whole file, a later one for
a position up to its end. -/
def ZSender.Serves (file : FileData) (s : ZSender) (r : ReceivedHeader) : Prop :=
  r.res = ZRPOS.toNat → match s.stage with
    | .offering _ => zgetPos r.rxHeader = 0
    | .syncing => (zgetPos r.rxHeader).toNat ≤ file.bytes.length
    | .returned _ => True

def ZSender.RunServes (file : FileData) (info : List Byte) : ZSender → List ReceivedHeader → Prop
  | _, [] => True
  | s, r :: headers =>
    s.Serves file r ∧ ZSender.RunServes file info (s.receive file info r) headers

/-! ## Runs of subpackets -/

section Blocks

variable {file : FileData} {pos : Option ℕ} {sent sent' : List Sent} {s : ZSender}

theorem labelled_append : Labelled file pos (sent ++ sent') ↔
      Labelled file pos sent ∧ Labelled file (sent.foldl Sent.announces pos) sent' := by
  induction sent generalizing pos with
  | nil => simp [Labelled]
  | cons item sent ih => simp only [cons_append, Labelled, foldl_cons, ih, and_assoc]

/-- The sender goes on to the end of the file, block by block. -/
theorem ZSender.sendBlocks_spec (file : FileData) (s : ZSender) : ∃ blocks, s.sendBlocks file =
        { s with
          offset := max s.offset file.bytes.length
          txpos := s.txpos + BitVec.ofNat 32 (file.bytes.length - s.offset)
          sent := s.sent ++ blocks } ∧
      Labelled file (some s.offset) blocks := by
  have hfits : ∀ (s : ZSender) (frameend : Byte),
      (Sent.data ((file.bytes.drop s.offset).take RX_BUFFER_SIZE) frameend).Fits file
        (some s.offset) := by
    rintro s frameend p ⟨⟩
    exact take_prefix _ _
  induction s using ZSender.sendBlocks.induct file with
  | case1 s hfull ih =>
    have hlength : RX_BUFFER_SIZE ≤ file.bytes.length - s.offset := by
      simp only [sendBlock, zfillBuffer, length_take, length_drop] at hfull
      lia
    obtain ⟨blocks, heq, hlabelled⟩ := ih
    have hcnt : ((file.bytes.drop s.offset).take RX_BUFFER_SIZE).length = RX_BUFFER_SIZE := hfull
    refine ⟨.data ((file.bytes.drop s.offset).take RX_BUFFER_SIZE) ZCRCG :: blocks, ?_, ?_⟩
    · rw [sendBlocks, if_pos hfull, heq]
      have hrest : BitVec.ofNat 32 RX_BUFFER_SIZE +
          BitVec.ofNat 32 (file.bytes.length - (s.offset + RX_BUFFER_SIZE)) =
          BitVec.ofNat 32 (file.bytes.length - s.offset) := by
        have hsum : RX_BUFFER_SIZE + (file.bytes.length - (s.offset + RX_BUFFER_SIZE)) =
            file.bytes.length - s.offset := by lia
        exact (BitVec.ofNat_add _ _).symm.trans (congrArg (BitVec.ofNat 32) hsum)
      simp only [sendBlock, zfillBuffer, binData, hcnt, lt_irrefl, if_false, append_assoc,
        cons_append, nil_append, BitVec.add_assoc, hrest]
      congr 1
      lia
    · simp only [sendBlock, zfillBuffer, binData, hcnt] at hlabelled
      refine ⟨hfits s ZCRCG, ?_⟩
      simpa [Sent.announces, hcnt] using hlabelled
  | case2 s hlast =>
    have hlength : file.bytes.length - s.offset < RX_BUFFER_SIZE := by
      simp only [sendBlock, zfillBuffer, length_take, length_drop] at hlast
      lia
    have hcnt : ((file.bytes.drop s.offset).take RX_BUFFER_SIZE).length =
        file.bytes.length - s.offset := by
      rw [length_take, length_drop]
      lia
    refine ⟨[.data ((file.bytes.drop s.offset).take RX_BUFFER_SIZE) ZCRCE], ?_, hfits s ZCRCE,
      trivial⟩
    rw [sendBlocks, if_neg hlast]
    simp only [sendBlock, zfillBuffer, binData, hcnt, if_pos hlength]
    congr 1
    lia

theorem ZSender.startSend_spec (file : FileData) (s : ZSender) :
    ∃ blocks, Labelled file (some s.offset) blocks ∧ s.startSend file =
        { s with
          offset := max s.offset file.bytes.length
          txpos := s.txpos + BitVec.ofNat 32 (file.bytes.length - s.offset)
          txHeader := zputPos (s.txpos + BitVec.ofNat 32 (file.bytes.length - s.offset))
          stage := .syncing
          sent := s.sent ++ (.header ZDATA (zputPos s.txpos) :: blocks ++
            [.header ZEOF (zputPos (s.txpos + BitVec.ofNat 32 (file.bytes.length - s.offset)))]) } := by
  obtain ⟨blocks, heq, hlabelled⟩ := ZSender.sendBlocks_spec file ((s.putPos s.txpos).binHeader ZDATA)
  refine ⟨blocks, hlabelled, ?_⟩
  rw [startSend, heq]
  simp [sendEof, putPos, binHeader]

end Blocks

/-! ## Whole runs -/

/-- Between two waits the descriptor is where the sender left it: at the start of the file until
the first request, and then at its end. -/
structure SenderInv (file : FileData) (s : ZSender) : Prop where
  labelled : Labelled file none s.sent
  settled : s.sent.foldl Sent.announces none = none
  offering : ∀ cnt, s.stage = .offering cnt → s.offset = 0
  syncing : s.stage = .syncing → s.offset = file.bytes.length

namespace SenderInv

variable {file : FileData} {info : List Byte} {s : ZSender} {cnt : ℕ}
  {res : ℤ}

theorem startSend (hsent : Labelled file none s.sent)
    (hsettled : s.sent.foldl Sent.announces none = none) (hpos : s.txpos.toNat = s.offset)
    (hle : s.offset ≤ file.bytes.length) : SenderInv file (s.startSend file) := by
  obtain ⟨blocks, hlabelled, heq⟩ := ZSender.startSend_spec file s
  have hend : (s.txpos + BitVec.ofNat 32 (file.bytes.length - s.offset)).toNat =
      file.bytes.length := by
    have hsize := file.size_lt
    rw [BitVec.toNat_add, BitVec.toNat_ofNat, hpos]
    omega
  rw [heq]
  constructor
  · refine labelled_append.mpr ⟨hsent, ?_⟩
    rw [hsettled]
    refine labelled_append.mpr ⟨⟨nofun, ?_⟩, ?_, trivial⟩
    · rwa [Sent.announces, if_pos rfl, zgetPos_zputPos, hpos]
    · intro _
      rw [zgetPos_zputPos, hend]
  · rw [foldl_append, foldl_append]
    rfl
  · intro _ h
    cases h
  · intro _
    exact max_eq_right hle

theorem binHeader {type : Byte} (hinv : SenderInv file s) (hdata : type ≠ ZDATA)
    (heof : type ≠ ZEOF) : SenderInv file (s.binHeader type) := by
  constructor
  · refine labelled_append.mpr ⟨hinv.labelled, fun h => absurd h heof, trivial⟩
  · rw [ZSender.binHeader, foldl_append, hinv.settled]
    simp [Sent.announces, hdata, heof]
  · exact hinv.offering
  · exact hinv.syncing

theorem returned (hinv : SenderInv file s) : SenderInv file { s with stage := .returned res } :=
  ⟨hinv.labelled, hinv.settled, nofun,
    nofun⟩

theorem offerFile (hinv : SenderInv file s) (hoffset : s.offset = 0) :
    SenderInv file (s.offerFile info cnt res) := by
  unfold ZSender.offerFile
  split_ifs with hcnt
  · constructor
    · refine labelled_append.mpr ⟨labelled_append.mpr ⟨hinv.labelled,
        nofun, trivial⟩, ?_, trivial⟩
      simp only [ZSender.binHeader, foldl_append, hinv.settled]
      rintro p ⟨⟩
    · simp only [ZSender.binData, ZSender.binHeader, foldl_append, hinv.settled]
      rfl
    · exact fun _ _ => hoffset
    · exact nofun
  · exact hinv.returned

end SenderInv

/-! ## The answers to a header -/

section Answers

variable {file : FileData} {info : List Byte} {s : ZSender} {r : ReceivedHeader} {cnt : ℕ}

theorem onOffer_of_request (hres : r.res = ZRPOS.toNat) :
    s.onOffer file info cnt r = (s.getPos r.rxHeader).startSend file := by
  simp [ZSender.onOffer, hres, ZRINIT, ZCRC, ZRPOS]

theorem onOffer_of_other (file : FileData) (info : List Byte) (cnt : ℕ) (s : ZSender)
    (hres : r.res ≠ ZRPOS.toNat) : s.onOffer file info cnt r = s ∨
      ∃ res, s.onOffer file info cnt r = s.offerFile info (cnt + 1) res := by
  unfold ZSender.onOffer
  rw [if_neg hres]
  split_ifs
  · exact .inl rfl
  · exact .inr ⟨_, rfl⟩
  · exact .inl rfl
  · exact .inr ⟨_, rfl⟩

theorem onSync_of_request (hres : r.res = ZRPOS.toNat) : s.onSync file r =
      ((s.getPos r.rxHeader).lseek (zgetPos r.rxHeader)).startSend file := by
  simp [ZSender.onSync, ZSender.zgetSync, ZSender.afterSync, ZSender.getPos, hres, ZCAN, ZABORT,
    ZFIN, TIMEOUT, ZRPOS, ZACK, ZNAK]

theorem onSync_of_other (file : FileData) (s : ZSender) (hres : r.res ≠ ZRPOS.toNat) :
    s.onSync file r = s ∨ s.onSync file r = s.binHeader ZNAK ∨
      ∃ res, s.onSync file r = { s with stage := .returned res } := by
  unfold ZSender.onSync ZSender.zgetSync
  rw [if_neg hres]
  split_ifs with hstop hanswer
  · exact .inr (.inr ⟨-RT_ERROR, rfl⟩)
  · rcases hanswer with hack | hinit | hskip
    · exact .inl (by simp [ZSender.afterSync, hack])
    · exact .inr (.inr ⟨RT_EOK, by
        simp [ZSender.afterSync, hinit, ZACK, ZNAK, ZRPOS, ZRINIT]⟩)
    · exact .inr (.inr ⟨ZSKIP.toNat, by
        simp [ZSender.afterSync, hskip, ZACK, ZNAK, ZRPOS, ZRINIT, ZSKIP]⟩)
  · exact .inr (.inl rfl)

theorem sent_prefix_receive : s.sent <+: (s.receive file info r).sent := by
  have hstart : ∀ next : ZSender, next.sent = s.sent → s.sent <+: (next.startSend file).sent := by
    intro next hnext
    obtain ⟨blocks, _, heq⟩ := ZSender.startSend_spec file next
    rw [heq, hnext]
    exact prefix_append _ _
  have hlseek : ∀ (pos : BitVec 32) (next : ZSender), (next.lseek pos).sent = next.sent := by
    intro pos next
    unfold ZSender.lseek
    split_ifs <;> rfl
  unfold ZSender.receive
  cases s.stage with
  | offering cnt =>
    by_cases hres : r.res = ZRPOS.toNat
    · simp only [onOffer_of_request hres]
      exact hstart _ rfl
    · rcases onOffer_of_other file info cnt s hres with heq | ⟨res, heq⟩
      · simp only [heq, prefix_rfl]
      · simp only [heq, ZSender.offerFile]
        split_ifs
        · exact (prefix_append _ _).trans (prefix_append _ _)
        · exact prefix_rfl
  | syncing =>
    by_cases hres : r.res = ZRPOS.toNat
    · simp only [onSync_of_request hres]
      exact hstart _ (hlseek _ _)
    · rcases onSync_of_other file s hres with heq | heq | ⟨res, heq⟩
      · simp only [heq, prefix_rfl]
      · simp only [heq]
        exact prefix_append _ _
      · simp only [heq, prefix_rfl]
  | returned res => exact prefix_rfl

theorem sent_prefix_foldl (headers : List ReceivedHeader) :
    s.sent <+: (headers.foldl (ZSender.receive file info) s).sent := by
  induction headers generalizing s with
  | nil => exact prefix_rfl
  | cons r headers ih => exact sent_prefix_receive.trans ih

theorem Labelled.of_prefix {pos : Option ℕ} {sent sent' : List Sent}
    (hlabelled : Labelled file pos sent') (hinitial : sent <+: sent') : Labelled file pos sent := by
  obtain ⟨rest, rfl⟩ := hinitial
  exact (labelled_append.mp hlabelled).1

theorem eof_of_startSend (hlabelled : Labelled file none (s.startSend file).sent) :
    (s.txpos.toNat + (file.bytes.length - s.offset)) % 4294967296 = file.bytes.length := by
  obtain ⟨blocks, _, heq⟩ := ZSender.startSend_spec file s
  rw [heq] at hlabelled
  have heof := (labelled_append.mp (labelled_append.mp hlabelled).2).2.1 rfl
  rw [zgetPos_zputPos, BitVec.toNat_add, BitVec.toNat_ofNat] at heof
  omega

end Answers

namespace SenderInv

variable {file : FileData} {info : List Byte} {s : ZSender} {r : ReceivedHeader}

theorem receive (hinv : SenderInv file s) (hserves : s.Serves file r) :
    SenderInv file (s.receive file info r) := by
  unfold ZSender.Serves at hserves
  unfold ZSender.receive
  cases hstage : s.stage with
  | offering cnt =>
    have hoffset := hinv.offering cnt hstage
    by_cases hres : r.res = ZRPOS.toNat
    · simp only [hres, hstage, forall_const] at hserves
      simp only [onOffer_of_request hres]
      refine startSend (s := s.getPos r.rxHeader) hinv.labelled hinv.settled ?_ ?_
      · simp [ZSender.getPos, hserves, hoffset]
      · simp [ZSender.getPos, hoffset]
    · rcases onOffer_of_other file info cnt s hres with heq | ⟨res, heq⟩
      · simp only [heq, hinv]
      · simp only [heq]
        exact hinv.offerFile hoffset
  | syncing =>
    by_cases hres : r.res = ZRPOS.toNat
    · simp only [hres, hstage, forall_const] at hserves
      have hsize := file.size_lt
      have hseek : (s.getPos r.rxHeader).lseek (zgetPos r.rxHeader) =
          { s.getPos r.rxHeader with offset := (zgetPos r.rxHeader).toNat } := by
        rw [ZSender.lseek, BitVec.toInt_eq_toNat_of_lt (by omega), if_neg (by omega)]
      simp only [onSync_of_request hres, hseek]
      exact startSend hinv.labelled hinv.settled rfl hserves
    · rcases onSync_of_other file s hres with heq | heq | ⟨res, heq⟩
      · simp only [heq, hinv]
      · simp only [heq]
        exact hinv.binHeader (by decide) (by decide)
      · simp only [heq]
        exact hinv.returned
  | returned res => exact hinv

theorem serves_of_labelled (hinv : SenderInv file s)
    (hlabelled : Labelled file none (s.receive file info r).sent) : s.Serves file r := by
  have hlt := (zgetPos r.rxHeader).isLt
  intro hres
  unfold ZSender.receive at hlabelled
  cases hstage : s.stage with
  | offering cnt =>
    simp only [hstage, onOffer_of_request hres] at hlabelled
    have heof := eof_of_startSend hlabelled
    have hoffset : (s.getPos r.rxHeader).offset = 0 := hinv.offering cnt hstage
    have htxpos : (s.getPos r.rxHeader).txpos = zgetPos r.rxHeader := rfl
    rw [hoffset, htxpos] at heof
    apply BitVec.eq_of_toNat_eq
    change (zgetPos r.rxHeader).toNat = 0
    lia
  | syncing =>
    simp only [hstage, onSync_of_request hres] at hlabelled
    have heof := eof_of_startSend hlabelled
    have htxpos : ((s.getPos r.rxHeader).lseek (zgetPos r.rxHeader)).txpos =
        zgetPos r.rxHeader := by
      unfold ZSender.lseek
      split_ifs <;> rfl
    by_contra hbeyond
    rw [htxpos] at heof
    lia
  | returned res => trivial

end SenderInv

/-- Every subpacket and every `ZEOF` header is labelled correctly if and only if the requests
are those which the sender serves. -/
theorem labelled_iff_runServes (file : FileData) (info : List Byte) (rxpos txpos : BitVec 32)
    (txHeader : List Byte) (headers : List ReceivedHeader) :
    Labelled file none ((ZSender.opened rxpos txpos txHeader).zsendFile file info headers).sent ↔
      ZSender.RunServes file info
        ((ZSender.opened rxpos txpos txHeader).offerFile info 0 (-RT_ERROR)) headers := by
  have hopened : SenderInv file (ZSender.opened rxpos txpos txHeader) :=
    ⟨trivial, rfl, nofun,
      nofun⟩
  have hrun : ∀ s : ZSender, SenderInv file s →
      (Labelled file none (headers.foldl (ZSender.receive file info) s).sent ↔
        ZSender.RunServes file info s headers) := by
    induction headers with
    | nil => exact fun s hinv => iff_of_true hinv.labelled trivial
    | cons r headers ih =>
      intro s hinv
      rw [foldl_cons, ZSender.RunServes]
      constructor
      · intro hlabelled
        have hserves := hinv.serves_of_labelled (hlabelled.of_prefix (sent_prefix_foldl headers))
        exact ⟨hserves, (ih _ (hinv.receive hserves)).mp hlabelled⟩
      · rintro ⟨hserves, hrest⟩
        exact (ih _ (hinv.receive hserves)).mpr hrest
  exact hrun _ (hopened.offerFile rfl)

/-! ## Two short runs -/

def sampleFile : FileData := ⟨[0x61, 0x62], by decide⟩

def sampleSender : ZSender := (ZSender.opened 0 0 [0, 0, 0, 0]).offerFile [] 0 (-RT_ERROR)

theorem startSend_sampleFile (s : ZSender) : s.startSend sampleFile =
      (((s.putPos s.txpos).binHeader ZDATA).sendBlock sampleFile).2.sendEof := by
  have hlast : ∀ s : ZSender, (s.sendBlock sampleFile).1 ≠ RX_BUFFER_SIZE := by
    intro s hfull
    simp only [ZSender.sendBlock, ZSender.zfillBuffer, length_take, length_drop,
      RX_BUFFER_SIZE, sampleFile, length_cons, length_nil] at hfull
    omega
  rw [ZSender.startSend, ZSender.sendBlocks, if_neg (hlast _)]

/-- The receiver resumes the file behind its first byte: the whole file is sent as if it started
there.  And a request for a position behind the end gives a `ZEOF` header with that position. -/
theorem not_labelled_of_resume :
    (((ZSender.opened 0 0 [0, 0, 0, 0]).zsendFile sampleFile [] [⟨9, zputPos 1, false⟩]).sent.drop 2 =
        [.header ZDATA (zputPos 1), .data [0x61, 0x62] ZCRCE, .header ZEOF (zputPos 3)] ∧
      ¬ Labelled sampleFile none
        ((ZSender.opened 0 0 [0, 0, 0, 0]).zsendFile sampleFile [] [⟨9, zputPos 1, false⟩]).sent) ∧
    ((ZSender.opened 0 0 [0, 0, 0, 0]).zsendFile sampleFile []
          [⟨9, zputPos 0, false⟩, ⟨9, zputPos 5, false⟩]).sent.drop 5 =
        [.header ZDATA (zputPos 5), .data [] ZCRCE, .header ZEOF (zputPos 5)] ∧
      ¬ Labelled sampleFile none ((ZSender.opened 0 0 [0, 0, 0, 0]).zsendFile sampleFile []
        [⟨9, zputPos 0, false⟩, ⟨9, zputPos 5, false⟩]).sent := by
  have hfirst : ∀ pos, sampleSender.receive sampleFile [] ⟨9, zputPos pos, false⟩ =
      (((((sampleSender.getPos (zputPos pos)).putPos (zgetPos (zputPos pos))).binHeader
        ZDATA).sendBlock sampleFile).2).sendEof := fun _ =>
    (onOffer_of_request rfl).trans (startSend_sampleFile _)
  have hsecond : ((ZSender.opened 0 0 [0, 0, 0, 0]).zsendFile sampleFile []
      [⟨9, zputPos 0, false⟩, ⟨9, zputPos 5, false⟩]).sent =
      [.header ZFILE ZSender.fileFlags, .data [] ZCRCW, .header ZDATA (zputPos 0),
        .data [0x61, 0x62] ZCRCE, .header ZEOF (zputPos 2), .header ZDATA (zputPos 5),
        .data [] ZCRCE, .header ZEOF (zputPos 5)] := by
    change ((sampleSender.receive sampleFile [] ⟨9, zputPos 0, false⟩).receive sampleFile []
      ⟨9, zputPos 5, false⟩).sent = _
    rw [hfirst]
    change (ZSender.onSync sampleFile ⟨9, zputPos 5, false⟩ _).sent = _
    rw [onSync_of_request rfl, startSend_sampleFile]
    decide
  have honce : ((ZSender.opened 0 0 [0, 0, 0, 0]).zsendFile sampleFile []
      [⟨9, zputPos 1, false⟩]).sent =
      [.header ZFILE ZSender.fileFlags, .data [] ZCRCW, .header ZDATA (zputPos 1),
        .data [0x61, 0x62] ZCRCE, .header ZEOF (zputPos 3)] := by
    change (sampleSender.receive sampleFile [] ⟨9, zputPos 1, false⟩).sent = _
    rw [hfirst]
    decide
  rw [honce, hsecond]
  refine ⟨⟨rfl, fun hlabelled => ?_⟩, rfl, fun hlabelled => ?_⟩
  · have hend := hlabelled.2.2.2.2.1 rfl
    rw [zgetPos_zputPos] at hend
    cases hend
  · have hend := hlabelled.2.2.2.2.2.2.2.1 rfl
    rw [zgetPos_zputPos] at hend
    cases hend

end RtThread.Zmodem
