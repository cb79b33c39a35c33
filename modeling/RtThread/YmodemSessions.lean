import RtThread.YmodemModel

/-!
# YMODEM sessions on a line that loses acknowledgements

The sender repeats a packet until it hears that the packet has been received, and then
sends the next one.  It is a function of what it hears, so a session is given by the packets,
by which acknowledgements are heard, and by the time at which the bytes arrive.
-/

namespace RtThread.Ymodem

open List

structure Packet where
  data : List Byte
  size : data.length = 128 ∨ data.length = 1024

def Packet.encode (p : Packet) (number : ℕ) : List Byte :=
  [if p.data.length = 128 then RYM_CODE_SOH else RYM_CODE_STX,
    BitVec.ofNat 8 number, ~~~(BitVec.ofNat 8 number)] ++ p.data ++
    [(crc16 p.data >>> 8).setWidth 8, (crc16 p.data).setWidth 8]

/-- What is transmitted when `heard` tells which acknowledgements arrive intact; a sender which
hears nothing any more stops. -/
def transmissions {α : Type} : List α → List Bool → List α
  | [], _ => []
  | _ :: _, [] => []
  | p :: rest, true :: heard => p :: transmissions rest heard
  | p :: rest, false :: heard => p :: transmissions (p :: rest) heard

def Completes {α : Type} : List α → List Bool → Prop
  | [], _ => True
  | _ :: _, [] => False
  | _ :: rest, true :: heard => Completes rest heard
  | p :: rest, false :: heard => Completes (p :: rest) heard

def senderBytes : List (Packet × ℕ) → List Bool → List Byte → List Byte
  | [], _, closing => closing
  | _ :: _, [], _ => []
  | p :: rest, true :: heard, closing => p.1.encode p.2 ++ senderBytes rest heard closing
  | p :: rest, false :: heard, closing => p.1.encode p.2 ++ senderBytes (p :: rest) heard closing

def numbered (header : Packet) (packets : List Packet) : List (Packet × ℕ) :=
  (header, 0) :: packets.zipIdx 1

/-- No acknowledgement of the first `n` is lost. -/
def AllHeard (n : ℕ) (heard : List Bool) : Prop := ∀ b ∈ heard.take n, b = true

section Transmissions

variable {α : Type} {ps : List α} {heard : List Bool}

theorem transmissions_of_allHeard (hcompletes : Completes ps heard)
    (hall : AllHeard ps.length heard) : transmissions ps heard = ps := by
  induction ps generalizing heard with
  | nil => rw [transmissions]
  | cons p ps ih =>
    cases heard with
    | nil => exact hcompletes.elim
    | cons b heard =>
      have hb : b = true := hall b (by simp)
      subst hb
      rw [transmissions, ih hcompletes]
      intro b hb
      exact hall b (by simp [hb])

theorem length_transmissions (hcompletes : Completes ps heard) :
    ps.length ≤ (transmissions ps heard).length ∧
      ((transmissions ps heard).length ≤ ps.length → AllHeard ps.length heard) := by
  induction ps, heard using transmissions.induct with
  | case1 heard => exact ⟨Nat.zero_le _, fun _ b hb => absurd hb (by simp)⟩
  | case2 p ps => exact hcompletes.elim
  | case3 p ps heard ih =>
    obtain ⟨hle, hall⟩ := ih hcompletes
    refine ⟨Nat.succ_le_succ hle, fun hlength b hb => ?_⟩
    rcases mem_cons.mp hb with rfl | hb
    · rfl
    · exact hall (Nat.le_of_succ_le_succ hlength) b hb
  | case4 p ps heard ih =>
    obtain ⟨hle, _⟩ := ih hcompletes
    rw [length_cons] at hle
    simp only [transmissions, length_cons]
    exact ⟨by omega, fun hlength => by omega⟩

end Transmissions

section Receiving

variable {cb : RymCallbacks} {onData : List (List Byte) → Byte} {s : RymCtx} {len : ℕ}
  {bytes more : List Byte} {p : Packet} {number : ℕ}

open RymCtx

theorem takeBytes_spec {line : List (Option Byte)} (hline : line.filterMap id = bytes ++ more)
    (hlength : bytes.length = len) : (none ∈ line ∧ (takeBytes len line).1.length ≠ len) ∨
      (takeBytes len line).1 = bytes ∧ (takeBytes len line).2.filterMap id = more := by
  induction len generalizing bytes line with
  | zero =>
    right
    rw [length_eq_zero_iff.mp hlength, nil_append] at hline
    rw [takeBytes.eq_3 0 line (by simp) (by simp)]
    exact ⟨(length_eq_zero_iff.mp hlength).symm, hline⟩
  | succ len ih =>
    cases bytes with
    | nil => cases hlength
    | cons c bytes =>
      cases line with
      | nil => cases hline
      | cons item line =>
        cases item with
        | none => exact .inl ⟨by simp, by simp [takeBytes]⟩
        | some b =>
          obtain ⟨hhead, hrest⟩ : b = c ∧ line.filterMap id = bytes ++ more := by
            simpa using hline
          rcases ih hrest (Nat.succ.inj hlength) with ⟨hwait, hshort⟩ | ⟨htaken, hleft⟩
          · exact .inl ⟨mem_cons_of_mem _ hwait, by simpa [takeBytes] using hshort⟩
          · exact .inr ⟨by rw [takeBytes, htaken, ← hhead], hleft⟩

theorem takeBytes_suffix (len : ℕ) (line : List (Option Byte)) :
    (takeBytes len line).2 <:+ line := by
  induction len, line using takeBytes.induct with
  | case1 len b line ih => exact ih.trans (suffix_cons _ _)
  | case2 len line => exact suffix_cons _ _
  | case3 len line h₁ h₂ =>
    rw [takeBytes.eq_3 _ _ h₁ h₂]

theorem recvCrc_bytes (crc : BitVec 16) :
    recvCrc ((crc >>> 8).setWidth 8) (crc.setWidth 8) = crc := by
  apply BitVec.eq_of_getLsbD_eq
  intro i hi
  simp only [recvCrc, BitVec.getLsbD_or, BitVec.getLsbD_shiftLeft, BitVec.getLsbD_ushiftRight,
    BitVec.getLsbD_setWidth]
  by_cases hlow : i < 8
  · simp [hi, hlow]
  · have hplace : 8 + (i - 8) = i := by lia
    have hhigh : i - 8 < 8 := by lia
    have hin : i - 8 < 16 := by lia
    simp [hi, hlow, hplace, hhigh, hin]

theorem crcFails_encode (first second : Byte) (p : Packet) :
    crcFails p.data.length (first :: second :: (p.data ++
      [(crc16 p.data >>> 8).setWidth 8, (crc16 p.data).setWidth 8])) = false := by
  simp [crcFails, recvCrc_bytes]

theorem readCode_spec (hline : s.line.filterMap id = bytes) :
    s.readCode.2.data = s.data ∧ s.readCode.2.line <:+ s.line ∧
      (s.readCode.1 = RYM_CODE_NONE ∧ (none ∈ s.line ∨ bytes = []) ∧
          s.readCode.2.line.filterMap id = bytes ∨
        bytes = s.readCode.1 :: s.readCode.2.line.filterMap id) := by
  unfold readCode
  cases hs : s.line with
  | nil =>
    rw [hs] at hline
    exact ⟨rfl, by simp [hs], .inl ⟨rfl, .inr hline.symm, by simp [hs, ← hline]⟩⟩
  | cons item line =>
    rw [hs] at hline
    cases item with
    | none =>
      exact ⟨rfl, suffix_cons _ _, .inl ⟨rfl, .inl (by simp), by simpa using hline⟩⟩
    | some b => exact ⟨rfl, suffix_cons _ _, .inr (by simpa using hline.symm)⟩

theorem number_add_not (n : Byte) : n.toNat + (~~~n).toNat = 0xFF := by
  rw [BitVec.toNat_not]
  omega

def Packet.tail (p : Packet) (number : ℕ) : List Byte :=
  BitVec.ofNat 8 number :: ~~~(BitVec.ofNat 8 number) :: (p.data ++
    [(crc16 p.data >>> 8).setWidth 8, (crc16 p.data).setWidth 8])

theorem encode_eq (p : Packet) (number : ℕ) : p.encode number =
      (if p.data.length = 128 then RYM_CODE_SOH else RYM_CODE_STX) :: p.tail number := rfl

theorem length_tail (p : Packet) (number : ℕ) : (p.tail number).length = 2 + p.data.length + 2 := by
  simp only [Packet.tail, length_cons, length_append, length_nil]
  omega

theorem transData_spec (hcb : cb.onData = some onData)
    (hline : s.line.filterMap id = p.tail number ++ more) :
    (none ∈ s.line ∧ (s.transData cb p.data.length).1 ≠ RT_EOK) ∨
      (s.transData cb p.data.length).1 = RT_EOK ∧
        (s.transData cb p.data.length).2.1 = onData (s.data ++ [p.data]) ∧
        (s.transData cb p.data.length).2.2.data = s.data ++ [p.data] ∧
        (s.transData cb p.data.length).2.2.line.filterMap id = more := by
  have hlength := length_tail p number
  rw [line_transData]
  unfold transData readData
  rcases takeBytes_spec hline hlength with ⟨hwait, hshort⟩ | ⟨htaken, hleft⟩
  · left
    simp only [hshort, ne_eq, not_false_eq_true, if_true]
    exact ⟨hwait, by decide⟩
  · right
    have hsum : (BitVec.ofNat 8 number).toNat + (~~~(BitVec.ofNat 8 number)).toNat = 0xFF :=
      number_add_not _
    unfold Packet.tail at htaken hlength
    simp only [htaken, hlength, crcFails_encode, hcb, hleft, ne_eq, not_true_eq_false, if_false,
      getD_cons_zero, getD_cons_succ, hsum, Bool.false_eq_true, drop_succ_cons,
      drop_zero, take_left, and_self]

theorem transLoop_of_none (hnone : s.readCode.1 = RYM_CODE_NONE) : (s.transLoop cb).1 ≠ RT_EOK := by
  have hpacket : ¬(RYM_CODE_NONE = RYM_CODE_SOH ∨ RYM_CODE_NONE = RYM_CODE_STX) := by decide
  have hend : RYM_CODE_NONE ≠ RYM_CODE_EOT := by decide
  rw [transLoop, hnone, dif_neg hpacket, if_neg hend]
  exact (by decide : -RYM_ERR_CODE ≠ RT_EOK)

def Smooth (onData : List (List Byte) → Byte) (s : RymCtx) : Prop :=
  none ∉ s.line ∧ ∀ data, onData data = RYM_CODE_ACK

theorem Smooth.of_suffix {s' : RymCtx} (hsmooth : Smooth onData s) (hsuffix : s'.line <:+ s.line) :
    Smooth onData s' :=
  ⟨fun hwait => hsmooth.1 (hsuffix.subset hwait), hsmooth.2⟩

theorem transLoop_packet (hcb : cb.onData = some onData)
    (hline : s.line.filterMap id = p.encode number ++ more)
    (hgoes : (s.transLoop cb).1 = RT_EOK ∨ Smooth onData s) :
    ∃ s' : RymCtx, s'.line.filterMap id = more ∧ s'.data = s.data ++ [p.data] ∧
      s'.line <:+ s.line ∧ s.transLoop cb = s'.transLoop cb := by
  obtain ⟨hdata, hsuffix, hcode⟩ := readCode_spec hline
  rw [encode_eq] at hcode
  rcases hcode with ⟨hnone, hwait, hleft⟩ | hnext
  · rcases hgoes with hok | hsmooth
    · exact absurd hok (transLoop_of_none hnone)
    · exact absurd (hwait.resolve_right (by simp)) hsmooth.1
  · rw [cons_append, cons.injEq] at hnext
    obtain ⟨hcode, hrest⟩ := hnext
    have hsize : (if s.readCode.1 = RYM_CODE_SOH then 128 else 1024) = p.data.length := by
      rw [← hcode]
      rcases p.size with h | h <;> simp [h, RYM_CODE_SOH, RYM_CODE_STX]
    have hbegins : s.readCode.1 = RYM_CODE_SOH ∨ s.readCode.1 = RYM_CODE_STX := by
      rw [← hcode]
      split_ifs
      · exact .inl rfl
      · exact .inr rfl
    have hspec := transData_spec (s := { s.readCode.2 with stage := .transmitting }) hcb hrest.symm
    have hleft := line_transData cb p.data.length { s.readCode.2 with stage := .transmitting }
    rw [transLoop, dif_pos hbegins] at hgoes ⊢
    simp only [hsize] at hgoes ⊢
    generalize transData cb p.data.length { s.readCode.2 with stage := .transmitting } = r at *
    have hsuffix' : r.2.2.line <:+ s.line := by
      rw [hleft]
      exact (takeBytes_suffix _ _).trans hsuffix
    rcases hspec with ⟨hwait, herr⟩ | ⟨heok, hanswer, hcalls, hline'⟩
    · rw [if_pos herr] at hgoes
      rcases hgoes with hok | hsmooth
      · contradiction
      · exact absurd (hsuffix.subset hwait) hsmooth.1
    · rw [if_neg (not_not_intro heok)] at hgoes ⊢
      rw [hdata] at hcalls
      by_cases hcan : r.2.1 = RYM_CODE_CAN
      · rw [if_pos hcan] at hgoes
        rcases hgoes with hok | hsmooth
        · exact absurd hok (by decide : -RYM_ERR_CAN ≠ RT_EOK)
        · rw [hsmooth.2] at hanswer
          nomatch hanswer.symm.trans hcan
      · rw [if_neg hcan]
        by_cases hack : r.2.1 = RYM_CODE_ACK
        · rw [if_pos hack]
          exact ⟨r.2.2.putchar RYM_CODE_ACK, hline', hcalls, hsuffix', rfl⟩
        · rw [if_neg hack]
          exact ⟨r.2.2, hline', hcalls, hsuffix', rfl⟩

/-- By induction on the transmissions: the loop hands on every packet sent. -/
theorem transLoop_spec {ps : List (Packet × ℕ)} {heard : List Bool} {ending : List Byte}
    (hcb : cb.onData = some onData)
    (hline : s.line.filterMap id = senderBytes ps heard (RYM_CODE_EOT :: ending))
    (hgoes : (s.transLoop cb).1 = RT_EOK ∨ Completes ps heard ∧ Smooth onData s) :
    Completes ps heard ∧ (s.transLoop cb).1 = RT_EOK ∧
      (s.transLoop cb).2.line.filterMap id = ending ∧ (s.transLoop cb).2.line <:+ s.line ∧
      (s.transLoop cb).2.data = s.data ++ (transmissions ps heard).map (·.1.data) := by
  induction ps, heard using transmissions.induct generalizing s with
  | case1 heard =>
    obtain ⟨hdata, hsuffix, hcode⟩ := readCode_spec hline
    rw [senderBytes] at hcode
    rcases hcode with ⟨hnone, hwait, hleft⟩ | hnext
    · rcases hgoes with hok | ⟨_, hsmooth⟩
      · exact absurd hok (transLoop_of_none hnone)
      · exact absurd (hwait.resolve_right (by simp)) hsmooth.1
    · rw [cons.injEq] at hnext
      rw [transLoop, ← hnext.1, hnext.2]
      simp [Completes, transmissions, hdata, hsuffix, RYM_CODE_EOT, RYM_CODE_SOH, RYM_CODE_STX]
  | case2 p ps =>
    rcases hgoes with hok | ⟨hcompletes, _⟩
    · obtain ⟨-, -, hcode⟩ := readCode_spec hline
      rcases hcode with ⟨hnone, -, -⟩ | hnext
      · exact absurd hok (transLoop_of_none hnone)
      · exact absurd hnext (by simp [senderBytes])
    · exact hcompletes.elim
  | case3 p ps heard ih | case4 p ps heard ih =>
    obtain ⟨s', hleft, hdata, hsuffix, heq⟩ :=
      transLoop_packet hcb hline (hgoes.imp_right And.right)
    rw [heq] at hgoes ⊢
    obtain ⟨hcompletes, hok, hline', hsuffix', hcalls⟩ :=
      ih hleft (hgoes.imp_right fun h => ⟨h.1, h.2.of_suffix hsuffix⟩)
    refine ⟨hcompletes, hok, hline', hsuffix'.trans hsuffix, ?_⟩
    rw [hcalls, hdata, transmissions, map_cons, append_assoc, singleton_append]

theorem awaitFirst_spec (rounds : ℕ) (hline : s.line.filterMap id = RYM_CODE_SOH :: more)
    (hgoes : (s.awaitFirst rounds).1 = true ∨ none ∉ s.line ∧ 0 < rounds) :
    (s.awaitFirst rounds).1 = true ∧ (s.awaitFirst rounds).2.line.filterMap id = more ∧
      (s.awaitFirst rounds).2.line <:+ s.line ∧ (s.awaitFirst rounds).2.data = s.data := by
  induction rounds generalizing s with
  | zero =>
    rcases hgoes with hbegun | ⟨_, hpos⟩
    · exact absurd hbegun (by simp [awaitFirst])
    · exact absurd hpos (Nat.lt_irrefl 0)
  | succ rounds ih =>
    obtain ⟨hdata, hsuffix, hcode⟩ := readCode_spec (s := s.putchar RYM_CODE_C) hline
    rw [awaitFirst] at hgoes ⊢
    rcases hcode with ⟨hnone, hwait, hleft⟩ | hnext
    · have hne : (s.putchar RYM_CODE_C).readCode.1 ≠ RYM_CODE_SOH := by
        rw [hnone]
        decide
      simp only [if_neg hne] at hgoes ⊢
      rcases hgoes with hbegun | ⟨htimely, _⟩
      · obtain ⟨hbegun, hmore, hsuffix', hdata'⟩ := ih hleft (.inl hbegun)
        exact ⟨hbegun, hmore, hsuffix'.trans hsuffix, hdata'.trans hdata⟩
      · exact absurd (hwait.resolve_right (by simp)) htimely
    · rw [cons.injEq] at hnext
      simp only [← hnext.1, if_true]
      exact ⟨trivial, hnext.2.symm, hsuffix, hdata⟩

theorem awaitFirst_of_silence (rounds : ℕ) (hline : s.line.filterMap id = []) :
    (s.awaitFirst rounds).1 = false := by
  induction rounds generalizing s with
  | zero => rfl
  | succ rounds ih =>
    obtain ⟨-, -, hcode⟩ := readCode_spec (s := s.putchar RYM_CODE_C) hline
    rcases hcode with ⟨hnone, -, hleft⟩ | hnext
    · have hne : (s.putchar RYM_CODE_C).readCode.1 ≠ RYM_CODE_SOH := by
        rw [hnone]
        decide
      rw [awaitFirst]
      simp only [if_neg hne]
      exact ih hleft
    · cases hnext

theorem doHandshake_of_silence {tmSec : ℕ} (hline : s.line.filterMap id = []) :
    (s.doHandshake cb tmSec).1 ≠ RT_EOK := by
  have hsilent : ({ s with stage := .establishing }.awaitFirst tmSec).1 = false :=
    awaitFirst_of_silence tmSec hline
  unfold doHandshake
  generalize { s with stage := .establishing }.awaitFirst tmSec = r at hsilent ⊢
  obtain ⟨begun, s'⟩ := r
  subst hsilent
  exact (by decide : -RYM_ERR_TMO ≠ RT_EOK)

theorem readFirst_spec (hsize : p.data.length = 128)
    (hline : s.line.filterMap id = p.tail 0 ++ more) :
    s.readFirst.2.data = s.data ∧ s.readFirst.2.line <:+ s.line ∧
      ((none ∈ s.line ∧ s.readFirst.1 = .error (-RYM_ERR_DSZ)) ∨
        s.readFirst.1 = .ok p.data ∧ s.readFirst.2.line.filterMap id = more) := by
  have hlength : (p.tail 0).length = sohRest := by rw [length_tail, hsize, sohRest]
  have hcrc := crcFails_encode (BitVec.ofNat 8 0) (~~~(BitVec.ofNat 8 0)) p
  have hsuffix := takeBytes_suffix sohRest s.line
  rw [hsize] at hcrc
  unfold readFirst readData
  rcases takeBytes_spec hline hlength with ⟨hwait, hshort⟩ | ⟨htaken, hleft⟩
  · simp only [hshort, ne_eq, not_false_eq_true, if_true]
    exact ⟨trivial, hsuffix, .inl ⟨hwait, trivial⟩⟩
  · unfold Packet.tail at htaken hlength
    have hnumber : ¬(BitVec.ofNat 8 0 ≠ 0 ∨ ~~~(BitVec.ofNat 8 0) ≠ 0xFF) := by decide
    simp only [htaken, hlength, hcrc, ne_eq, not_true_eq_false, if_false, getD_cons_zero,
      getD_cons_succ, Bool.false_eq_true, if_neg hnumber]
    refine ⟨trivial, hsuffix, .inr ⟨?_, hleft⟩⟩
    simp [← hsize]

variable (cb) in
/-- The handshake ends with the first packet received. -/
theorem doHandshake_spec (tmSec : ℕ) (hsize : p.data.length = 128)
    (hline : s.line.filterMap id = p.encode 0 ++ more)
    (hgoes : (s.doHandshake cb tmSec).1 = RT_EOK ∨
      Smooth onData s ∧ 0 < tmSec ∧ ∀ f ∈ cb.onBegin, f p.data = RYM_CODE_ACK) :
    (s.doHandshake cb tmSec).1 = RT_EOK ∧ (s.doHandshake cb tmSec).2.line.filterMap id = more ∧
      (s.doHandshake cb tmSec).2.line <:+ s.line ∧ (s.doHandshake cb tmSec).2.data = s.data := by
  rw [encode_eq, if_pos hsize] at hline
  unfold doHandshake at hgoes ⊢
  have hawait := awaitFirst_spec (s := { s with stage := .establishing }) tmSec
    (show s.line.filterMap id = RYM_CODE_SOH :: (p.tail 0 ++ more) from hline)
  generalize { s with stage := .establishing }.awaitFirst tmSec = r at hgoes hawait ⊢
  obtain ⟨begun, s'⟩ := r
  cases begun with
  | false =>
    rcases hgoes with hok | ⟨hsmooth, hpos, _⟩
    · exact absurd hok (by decide : -RYM_ERR_TMO ≠ RT_EOK)
    · exact absurd (hawait (.inr ⟨hsmooth.1, hpos⟩)).1 Bool.false_ne_true
  | true =>
    obtain ⟨-, hleft, hsuffix, hdata⟩ := hawait (.inl rfl)
    obtain ⟨hdata', hsuffix', hread⟩ := readFirst_spec hsize hleft
    simp only [Bool.true_eq_false, if_false] at hgoes ⊢
    generalize s'.readFirst = r at *
    obtain ⟨result, s''⟩ := r
    rcases hread with ⟨hwait, hread⟩ | ⟨hread, hmore⟩
    · simp only at hread
      subst hread
      rcases hgoes with hok | ⟨hsmooth, -⟩
      · exact absurd hok (by decide : -RYM_ERR_DSZ ≠ RT_EOK)
      · exact absurd (hsuffix.subset hwait) hsmooth.1
    · simp only at hread
      subst hread
      cases honBegin : cb.onBegin with
      | none => exact ⟨rfl, hmore, hsuffix'.trans hsuffix, hdata'.trans hdata⟩
      | some f =>
        simp only [honBegin] at hgoes ⊢
        refine ⟨?_, hmore, hsuffix'.trans hsuffix, hdata'.trans hdata⟩
        rcases hgoes with hok | ⟨-, -, hacks⟩
        · exact hok
        · rw [if_pos (hacks f rfl)]

theorem data_readCode (s : RymCtx) : s.readCode.2.data = s.data := (readCode_spec rfl).1

theorem data_readFirst (s : RymCtx) : s.readFirst.2.data = s.data := by
  unfold readFirst readData
  dsimp only
  split_ifs <;> rfl

theorem data_doFin (cb : RymCallbacks) (s : RymCtx) : (s.doFin cb).2.data = s.data := by
  unfold doFin
  dsimp only
  generalize hs₁ : putchar RYM_CODE_NAK _ = s₁
  have hdata₁ : s₁.data = s.data := by
    rw [← hs₁, putchar]
    split_ifs <;> rfl
  split_ifs
  · exact (data_readCode s₁).trans hdata₁
  · exact (data_readCode _).trans ((data_readCode s₁).trans hdata₁)
  · generalize hs₂ : (putchar RYM_CODE_C (putchar RYM_CODE_ACK s₁.readCode.2)).readCode.2 = s₂
    have hdata₂ : s₂.data = s.data := by
      rw [← hs₂]
      exact (data_readCode _).trans ((data_readCode s₁).trans hdata₁)
    have hread := (data_readFirst s₂).trans hdata₂
    generalize s₂.readFirst = r at hread ⊢
    obtain ⟨result, s₃⟩ := r
    cases result with
    | error err | ok block => exact hread

theorem handshake_trans_spec (ps : List (Packet × ℕ)) {tmSec : ℕ} {heard : List Bool}
    {ending : List Byte} (hcb : cb.onData = some onData) (hsize : p.data.length = 128)
    (hline : s.line.filterMap id = p.encode 0 ++ senderBytes ps heard (RYM_CODE_EOT :: ending))
    (hgoes : (s.doHandshake cb tmSec).1 = RT_EOK ∧
        ((s.doHandshake cb tmSec).2.doTrans cb).1 = RT_EOK ∨
      (Smooth onData s ∧ 0 < tmSec ∧ ∀ f ∈ cb.onBegin, f p.data = RYM_CODE_ACK) ∧
        Completes ps heard) : (s.doHandshake cb tmSec).1 = RT_EOK ∧
      ((s.doHandshake cb tmSec).2.doTrans cb).1 = RT_EOK ∧ Completes ps heard ∧
      ((s.doHandshake cb tmSec).2.doTrans cb).2.line.filterMap id = ending ∧
      ((s.doHandshake cb tmSec).2.doTrans cb).2.line <:+ s.line ∧
      ((s.doHandshake cb tmSec).2.doTrans cb).2.data =
        s.data ++ (transmissions ps heard).map (·.1.data) := by
  obtain ⟨hshake, hleft, hsuffix, hdata⟩ := doHandshake_spec cb tmSec hsize hline
    (hgoes.imp And.left And.left)
  have hloop := transLoop_spec (s := { ((s.doHandshake cb tmSec).2.putchar
    RYM_CODE_ACK).putchar RYM_CODE_C with stage := .established }) hcb hleft
    (hgoes.imp And.right fun h => ⟨h.2, h.1.1.of_suffix hsuffix⟩)
  obtain ⟨hcompletes, htrans, hending, hsuffix', hcalls⟩ := hloop
  refine ⟨hshake, htrans, hcompletes, hending, hsuffix'.trans hsuffix, hcalls.trans ?_⟩
  exact congrArg (· ++ _) hdata

variable (cb) in
theorem doFin_spec (hsize : p.data.length = 128) (htimely : none ∉ s.line)
    (hline : s.line.filterMap id = RYM_CODE_EOT :: (p.encode 0 ++ more)) :
    (s.doFin cb).1 = RT_EOK := by
  have hcode : ∀ {s : RymCtx} {code : Byte} {bytes : List Byte}, none ∉ s.line →
      s.line.filterMap id = code :: bytes →
      s.readCode.1 = code ∧ none ∉ s.readCode.2.line ∧ s.readCode.2.line.filterMap id = bytes := by
    intro s code bytes htimely hline
    obtain ⟨-, hsuffix, hcode⟩ := readCode_spec hline
    rcases hcode with ⟨-, hwait, -⟩ | hnext
    · exact absurd (hwait.resolve_right (by simp)) htimely
    · rw [cons.injEq] at hnext
      exact ⟨hnext.1.symm, fun hwait => htimely (hsuffix.subset hwait), hnext.2.symm⟩
  unfold doFin
  dsimp only
  generalize hs₁ : putchar RYM_CODE_NAK _ = s₁
  have hline₁ : s₁.line = s.line := by
    rw [← hs₁, putchar]
    split_ifs <;> rfl
  obtain ⟨heot, htimely₂, hline₂⟩ := hcode (hline₁ ▸ htimely) ((congrArg _ hline₁).trans hline)
  rw [if_neg (not_not_intro heot)]
  rw [encode_eq, if_pos hsize] at hline₂
  obtain ⟨hsoh, htimely₃, hline₃⟩ :=
    hcode (s := putchar RYM_CODE_C (putchar RYM_CODE_ACK s₁.readCode.2)) htimely₂ hline₂
  rw [if_neg (not_not_intro hsoh)]
  obtain ⟨-, -, hread⟩ := readFirst_spec hsize hline₃
  rcases hread with ⟨hwait, -⟩ | ⟨hread, -⟩
  · contradiction
  · generalize (putchar RYM_CODE_C (putchar RYM_CODE_ACK s₁.readCode.2)).readCode.2.readFirst = r
      at hread ⊢
    obtain ⟨result, s₂⟩ := r
    subst hread
    rfl

end Receiving

theorem map_data_zipIdx (packets : List Packet) (n : ℕ) :
    (packets.zipIdx n).map (·.1.data) = packets.map Packet.data := by
  calc (packets.zipIdx n).map (·.1.data)
    _ = ((packets.zipIdx n).map Prod.fst).map Packet.data := by rw [map_map]; rfl
    _ = packets.map Packet.data := by rw [zipIdx_map_fst]

/-- The data arrives once exactly when every acknowledgement was heard. -/
theorem data_transmissions_iff {packets : List Packet} {heard : List Bool}
    (hcompletes : Completes (packets.zipIdx 1) heard) :
    (transmissions (packets.zipIdx 1) heard).map (·.1.data) = packets.map Packet.data ↔
      AllHeard packets.length heard := by
  have hlength : (packets.zipIdx 1).length = packets.length := length_zipIdx
  constructor
  · intro hdata
    have hcount := congrArg List.length hdata
    rw [length_map, length_map] at hcount
    have hall := (length_transmissions hcompletes).2
    rw [hlength] at hall
    exact hall hcount.le
  · intro hall
    rw [← hlength] at hall
    rw [transmissions_of_allHeard hcompletes hall, map_data_zipIdx]

theorem allHeard_cons (b : Bool) (n : ℕ) (heard : List Bool) :
    AllHeard (n + 1) (b :: heard) ↔ b = true ∧ AllHeard n heard := by
  simp [AllHeard]

/-- When a session returns `RT_EOK`, the callback was given the data of each packet once and in
order if and only if no acknowledgement of a packet was lost. -/
theorem delivered_iff_allHeard (onBegin : Option (List Byte → Byte))
    (onData : List (List Byte) → Byte) (onEnd : Bool) (handshakeTimeout : ℕ) (opened : ℤ)
    (buf : Option (List Byte)) (header : Packet) (packets : List Packet) (heard : List Bool)
    (ending : List Byte) (line : List (Option Byte)) (hheader : header.data.length = 128)
    (hline : line.filterMap id =
      senderBytes (numbered header packets) heard (RYM_CODE_EOT :: ending))
    (hok : (rymRecvOnDevice ⟨onBegin, some onData, onEnd⟩ handshakeTimeout opened buf line).1 =
      RT_EOK) :
    (rymRecvOnDevice ⟨onBegin, some onData, onEnd⟩ handshakeTimeout opened buf line).2.data =
        packets.map Packet.data ↔ AllHeard (packets.length + 1) heard := by
  unfold rymRecvOnDevice doRecv at hok ⊢
  by_cases hopened : opened = RT_EOK
  · rw [if_neg (not_not_intro hopened)] at hok ⊢
    cases buf with
    | none => exact absurd hok (by decide : -RT_ENOMEM ≠ RT_EOK)
    | some buf =>
      have hcb : (⟨onBegin, some onData, onEnd⟩ : RymCallbacks).onData = some onData := rfl
      generalize (⟨onBegin, some onData, onEnd⟩ : RymCallbacks) = cb at hok hcb ⊢
      have hparts : ((RymCtx.start buf line).doHandshake cb handshakeTimeout).1 = RT_EOK ∧
          (((RymCtx.start buf line).doHandshake cb handshakeTimeout).2.doTrans cb).1 =
            RT_EOK := by
        by_contra hfails
        dsimp only at hok
        split_ifs at hok with h₁ h₂
        · exact h₁ hok
        · exact h₂ hok
        · exact hfails ⟨not_not.mp h₁, not_not.mp h₂⟩
      simp only [hparts.1, hparts.2, ne_eq, not_true_eq_false, if_false, data_doFin]
      cases heard with
      | nil =>
        exact absurd hparts.1 (doHandshake_of_silence hline)
      | cons b heard =>
        rw [allHeard_cons]
        cases b with
        | true =>
          obtain ⟨-, -, hcompletes, -, -, hcalls⟩ := handshake_trans_spec
            (s := RymCtx.start buf line) (packets.zipIdx 1) hcb hheader hline
            (.inl hparts)
          rw [hcalls, RymCtx.start, nil_append, data_transmissions_iff hcompletes]
          exact (and_iff_right rfl).symm
        | false =>
          -- The header is sent again, and taken for data.
          obtain ⟨-, -, hcompletes, -, -, hcalls⟩ := handshake_trans_spec
            (s := RymCtx.start buf line) (numbered header packets) hcb hheader hline
            (.inl hparts)
          rw [hcalls, RymCtx.start, nil_append]
          refine iff_of_false (fun hdata => ?_) (fun hall => Bool.false_ne_true hall.1)
          have hcount := congrArg List.length hdata
          have hle := (length_transmissions hcompletes).1
          simp only [length_map, numbered, length_cons, length_zipIdx] at hcount hle
          omega
  · rw [if_pos hopened] at hok
    contradiction

/-- A session in which all bytes arrive in time and the callbacks acknowledge returns `RT_EOK`,
and the callback was given the data of every transmission behind the first one. -/
theorem rymRecvOnDevice_of_smooth {cb : RymCallbacks} {onData : List (List Byte) → Byte}
    {handshakeTimeout : ℕ} {buf : List Byte} {header final : Packet} {ps : List (Packet × ℕ)}
    {heard : List Bool} {more : List Byte} {line : List (Option Byte)}
    (hcb : cb.onData = some onData) (hheader : header.data.length = 128)
    (hfinal : final.data.length = 128) (hpos : 0 < handshakeTimeout)
    (hsmooth : none ∉ line ∧ ∀ data, onData data = RYM_CODE_ACK)
    (hacks : ∀ f ∈ cb.onBegin, f header.data = RYM_CODE_ACK) (hcompletes : Completes ps heard)
    (hline : line.filterMap id = header.encode 0 ++
      senderBytes ps heard (RYM_CODE_EOT :: RYM_CODE_EOT :: (final.encode 0 ++ more))) :
    (rymRecvOnDevice cb handshakeTimeout RT_EOK (some buf) line).1 = RT_EOK ∧
      (rymRecvOnDevice cb handshakeTimeout RT_EOK (some buf) line).2.data =
        (transmissions ps heard).map (·.1.data) := by
  obtain ⟨hshake, htrans, -, hending, hsuffix, hcalls⟩ := handshake_trans_spec
    (s := RymCtx.start buf line) ps hcb hheader hline
    (.inr ⟨⟨hsmooth, hpos, hacks⟩, hcompletes⟩)
  have hfin := doFin_spec cb hfinal (fun hwait => hsmooth.1 (hsuffix.subset hwait)) hending
  have hrecv : rymRecvOnDevice cb handshakeTimeout RT_EOK (some buf) line =
      (((RymCtx.start buf line).doHandshake cb handshakeTimeout).2.doTrans cb).2.doFin cb := by
    simp only [rymRecvOnDevice, doRecv, ne_eq, not_true_eq_false, if_false, hshake, htrans]
  rw [hrecv]
  exact ⟨hfin, (data_doFin cb _).trans hcalls⟩

def sampleBlock (b : Byte) : Packet := ⟨List.replicate 128 b, .inl length_replicate⟩

theorem length_sampleBlock (b : Byte) : (sampleBlock b).data.length = 128 := length_replicate

def sampleEnding : List Byte := RYM_CODE_EOT :: (sampleBlock 0).encode 0

def sampleLine (heard : List Bool) : List (Option Byte) :=
  (senderBytes (numbered (sampleBlock 0x61) [sampleBlock 0x62]) heard
    (RYM_CODE_EOT :: sampleEnding)).map some

theorem filterMap_sampleLine (heard : List Bool) : (sampleLine heard).filterMap id =
      senderBytes (numbered (sampleBlock 0x61) [sampleBlock 0x62]) heard
        (RYM_CODE_EOT :: sampleEnding) := by
  simp [sampleLine]

theorem recv_sampleLine (heard : List Bool) (hcompletes : Completes [(sampleBlock 0x62, 1)] heard) :
    (rymRecvOnDevice ⟨none, some fun _ => RYM_CODE_ACK, false⟩ 1 RT_EOK (some [])
        (sampleLine (true :: heard))).1 = RT_EOK ∧
      (rymRecvOnDevice ⟨none, some fun _ => RYM_CODE_ACK, false⟩ 1 RT_EOK (some [])
        (sampleLine (true :: heard))).2.data =
        (transmissions [(sampleBlock 0x62, 1)] heard).map (·.1.data) := by
  have hline : (sampleLine (true :: heard)).filterMap id = (sampleBlock 0x61).encode 0 ++
      senderBytes [(sampleBlock 0x62, 1)] heard
        (RYM_CODE_EOT :: RYM_CODE_EOT :: ((sampleBlock 0).encode 0 ++ [])) := by
    rw [filterMap_sampleLine, append_nil]
    rfl
  exact rymRecvOnDevice_of_smooth rfl (length_sampleBlock 0x61) (length_sampleBlock 0) Nat.one_pos
    ⟨by simp [sampleLine], fun _ => rfl⟩ (fun _ h => absurd h (by simp)) hcompletes hline

theorem delivered_sampleLine :
    (rymRecvOnDevice ⟨none, some fun _ => RYM_CODE_ACK, false⟩ 1 RT_EOK (some [])
        (sampleLine [true, true])).2.data = [sampleBlock 0x62].map Packet.data ↔
      AllHeard ([sampleBlock 0x62].length + 1) [true, true] :=
  delivered_iff_allHeard none (fun _ => RYM_CODE_ACK) false 1 RT_EOK (some []) (sampleBlock 0x61)
    [sampleBlock 0x62] [true, true] sampleEnding (sampleLine [true, true]) (length_sampleBlock _)
    (filterMap_sampleLine _) (recv_sampleLine [true] trivial).1

/-- The sender repeats a packet whose acknowledgement is lost. -/
theorem not_delivered_once :
    ¬ ∀ (onBegin : Option (List Byte → Byte)) (onData : List (List Byte) → Byte) (onEnd : Bool)
      (handshakeTimeout : ℕ) (opened : ℤ) (buf : Option (List Byte)) (header : Packet)
      (packets : List Packet) (heard : List Bool) (ending : List Byte)
      (line : List (Option Byte)), header.data.length = 128 →
      line.filterMap id = senderBytes (numbered header packets) heard (RYM_CODE_EOT :: ending) →
      (rymRecvOnDevice ⟨onBegin, some onData, onEnd⟩ handshakeTimeout opened buf line).1 = RT_EOK →
      (rymRecvOnDevice ⟨onBegin, some onData, onEnd⟩ handshakeTimeout opened buf line).2.data =
        packets.map Packet.data := by
  intro hclaim
  have hcompletes : Completes [(sampleBlock 0x62, 1)] [false, true] := trivial
  obtain ⟨hok, hdata⟩ := recv_sampleLine [false, true] hcompletes
  have honce := hclaim none (fun _ => RYM_CODE_ACK) false 1 RT_EOK (some []) (sampleBlock 0x61)
    [sampleBlock 0x62] [true, false, true] sampleEnding (sampleLine [true, false, true])
    (length_sampleBlock _) (filterMap_sampleLine _) hok
  rw [hdata] at honce
  exact absurd (congrArg List.length honce) (by simp [transmissions])

end RtThread.Ymodem
