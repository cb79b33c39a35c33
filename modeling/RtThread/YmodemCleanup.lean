import RtThread.DeviceModel
import RtThread.KernelDefs
import RtThread.YmodemModel

/-!
# What a YMODEM session leaves behind

`rym_recv_on_device` sets up the device, the context and the global pointer to
it, and one exit takes everything back.  An open that fails comes to this exit
before the session has a buffer of its own, and without the close that would
take back a reference counted by it.
-/

namespace RtThread.Ymodem

open DeviceModel (RtDevice rtDeviceOpen rtDeviceClose rtDeviceOpen_cases rtDeviceClose_cases)

def RT_DEVICE_FLAG_STREAM : BitVec 16 := 0x040

def rymRxInd : ℕ := 1

/-- The device with its `rx_indicate`, the `buf` of the caller's context and `_rym_the_ctx`. -/
structure Port where
  dev : RtDevice
  rxIndicate : ℕ
  buf : ℕ
  theCtx : ℕ

/-- What the driver answers should it be asked, and what `rt_malloc` returns, with the bytes
there. -/
structure Surroundings where
  initResult : ℤ
  openResult : ℤ
  closeResult : ℤ
  malloc : ℕ
  bytes : List Byte

/-- The result of the session, with the results of `rt_malloc` and the arguments of `rt_free`. -/
structure Outcome where
  res : ℤ
  port : Port
  allocated : List ℕ
  freed : List ℕ

def exitSession (odevRxInd : ℕ) (odevFlag : BitVec 16) (res : ℤ) (allocated : List ℕ)
    (s : Port) : Outcome where
  res := res
  port := { s with dev := { s.dev with flag := odevFlag }, rxIndicate := odevRxInd, theCtx := rtNull }
  allocated := allocated
  freed := [s.buf]

/-- `rym_recv_on_device` with its cleanup; `none` is a failed assertion. -/
def recvOnDevice (cb : RymCallbacks) (handshakeTimeout ctx : ℕ) (around : Surroundings)
    (line : List (Option Byte)) (s : Port) : Option Outcome :=
  if s.theCtx ≠ rtNull then none
  else
    let dev := { s.dev with flag := s.dev.flag &&& ~~~RT_DEVICE_FLAG_STREAM }
    (rtDeviceOpen dev 0 around.initResult around.openResult).map fun (dev, res) =>
      let opened := { s with dev := dev, rxIndicate := rymRxInd, theCtx := ctx }
      if res ≠ RT_EOK then exitSession s.rxIndicate s.dev.flag res [] opened
      else
        let res := (doRecv cb handshakeTimeout
          (if around.malloc = rtNull then none else some around.bytes) line).1
        exitSession s.rxIndicate s.dev.flag res [around.malloc]
          { opened with dev := (rtDeviceClose dev around.closeResult).1, buf := around.malloc }

/-- The device is as before and all memory is freed once. -/
structure CleansUp (s : Port) (o : Outcome) : Prop where
  rxIndicate : o.port.rxIndicate = s.rxIndicate
  flag : o.port.dev.flag = s.dev.flag
  count : o.port.dev.refCount = s.dev.refCount
  theCtx : o.port.theCtx = rtNull
  freed_mem : ∀ p ∈ o.freed, p = rtNull ∨ p ∈ o.allocated
  freed_once : ∀ p ∈ o.allocated, p ≠ rtNull → o.freed.count p = 1

def ComesToOpen (dev : RtDevice) (initResult : ℤ) : Prop :=
  (dev.AsksInit → initResult = RT_EOK) ∧ ¬(dev.Standalone ∧ dev.IsOpen)

/-- Where the open comes to `dev->open`, that does not fail, and where it does not, the context
has no buffer. -/
def Covered (s : Port) (around : Surroundings) : Prop :=
  (ComesToOpen s.dev around.initResult → s.dev.hasOpen → around.openResult = RT_EOK) ∧
    (¬ComesToOpen s.dev around.initResult → s.buf = rtNull)

variable {cb : RymCallbacks} {handshakeTimeout ctx : ℕ} {around : Surroundings}
  {line : List (Option Byte)} {s : Port} {o : Outcome}

theorem flag_without_stream (flag mask : BitVec 16) (hmask : mask &&& RT_DEVICE_FLAG_STREAM = 0) :
    flag &&& ~~~RT_DEVICE_FLAG_STREAM &&& mask = flag &&& mask := by
  have hother : ~~~RT_DEVICE_FLAG_STREAM &&& mask = mask := by
    apply BitVec.eq_of_getLsbD_eq
    intro i hi
    have hbit := congrArg (fun x : BitVec 16 => x.getLsbD i) hmask
    simp only [BitVec.getLsbD_and] at hbit
    simp only [BitVec.getLsbD_and, BitVec.getLsbD_not, hi, decide_true, Bool.true_and]
    cases hm : mask.getLsbD i
    · simp
    · simpa [hm] using hbit
  rw [BitVec.and_assoc, hother]

theorem comesToOpen_without_stream (dev : RtDevice) (initResult : ℤ) :
    ComesToOpen { dev with flag := dev.flag &&& ~~~RT_DEVICE_FLAG_STREAM } initResult ↔
      ComesToOpen dev initResult := by
  have hactive := flag_without_stream dev.flag DeviceModel.RT_DEVICE_FLAG_ACTIVATED rfl
  have halone := flag_without_stream dev.flag DeviceModel.RT_DEVICE_FLAG_STANDALONE rfl
  simp only [ComesToOpen, RtDevice.AsksInit, RtDevice.Activated, RtDevice.Standalone,
    RtDevice.IsOpen, hactive, halone]

theorem recvOnDevice_cases (hrun : recvOnDevice cb handshakeTimeout ctx around line s = some o) :
    o.port.rxIndicate = s.rxIndicate ∧ o.port.dev.flag = s.dev.flag ∧ o.port.theCtx = rtNull ∧
      ((ComesToOpen s.dev around.initResult ∧ (s.dev.hasOpen → around.openResult = RT_EOK) ∧
          o.port.dev.refCount = s.dev.refCount ∧ o.allocated = [around.malloc] ∧
          o.freed = [around.malloc]) ∨ (ComesToOpen s.dev around.initResult ∧
          ¬(s.dev.hasOpen → around.openResult = RT_EOK) ∧
          o.port.dev.refCount = s.dev.refCount + 1) ∨
        (¬ComesToOpen s.dev around.initResult ∧ o.port.dev.refCount = s.dev.refCount ∧
          o.allocated = [] ∧ o.freed = [s.buf])) := by
  unfold recvOnDevice at hrun
  have hfree : ¬s.theCtx ≠ rtNull := by
    intro htaken
    rw [if_pos htaken] at hrun
    simp at hrun
  rw [if_neg hfree] at hrun
  rcases Option.map_eq_some_iff.mp hrun with ⟨⟨dev', res⟩, hopen, ho⟩
  dsimp only at hopen ho
  have hcomes := comesToOpen_without_stream s.dev around.initResult
  generalize hquiet : ({ s.dev with flag := s.dev.flag &&& ~~~RT_DEVICE_FLAG_STREAM } : RtDevice) =
    quiet at hopen hcomes
  have hcount : quiet.refCount = s.dev.refCount := by
    rw [← hquiet]
  have hdriver : quiet.hasOpen = s.dev.hasOpen := by
    rw [← hquiet]
  rcases rtDeviceOpen_cases hopen with ⟨hasks, hne, hres, hdev⟩ |
    ⟨hasked, hbusy, hres, hkept, -⟩ | ⟨hasked, halone, hwrap, hcounted, hres, -⟩
  · have hnot : ¬ComesToOpen s.dev around.initResult := fun h => hne ((hcomes.mpr h).1 hasks)
    have herr : res ≠ RT_EOK := hres ▸ hne
    rw [if_pos herr] at ho
    rw [← ho]
    exact ⟨rfl, rfl, rfl, .inr (.inr ⟨hnot, by rw [← hcount, ← hdev]; rfl, rfl, rfl⟩)⟩
  · have hnot : ¬ComesToOpen s.dev around.initResult := fun h => (hcomes.mpr h).2 hbusy
    have herr : res ≠ RT_EOK := by
      rw [hres]
      decide
    rw [if_pos herr] at ho
    rw [← ho]
    exact ⟨rfl, rfl, rfl, .inr (.inr ⟨hnot, hkept.trans hcount, rfl, rfl⟩)⟩
  · have hyes : ComesToOpen s.dev around.initResult := hcomes.mp ⟨hasked, halone⟩
    have hright : res = RT_EOK ↔ (s.dev.hasOpen → around.openResult = RT_EOK) := by
      rw [hres, hdriver]
      split_ifs with hdo <;> simp [hdo, DeviceModel.RT_EOK, RT_EOK]
    by_cases herr : res = RT_EOK
    · rw [if_neg (not_not.mpr herr)] at ho
      rw [← ho]
      refine ⟨rfl, rfl, rfl, .inl ⟨hyes, hright.mp herr, ?_, rfl, rfl⟩⟩
      rcases rtDeviceClose_cases (Prod.mk.eta (p := rtDeviceClose dev' around.closeResult)).symm with
        ⟨hzero, -⟩ | ⟨-, hback, -⟩
      · exact absurd (hcounted.symm.trans hzero) hwrap
      · change (rtDeviceClose dev' around.closeResult).1.refCount = _
        rw [hback, hcounted, hcount]
        exact BitVec.add_sub_cancel _ _
    · rw [if_pos herr] at ho
      rw [← ho]
      refine ⟨rfl, rfl, rfl, .inr (.inl ⟨hyes, fun h => herr (hright.mpr h), ?_⟩)⟩
      change dev'.refCount = _
      rw [hcounted, hcount]

/-- A session that returns has cleaned up exactly what it set up if and only if its open succeeds,
or is refused before `dev->open` while the context has no buffer. -/
theorem recvOnDevice_cleansUp_iff (cb : RymCallbacks) (handshakeTimeout ctx : ℕ)
    (around : Surroundings) (line : List (Option Byte)) (s : Port) (o : Outcome)
    (hrun : recvOnDevice cb handshakeTimeout ctx around line s = some o) :
    CleansUp s o ↔ Covered s around := by
  rcases recvOnDevice_cases hrun with ⟨hind, hflag, hctx, hcases⟩
  rcases hcases with ⟨hcomes, hopens, hcount, hallocated, hfreed⟩ | ⟨hcomes, hfails, hcount⟩ |
    ⟨hnot, hcount, hallocated, hfreed⟩
  · refine iff_of_true ⟨hind, hflag, hcount, hctx, ?_, ?_⟩
      ⟨fun _ => hopens, fun hnot => absurd hcomes hnot⟩
    · rw [hallocated, hfreed]
      exact fun p hp => .inr hp
    · rw [hallocated, hfreed]
      intro p hp hne
      rw [List.mem_singleton.mp hp]
      simp
  · refine iff_of_false (fun hclean => ?_) (fun hcovered => hfails (hcovered.1 hcomes))
    have hsame := hcount.symm.trans hclean.count
    bv_omega
  · have hbuf : Covered s around ↔ s.buf = rtNull :=
      ⟨fun h => h.2 hnot, fun h => ⟨fun hcomes => absurd hcomes hnot, fun _ => h⟩⟩
    rw [hbuf]
    constructor
    · intro hclean
      have hmem := hclean.freed_mem s.buf (by rw [hfreed]; exact List.mem_singleton_self _)
      rw [hallocated] at hmem
      exact hmem.resolve_right List.not_mem_nil
    · intro hnull
      refine ⟨hind, hflag, hcount, hctx, ?_, ?_⟩
      · rw [hfreed, hnull]
        exact fun p hp => .inl (List.mem_singleton.mp hp)
      · rw [hallocated]
        exact nofun

def idleDevice : RtDevice := ⟨0x050, 0, 0, false, false, false⟩

theorem recvOnDevice_cleansUp_silent :
    ∃ o, recvOnDevice ⟨none, none, false⟩ 1 0x20000100 ⟨0, 0, 0, 0x20002000, []⟩ []
        ⟨idleDevice, 7, 0xdeadbeec, rtNull⟩ = some o ∧
      (CleansUp ⟨idleDevice, 7, 0xdeadbeec, rtNull⟩ o ↔
        Covered ⟨idleDevice, 7, 0xdeadbeec, rtNull⟩ ⟨0, 0, 0, 0x20002000, []⟩) :=
  ⟨_, rfl, recvOnDevice_cleansUp_iff _ _ _ _ _ _ _ rfl⟩

def busyDevice : RtDevice := ⟨0x058, 0x008, 1, false, false, false⟩

/-- The device is open already and the context keeps the buffer of another session. -/
theorem not_recvOnDevice_cleansUp :
    ¬∀ (cb : RymCallbacks) (handshakeTimeout ctx : ℕ) (around : Surroundings)
      (line : List (Option Byte)) (s : Port) (o : Outcome),
      recvOnDevice cb handshakeTimeout ctx around line s = some o → CleansUp s o := by
  intro hall
  have hclean := hall ⟨none, none, false⟩ 1 0x20000100 ⟨0, 0, 0, 0x20002000, []⟩ []
    ⟨busyDevice, 7, 0x20002000, rtNull⟩ _ rfl
  have hfreed := hclean.freed_mem 0x20002000 (List.mem_singleton_self _)
  revert hfreed
  decide

end RtThread.Ymodem
